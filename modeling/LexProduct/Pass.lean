import LexProduct.Counter
import LexProduct.Grid

/-!
# Passes over a grid

A pass is a counter over a fixed grid; it shows where the next tuple is. Passes over one grid do not
disturb each other. A pass that has run out stays so until a `seek` puts it on a rank again.
-/

namespace LexProduct

/-- A grid and the position of the next tuple. -/
structure Pass (α : Type) where
  grid : Grid α
  counter : Counter

/-- A pass on the first tuple of the grid. -/
def Grid.pass {α : Type} (g : Grid α) : Pass α := ⟨g, Counter.zeroed g.size⟩

namespace Pass

variable {α : Type}

/-! ### What a pass shows -/

/-- The indices of the next tuple, if there is one. -/
def position (p : Pass α) : Option (List Word) :=
  if p.counter.exhausted || p.grid.isVoid then none else some p.counter.digits

/-- The rank of the next tuple, if there is one and its rank is a word. -/
def rank (p : Pass α) : Option Word :=
  p.position.bind fun digits => MixedRadix.rank? digits p.grid.radices

/-- The number of tuples left, if it is a word. -/
def remaining (p : Pass α) : Checked (Option Word) := p.counter.remaining? p.grid.radices

/-- Bounds on the number of tuples left: twice that number, or only the greatest word as a lower
bound. -/
def sizeHint (p : Pass α) : Checked (Word × Option Word) := do
  match ← p.remaining with
  | some n => return (n, some n)
  | none => return (Word.maxValue, none)

/-- The number of tuples left, exactly. -/
def left (p : Pass α) : Nat :=
  match p.position with
  | none => 0
  | some digits =>
    p.grid.count - MixedRadix.value (MixedRadix.wheels digits p.grid.radices)

/-! ### Moving a pass -/

/-- The next tuple, if there is one, and the pass behind it. -/
def next (p : Pass α) : Checked (Option (List α) × Pass α) :=
  if p.counter.exhausted then
    return (none, p)
  else if p.grid.isVoid then
    return (none, { p with counter := p.counter.exhaust })
  else do
    let tuple ← p.grid.tupleAt p.counter.digits
    let (_, counter) ← p.counter.advance p.grid.radices
    return (some tuple, { p with counter })

/-- The next tuple after `n` others, if there is one, and the pass behind it. -/
def nth (p : Pass α) (n : Word) : Checked (Option (List α) × Pass α) :=
  if p.counter.exhausted then
    return (none, p)
  else if p.grid.isVoid then
    return (none, { p with counter := p.counter.exhaust })
  else do
    let (reached, counter) ← p.counter.advanceBy n p.grid.radices
    if reached then next { p with counter } else return (none, { p with counter })

/-- The pass put on a rank, also after it has run out, and left where it stands if there is no such
rank. -/
def trySeek (p : Pass α) (rank : Word) : Checked (Attempt (Pass α)) := do
  match ← MixedRadix.unrank? rank p.grid.radices with
  | none =>
    let cardinality := (MixedRadix.cardinality? p.grid.radices).getD Word.maxValue
    return (.error (.rankOutOfRange rank cardinality), p)
  | some digits =>
    let counter ← p.counter.setDigits digits
    return (.ok (), { p with counter })

/-- The pass behind a seek that is not refused. -/
def seek (p : Pass α) (rank : Word) : Checked (Except ProductError (Pass α)) :=
  return (← p.trySeek rank).toExcept

end Pass

end LexProduct
