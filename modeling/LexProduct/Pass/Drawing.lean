import LexProduct.Pass

/-!
# Drawing several tuples

Runs of `next` and `nth` on one pass. Each of them ends with the first draw that finds no tuple.
-/

namespace LexProduct.Pass

variable {α : Type}

abbrev Draw (α : Type) := Pass α → Checked (Option (List α) × Pass α)

/-- At most `max` draws on top of the tuples in `drawn`, which holds the latest first. -/
def gatherOnto (drawn : List (List α)) (first later : Draw α) :
    Nat → Pass α → Checked (List (List α) × Pass α)
  | 0, p => .ok (drawn.reverse, p)
  | max + 1, p => do
    match ← first p with
    | (none, p) => return (drawn.reverse, p)
    | (some tuple, p) => gatherOnto (tuple :: drawn) later later max p

/-- The tuples of at most `max` draws, the first by `first` and the others by `later`. -/
def gather (first later : Draw α) (max : Nat) (p : Pass α) : Checked (List (List α) × Pass α) :=
  gatherOnto [] first later max p

def take (max : Nat) (p : Pass α) : Checked (List (List α) × Pass α) := gather next next max p

/-- At most `max` tuples after `n` others. -/
def takeAfter (n : Word) (max : Nat) (p : Pass α) : Checked (List (List α) × Pass α) :=
  gather (if n = 0 then next else (nth · n)) next max p

/-- At most `max` tuples, from the next one in strides of `stride`. -/
def takeEvery (stride : Word) (max : Nat) (p : Pass α) : Checked (List (List α) × Pass α) :=
  gather (nth · 0) (nth · (stride - 1)) max p

/-- All tuples left. The draw after the last of them finds none. -/
def collect (p : Pass α) : Checked (List (List α) × Pass α) := p.take (p.left + 1)

/-- The number of tuples left, found by drawing them. -/
def tally (p : Pass α) : Checked (Nat × Pass α) := do
  let (tuples, p) ← p.collect
  return (tuples.length, p)

def last (p : Pass α) : Checked (Option (List α) × Pass α) := do
  let (tuples, p) ← p.collect
  return (tuples.getLast?, p)

/-- The tuples drawn before stand in front. -/
theorem gatherOnto_eq (drawn : List (List α)) (first later : Draw α) (max : Nat) (p : Pass α) :
    gatherOnto drawn first later max p =
      (gather first later max p).map fun (tuples, p) => (drawn.reverse ++ tuples, p) := by
  induction max generalizing drawn first p with
  | zero => simp [gather, gatherOnto, Except.map]
  | succ max ih =>
    unfold gather gatherOnto
    cases h : first p with
    | error e => rfl
    | ok r =>
      obtain ⟨t, q⟩ := r
      cases t with
      | none => simp [bind, Except.bind, pure, Except.pure, Except.map]
      | some t =>
        simp only [bind, Except.bind]
        rw [ih (t :: drawn), ih [t]]
        cases gather later later max q <;> simp [Except.map]

end LexProduct.Pass
