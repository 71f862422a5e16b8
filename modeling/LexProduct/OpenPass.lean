import LexProduct.Pass.Drawing

/-!
# Open passes

An open pass owns its grid and can still register dimensions while it runs. A new dimension becomes
the one that varies fastest, starting at its first element, and the enumeration goes on from where it
is. An open pass never seeks, so once it has run out it stays so.
-/

namespace LexProduct

/-- A pass whose grid may still grow. -/
structure OpenPass (α : Type) extends Pass α

namespace OpenPass

variable {α : Type}

def empty (policy : EmptyPolicy) : OpenPass α := ⟨⟨Grid.empty policy, Counter.empty⟩⟩

/-- The pass with one more dimension, on its first element. -/
def register (p : OpenPass α) (d : Dimension α) : OpenPass α :=
  ⟨⟨p.grid.register d, p.counter.pushDigit⟩⟩

/-- The dimension is offered to the grid, and the counter follows if the grid takes it. -/
def offer (p : OpenPass α) (d : Dimension α) : Attempt (OpenPass α) :=
  match p.grid.offer d with
  | (.error e, grid) => (.error e, ⟨⟨grid, p.counter⟩⟩)
  | (.ok (), grid) => (.ok (), ⟨⟨grid, p.counter.pushDigit⟩⟩)

/-- The open pass behind an offer that is not refused. -/
def tryRegister (p : OpenPass α) (d : Dimension α) : Except ProductError (OpenPass α) :=
  (p.offer d).toExcept

/-- The lenient open pass over these dimensions. -/
def ofList (ds : List (Dimension α)) : OpenPass α := ds.foldl register (empty .lenient)

def isExhausted (p : OpenPass α) : Bool := p.counter.exhausted

/-- An open pass driven as a pass. -/
def drive {β : Type} (p : OpenPass α) (draw : Pass α → Checked (β × Pass α)) :
    Checked (β × OpenPass α) :=
  (draw p.toPass).map fun (answer, pass) => (answer, ⟨pass⟩)

def next (p : OpenPass α) : Checked (Option (List α) × OpenPass α) := p.drive Pass.next

def nth (p : OpenPass α) (n : Word) : Checked (Option (List α) × OpenPass α) :=
  p.drive (Pass.nth · n)

theorem eq_of_offer_error {p q : OpenPass α} {d : Dimension α} {e : ProductError}
    (h : p.offer d = (.error e, q)) : q = p := by
  unfold offer at h
  split at h
  · rename_i e' grid hgrid
    obtain rfl := Grid.eq_of_offer_error hgrid
    exact (Prod.mk.inj h).2.symm
  · cases h

end OpenPass

end LexProduct
