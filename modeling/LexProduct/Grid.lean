import LexProduct.Dimension
import LexProduct.EmptyPolicy
import LexProduct.Lexicographic
import LexProduct.MixedRadix.Bounded
import LexProduct.ProductError

/-!
# Grids

A grid is a list of dimensions; its tuples take one element of each, in the order in which the
dimensions were registered. `tuples` lists them all; `get?`, `rankOf` and `cardinality` answer without
listing anything, by reading a position as a numeral whose radices are the lengths.
-/

namespace LexProduct

/-- Dimensions in the order of registration, their lengths, and the policy of guarded registrations. -/
structure Grid (α : Type) where
  dimensions : List (Dimension α) := []
  /-- The length of each dimension, kept beside the dimensions. -/
  radices : List Word := []
  policy : EmptyPolicy := .allow
  radices_eq : radices = dimensions.map Dimension.length := by rfl

namespace Grid

variable {α : Type}

def empty (policy : EmptyPolicy) : Grid α := { policy }

def size (g : Grid α) : Nat := g.dimensions.length

def isEmpty (g : Grid α) : Bool := g.dimensions.isEmpty

def dimension? (g : Grid α) (index : Nat) : Option (Dimension α) := g.dimensions[index]?

/-! ### Registration -/

/-- The grid with one more dimension, after the others. -/
def register (g : Grid α) (d : Dimension α) : Grid α where
  dimensions := g.dimensions ++ [d]
  radices := g.radices ++ [d.length]
  policy := g.policy
  radices_eq := by simp [g.radices_eq]

/-- The grid with one more dimension if its policy takes the dimension, and as it was otherwise. -/
def offer (g : Grid α) (d : Dimension α) : Attempt (Grid α) :=
  if g.policy.accepts d.length then (.ok (), g.register d) else (.error (.emptyDimension g.size), g)

/-- The grid behind an offer that is not refused. -/
def tryRegister (g : Grid α) (d : Dimension α) : Except ProductError (Grid α) := (g.offer d).toExcept

/-- The grid with more dimensions, after the others and in their order. -/
def extend (g : Grid α) (ds : List (Dimension α)) : Grid α := ds.foldl register g

/-- The lenient grid of these dimensions. -/
def ofList (ds : List (Dimension α)) : Grid α := (empty .lenient).extend ds

/-! ### Counting -/

def isVoid (g : Grid α) : Bool := MixedRadix.isVoid g.radices

def tuples (g : Grid α) : List (List α) := lexProduct (g.dimensions.map Dimension.toList)

/-- The number of tuples, exactly. -/
def count (g : Grid α) : Nat := if g.isVoid then 0 else MixedRadix.volume g.radices

/-- The number of tuples, if it is a word. -/
def cardinality (g : Grid α) : Except ProductError Word :=
  match MixedRadix.cardinality? g.radices with
  | some n => .ok n
  | none => .error .cardinalityOverflow

/-! ### Access by position and by rank -/

/-- One element of each dimension, at the positions that the digits give. -/
def readTuple : List (Dimension α) → List Word → Checked (List α)
  | d :: ds, i :: is => do
    let x ← d.read i
    return x :: (← readTuple ds is)
  | _, _ => .ok []

/-- The tuple at these digits, which must lie inside the dimensions. -/
def tupleAt (g : Grid α) (digits : List Word) : Checked (List α) := readTuple g.dimensions digits

/-- The tuple of a rank, if the rank is not past the last tuple. -/
def get? (g : Grid α) (rank : Word) : Checked (Option (List α)) := do
  match ← MixedRadix.unrank? rank g.radices with
  | none => return none
  | some digits => return some (← g.tupleAt digits)

/-- The first place whose index is at or past the end of its dimension. -/
def firstOutOfRange? (g : Grid α) (indices : List Word) : Option ProductError :=
  ((MixedRadix.wheels indices g.radices).zipIdx.find? fun (w, _) => w.radix ≤ w.digit).map
    fun (w, i) => .indexOutOfRange i w.digit w.radix

/-- The rank of the tuple that takes `indices[i]` from dimension `i`. -/
def rankOf (g : Grid α) (indices : List Word) : Except ProductError Word :=
  if indices.length ≠ g.size then
    .error (.arityMismatch g.size indices.length)
  else
    match g.firstOutOfRange? indices with
    | some e => .error e
    | none =>
      if indices.isEmpty then
        .error (.rankOutOfRange 0 0)
      else
        match MixedRadix.rank? indices g.radices with
        | some rank => .ok rank
        | none => .error .cardinalityOverflow

/-! ### Equations of registration -/

@[simp] theorem dimensions_register (g : Grid α) (d : Dimension α) :
    (g.register d).dimensions = g.dimensions ++ [d] := rfl

@[simp] theorem policy_register (g : Grid α) (d : Dimension α) :
    (g.register d).policy = g.policy := rfl

theorem tryRegister_eq (g : Grid α) (d : Dimension α) :
    g.tryRegister d =
      if g.policy.accepts d.length then .ok (g.register d) else .error (.emptyDimension g.size) := by
  rw [tryRegister, offer]
  split <;> rfl

theorem eq_of_offer_error {g g' : Grid α} {d : Dimension α} {e : ProductError}
    (h : g.offer d = (.error e, g')) : g' = g := by
  unfold offer at h
  split at h
  · cases h
  · exact (Prod.mk.inj h).2.symm

@[simp] theorem dimensions_extend (g : Grid α) (ds : List (Dimension α)) :
    (g.extend ds).dimensions = g.dimensions ++ ds := by
  induction ds generalizing g with
  | nil => simp [extend]
  | cons d ds ih => exact (ih (g.register d)).trans (by simp)

@[simp] theorem dimensions_ofList (ds : List (Dimension α)) : (ofList ds).dimensions = ds := by
  simp [ofList, empty]

@[simp] theorem radices_register (g : Grid α) (d : Dimension α) :
    (g.register d).radices = g.radices ++ [d.length] := rfl

@[simp] theorem length_radices (g : Grid α) : g.radices.length = g.size := by
  simp [g.radices_eq, size]

end Grid

end LexProduct
