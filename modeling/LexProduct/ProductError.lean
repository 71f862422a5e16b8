import LexProduct.Word

/-!
# Errors of a product

The refusals of the operations on a product that check their arguments. To run out of tuples is none of
them. An operation that may be refused leaves a state on either outcome, and answers with both.
-/

namespace LexProduct

/-- The causes for which an operation on a product refuses. -/
inductive ProductError where
  /-- An empty dimension was offered where none is taken; `index` is the place it would have had. -/
  | emptyDimension (index : Nat)
  /-- The number of tuples is no word. -/
  | cardinalityOverflow
  /-- The number of indices is not the number of dimensions. -/
  | arityMismatch (expected actual : Nat)
  /-- An index lies past the end of its dimension. -/
  | indexOutOfRange (dimension : Nat) (index length : Word)
  /-- A rank lies past the last tuple. -/
  | rankOutOfRange (rank cardinality : Word)
  deriving DecidableEq

def ProductError.message : ProductError → String
  | emptyDimension index => s!"dimension {index} is empty"
  | cardinalityOverflow => "cartesian product cardinality overflows usize"
  | arityMismatch expected actual => s!"expected {expected} indices, got {actual}"
  | indexOutOfRange dimension index length =>
    s!"index {index} out of range for dimension {dimension} of length {length}"
  | rankOutOfRange rank cardinality =>
    s!"rank {rank} out of range for product of {cardinality} tuples"

/-! ### Attempts -/

/-- What an operation that may be refused answers, and the state behind it. -/
abbrev Attempt (σ : Type) := Except ProductError Unit × σ

/-- The state behind an attempt, for a caller that has no use for it after a refusal. -/
def Attempt.toExcept {σ : Type} (attempt : Attempt σ) : Except ProductError σ :=
  attempt.1.map fun _ => attempt.2

end LexProduct
