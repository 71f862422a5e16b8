import LexProduct.Word

/-!
# Empty dimensions

An empty dimension makes a whole product empty. The policy says whether a guarded registration takes
one.
-/

namespace LexProduct

/-- What a guarded registration does with an empty dimension. -/
inductive EmptyPolicy where
  /-- Takes it, and the product is empty. -/
  | allow
  /-- Refuses it. -/
  | refuse
  deriving DecidableEq

namespace EmptyPolicy

def lenient : EmptyPolicy := allow

def strict : EmptyPolicy := refuse

/-- Where no policy is chosen, every dimension is taken. -/
instance : Inhabited EmptyPolicy := ⟨lenient⟩

/-- A dimension of this length may be registered. -/
def accepts (policy : EmptyPolicy) (length : Word) : Bool := 0 < length || policy == allow

theorem accepts_eq_false_iff {policy : EmptyPolicy} {length : Word} :
    policy.accepts length = false ↔ policy = refuse ∧ length = 0 := by
  cases policy <;> simp [accepts, UInt64.pos_iff_ne_zero]

end EmptyPolicy

end LexProduct
