/-!
# Faults

What stops a computation on words that leaves its domain. A fault is no answer of the library: it says
that a caller broke a precondition (a digit at or past its radix, lists of different lengths).

These are the faults of a build that checks sums and differences for overflow and evaluates its debug
assertions. A release build does neither: there a sum or a difference wraps, the lengths of two lists are
not compared, and the computation goes on with what it has. A remainder by zero and an element past the
end stop both builds. Where no fault arises the two builds agree.
-/

namespace LexProduct

/-- The causes for which a checked operation stops. -/
inductive Fault where
  /-- A sum does not fit a word. -/
  | addOverflow
  /-- A difference would be negative. -/
  | subOverflow
  /-- A remainder by zero was asked for. -/
  | remainderByZero
  /-- Two lists that go together have different lengths. -/
  | lengthMismatch (left right : Nat)
  /-- An element past the end of a sequence was asked for. -/
  | indexOutOfBounds (length index : Nat)
  deriving DecidableEq

/-- A computation that may stop with a fault. -/
abbrev Checked (α : Type) := Except Fault α

namespace Checked

variable {α β : Type}

@[simp] theorem pure_eq_ok (a : α) : (pure a : Checked α) = .ok a := rfl

@[simp] theorem ok_bind (a : α) (f : α → Checked β) : ((.ok a : Checked α) >>= f) = f a := rfl

theorem bind_eq_ok_iff {x : Checked α} {f : α → Checked β} {b : β} :
    (x >>= f) = .ok b ↔ ∃ a, x = .ok a ∧ f a = .ok b := by
  cases x with
  | error e => exact ⟨fun h => (nomatch h), fun ⟨_, h, _⟩ => (nomatch h)⟩
  | ok a => simp

end Checked

def Fault.message : Fault → String
  | addOverflow => "attempt to add with overflow"
  | subOverflow => "attempt to subtract with overflow"
  | remainderByZero => "attempt to calculate the remainder with a divisor of zero"
  | lengthMismatch left right =>
    s!"assertion `left == right` failed\n  left: {left}\n right: {right}"
  | indexOutOfBounds length index =>
    s!"index out of bounds: the len is {length} but the index is {index}"

end LexProduct
