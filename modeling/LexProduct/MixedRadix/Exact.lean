import LexProduct.Word

/-!
# Mixed-radix numerals, exactly

A numeral is a list of wheels, most significant first: the last wheel counts units, and each other
wheel counts in steps of the product of the radices after it. `volume` and `value` are unbounded
naturals; the operations on words are measured against them.
-/

namespace LexProduct

/-- One place of a numeral: a digit and the number of digits that place has. -/
structure Wheel where
  digit : Word
  radix : Word
  deriving DecidableEq

namespace MixedRadix

/-- The wheels of the digits and radices that stand at the same place, counted from the front. -/
def wheels (digits radices : List Word) : List Wheel := List.zipWith Wheel.mk digits radices

/-- The product of the radices. -/
def volume : List Word → Nat
  | [] => 1
  | r :: rs => r.toNat * volume rs

/-- The number that the wheels show. -/
def value : List Wheel → Nat
  | [] => 0
  | w :: ws => w.digit.toNat * volume (ws.map Wheel.radix) + value ws

/-- Every digit is one that its place has. -/
def InRange (ws : List Wheel) : Prop := ∀ w ∈ ws, w.digit < w.radix

instance (ws : List Wheel) : Decidable (InRange ws) := by unfold InRange; infer_instance

/-! ### Equations of the views -/

@[simp] theorem wheels_nil_left (radices : List Word) : wheels [] radices = [] := rfl

@[simp] theorem wheels_nil_right (digits : List Word) : wheels digits [] = [] := by
  cases digits <;> rfl

@[simp] theorem wheels_cons_cons (d r : Word) (ds rs : List Word) :
    wheels (d :: ds) (r :: rs) = ⟨d, r⟩ :: wheels ds rs := rfl

@[simp] theorem volume_nil : volume [] = 1 := rfl

@[simp] theorem volume_cons (r : Word) (rs : List Word) :
    volume (r :: rs) = r.toNat * volume rs := rfl

@[simp] theorem value_nil : value [] = 0 := rfl

@[simp] theorem value_cons (w : Wheel) (ws : List Wheel) :
    value (w :: ws) = w.digit.toNat * volume (ws.map Wheel.radix) + value ws := rfl

@[simp] theorem inRange_nil : InRange [] := by simp [InRange]

@[simp] theorem inRange_cons (w : Wheel) (ws : List Wheel) :
    InRange (w :: ws) ↔ w.digit < w.radix ∧ InRange ws := by simp [InRange]

theorem inRange_append {us ws : List Wheel} : InRange (us ++ ws) ↔ InRange us ∧ InRange ws := by
  simp only [InRange, List.mem_append, or_imp, forall_and]

theorem value_lt_volume {ws : List Wheel} (h : InRange ws) :
    value ws < volume (ws.map Wheel.radix) := by
  induction ws with
  | nil => simp
  | cons w ws ih =>
    have hw := UInt64.lt_iff_toNat_lt.1 ((inRange_cons w ws).1 h).1
    have hv := ih ((inRange_cons w ws).1 h).2
    rw [value_cons, List.map_cons, volume_cons]
    calc w.digit.toNat * volume (ws.map Wheel.radix) + value ws
        < w.digit.toNat * volume (ws.map Wheel.radix) + volume (ws.map Wheel.radix) := by omega
      _ = (w.digit.toNat + 1) * volume (ws.map Wheel.radix) := (Nat.succ_mul ..).symm
      _ ≤ w.radix.toNat * volume (ws.map Wheel.radix) := Nat.mul_le_mul_right _ hw

end MixedRadix

end LexProduct
