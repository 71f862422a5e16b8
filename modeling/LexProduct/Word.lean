import LexProduct.Fault

/-!
# Words

Unsigned 64-bit numbers with arithmetic that never wraps. An operation whose exact result is no word
answers `none` where the caller expects that (`add?`, `mul?`), and stops with a fault where the caller
must rule it out (`checkedAdd`, `checkedSub`, `divMod`), as it does in a build with overflow checks.
-/

namespace LexProduct

/-- An unsigned 64-bit number. -/
abbrev Word := UInt64

namespace Word

/-- The number `n` as a word, if it fits. -/
def ofNat? (n : Nat) : Option Word :=
  if h : n < UInt64.size then some (UInt64.ofNatLT n h) else none

/-- The word nearest to `n`. -/
def clamp (n : Nat) : Word :=
  UInt64.ofNatLT (min n (UInt64.size - 1)) (Nat.lt_of_le_of_lt (Nat.min_le_right ..) (by decide))

def maxValue : Word := 0xFFFFFFFFFFFFFFFF

def add? (a b : Word) : Option Word := ofNat? (a.toNat + b.toNat)

def mul? (a b : Word) : Option Word := ofNat? (a.toNat * b.toNat)

/-- The sum, which must fit. -/
def checkedAdd (a b : Word) : Checked Word :=
  match add? a b with
  | some c => .ok c
  | none => .error .addOverflow

/-- The difference, which must not be negative. -/
def checkedSub (a b : Word) : Checked Word :=
  if b ≤ a then .ok (a - b) else .error .subOverflow

/-- Quotient and remainder by a divisor that must not be zero. -/
def divMod (a b : Word) : Checked (Word × Word) :=
  if b = 0 then .error .remainderByZero else .ok (a / b, a % b)

/-! ### What the operations compute -/

theorem ofNat?_eq_some_iff {n : Nat} {w : Word} : ofNat? n = some w ↔ w.toNat = n := by
  unfold ofNat?
  split
  · rename_i h
    rw [Option.some.injEq, ← UInt64.toNat_inj, UInt64.toNat_ofNatLT]
    exact eq_comm
  · rename_i h
    simp only [reduceCtorEq, false_iff]
    exact fun hw => h (hw ▸ w.toNat_lt)

theorem ofNat?_eq_none_iff {n : Nat} : ofNat? n = none ↔ UInt64.size ≤ n := by
  rw [← Nat.not_lt, ofNat?, dite_eq_right_iff]
  exact ⟨fun h hn => (nomatch h hn), fun h hn => absurd hn h⟩

/-- A number from which no word can be made stays so as it grows. -/
theorem ofNat?_eq_none_of_le {m n : Nat} (h : ofNat? m = none) (hle : m ≤ n) : ofNat? n = none :=
  ofNat?_eq_none_iff.2 (Nat.le_trans (ofNat?_eq_none_iff.1 h) hle)

theorem ofNat?_isSome_iff {n : Nat} : (ofNat? n).isSome = true ↔ n < UInt64.size := by
  unfold ofNat?
  split <;> simp_all

theorem exists_ofNat?_of_le {n : Nat} {w : Word} (h : n ≤ w.toNat) :
    ∃ v, ofNat? n = some v ∧ v.toNat = n := by
  have hv : (UInt64.ofNat n).toNat = n := UInt64.toNat_ofNat_of_lt' (Nat.lt_of_le_of_lt h w.toNat_lt)
  exact ⟨UInt64.ofNat n, ofNat?_eq_some_iff.2 hv, hv⟩

@[simp] theorem ofNat?_toNat (w : Word) : ofNat? w.toNat = some w := ofNat?_eq_some_iff.2 rfl

@[simp] theorem toNat_clamp (n : Nat) : (clamp n).toNat = min n (UInt64.size - 1) := UInt64.toNat_ofNatLT ..

theorem toNat_clamp_le (n : Nat) : (clamp n).toNat ≤ n := (toNat_clamp n) ▸ Nat.min_le_left ..

@[simp] theorem toNat_maxValue : maxValue.toNat = UInt64.size - 1 := rfl

theorem toNat_add_of_lt {a b : Word} (h : a.toNat + b.toNat < UInt64.size) :
    (a + b).toNat = a.toNat + b.toNat := (UInt64.toNat_add a b).trans (Nat.mod_eq_of_lt h)

theorem add?_of_lt {a b : Word} (h : a.toNat + b.toNat < UInt64.size) : add? a b = some (a + b) :=
  ofNat?_eq_some_iff.2 (toNat_add_of_lt h)

theorem checkedAdd_of_lt {a b : Word} (h : a.toNat + b.toNat < UInt64.size) :
    checkedAdd a b = .ok (a + b) := by rw [checkedAdd, add?_of_lt h]

theorem checkedSub_of_le {a b : Word} (h : b ≤ a) : checkedSub a b = .ok (a - b) := if_pos h

theorem checkedSub_of_lt {a b : Word} (h : a < b) : checkedSub a b = .error .subOverflow :=
  if_neg (UInt64.not_le.2 h)

theorem toNat_pos {a : Word} (h : a ≠ 0) : 0 < a.toNat :=
  UInt64.lt_iff_toNat_lt.1 (UInt64.pos_iff_ne_zero.2 h)

theorem one_le_and_toNat_sub_one {a : Word} (h : 0 < a) : 1 ≤ a ∧ (a - 1).toNat + 1 = a.toNat := by
  have hpos : 0 < a.toNat := UInt64.lt_iff_toNat_lt.1 h
  have hone : (1 : Word) ≤ a := UInt64.le_iff_toNat_le.2 hpos
  have hsub := UInt64.toNat_sub_of_le _ _ hone
  rw [UInt64.toNat_one] at hsub
  exact ⟨hone, by omega⟩

theorem divMod_of_ne_zero {a b : Word} (h : b ≠ 0) : divMod a b = .ok (a / b, a % b) := if_neg h

@[simp] theorem divMod_zero (a : Word) : divMod a 0 = .error .remainderByZero := if_pos rfl

end Word

end LexProduct
