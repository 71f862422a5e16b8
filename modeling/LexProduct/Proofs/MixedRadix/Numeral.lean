import LexProduct.MixedRadix.Exact

/-!
# The numeral of a number

`numeral rs n` writes `n` in the radices `rs`. Digits in range are the numeral of their value
(`numeral_value`), so an operation on digits is known once the value of its result is:

* `value_numeral`, `inRange_numeral`: without a zero radix the numeral of `n` is in range and has the
  value `n % volume rs`;
* `numeral_value`: the only digits in range with a given value are its numeral.
-/

namespace LexProduct.MixedRadix

/-- The digits of `n`, one for each radix. What `n` has above the first place is dropped. -/
def numeral : List Word → Nat → List Word
  | [], _ => []
  | r :: rs, n => UInt64.ofNat (n / volume rs % r.toNat) :: numeral rs n

@[simp] theorem numeral_nil (n : Nat) : numeral [] n = [] := rfl

theorem numeral_cons (r : Word) (rs : List Word) (n : Nat) :
    numeral (r :: rs) n = UInt64.ofNat (n / volume rs % r.toNat) :: numeral rs n := rfl

@[simp] theorem length_numeral (rs : List Word) (n : Nat) : (numeral rs n).length = rs.length := by
  induction rs with
  | nil => rfl
  | cons r rs ih => simp [numeral_cons, ih]

/-! ### Wheels -/

theorem radices_wheels_eq_take (ds rs : List Word) :
    (wheels ds rs).map Wheel.radix = rs.take ds.length := by
  induction ds generalizing rs with
  | nil => simp
  | cons d ds ih =>
    cases rs with
    | nil => simp
    | cons r rs => simp [ih]

theorem radices_wheels {ds rs : List Word} (h : ds.length = rs.length) :
    (wheels ds rs).map Wheel.radix = rs := by
  rw [radices_wheels_eq_take, h, List.take_length]

theorem value_wheels_lt {ds rs : List Word} (hlen : ds.length = rs.length)
    (h : InRange (wheels ds rs)) : value (wheels ds rs) < volume rs := by
  have hlt := value_lt_volume h
  rwa [radices_wheels hlen] at hlt

theorem digits_wheels_eq_take (ds rs : List Word) :
    (wheels ds rs).map Wheel.digit = ds.take rs.length := by
  induction ds generalizing rs with
  | nil => simp
  | cons d ds ih =>
    cases rs with
    | nil => simp
    | cons r rs => simp [ih]

theorem digits_wheels {ds rs : List Word} (h : ds.length = rs.length) :
    (wheels ds rs).map Wheel.digit = ds := by
  rw [digits_wheels_eq_take, ← h, List.take_length]

@[simp] theorem radices_wheels_numeral (rs : List Word) (n : Nat) :
    (wheels (numeral rs n) rs).map Wheel.radix = rs := radices_wheels (length_numeral rs n)

/-! ### The volume -/

theorem volume_eq_zero_iff {rs : List Word} : volume rs = 0 ↔ 0 ∈ rs := by
  induction rs with
  | nil => simp
  | cons r rs ih =>
    rw [volume_cons, Nat.mul_eq_zero, ih, List.mem_cons, ← UInt64.toNat_inj, eq_comm]
    rfl

theorem volume_pos {rs : List Word} (h : 0 ∉ rs) : 0 < volume rs :=
  Nat.pos_of_ne_zero fun hv => h (volume_eq_zero_iff.1 hv)

theorem zero_notMem_of_lt_volume {rs : List Word} {n : Nat} (h : n < volume rs) : 0 ∉ rs := by
  intro h0
  rw [volume_eq_zero_iff.2 h0] at h
  exact Nat.not_lt_zero n h

/-! ### Digits of a numeral -/

theorem toNat_ofNat_mod {r : Word} (hr : r ≠ 0) (n : Nat) :
    (UInt64.ofNat (n % r.toNat)).toNat = n % r.toNat := by
  have hlt : n % r.toNat < r.toNat := Nat.mod_lt n (Word.toNat_pos hr)
  exact UInt64.toNat_ofNat_of_lt' (Nat.lt_trans hlt r.toNat_lt)

/-- Whole turns of the first place do not show. -/
theorem numeral_add_mul (rs : List Word) (n k : Nat) :
    numeral rs (n + k * volume rs) = numeral rs n := by
  induction rs generalizing k with
  | nil => rfl
  | cons r rs ih =>
    have hv : k * volume (r :: rs) = k * r.toNat * volume rs := by rw [volume_cons, Nat.mul_assoc]
    rw [numeral_cons, numeral_cons, hv, ih]
    congr 2
    rcases Nat.eq_zero_or_pos (volume rs) with h0 | h0
    · simp [h0]
    · rw [Nat.add_mul_div_right _ _ h0, Nat.add_mul_mod_self_right]

theorem numeral_zero (rs : List Word) : numeral rs 0 = List.replicate rs.length 0 := by
  induction rs with
  | nil => rfl
  | cons r rs ih => simp [numeral_cons, ih, List.replicate_succ]

theorem inRange_numeral {rs : List Word} (h : 0 ∉ rs) (n : Nat) :
    InRange (wheels (numeral rs n) rs) := by
  induction rs with
  | nil => simp
  | cons r rs ih =>
    obtain ⟨hr, hrs⟩ := List.ne_and_not_mem_of_not_mem_cons h
    rw [numeral_cons, wheels_cons_cons, inRange_cons]
    refine ⟨?_, ih hrs⟩
    rw [UInt64.lt_iff_toNat_lt, toNat_ofNat_mod hr.symm]
    exact Nat.mod_lt _ (Word.toNat_pos hr.symm)

theorem value_numeral {rs : List Word} (h : 0 ∉ rs) (n : Nat) :
    value (wheels (numeral rs n) rs) = n % volume rs := by
  induction rs with
  | nil => simp [Nat.mod_one]
  | cons r rs ih =>
    obtain ⟨hr, hrs⟩ := List.ne_and_not_mem_of_not_mem_cons h
    rw [numeral_cons, wheels_cons_cons, value_cons, radices_wheels_numeral, ih hrs,
      toNat_ofNat_mod hr.symm, volume_cons, Nat.mul_comm r.toNat, Nat.mod_mul, Nat.mul_comm]
    omega

theorem value_numeral_of_lt {rs : List Word} {n : Nat} (h : n < volume rs) :
    value (wheels (numeral rs n) rs) = n := by
  rw [value_numeral (zero_notMem_of_lt_volume h), Nat.mod_eq_of_lt h]

/-! ### One more place in front -/

theorem add_lt_volume {r d : Word} {rs : List Word} {m : Nat} (hd : d < r) (hm : m < volume rs) :
    d.toNat * volume rs + m < volume (r :: rs) := by
  have hmul := Nat.mul_le_mul_right (volume rs) (Nat.succ_le_of_lt (UInt64.lt_iff_toNat_lt.1 hd))
  rw [Nat.succ_mul] at hmul
  rw [volume_cons]
  omega

theorem numeral_cons_add {r d : Word} {rs : List Word} {m : Nat} (hd : d < r) (hm : m < volume rs) :
    numeral (r :: rs) (d.toNat * volume rs + m) = d :: numeral rs m := by
  have hpos : 0 < volume rs := Nat.zero_lt_of_lt hm
  have hdigit : (d.toNat * volume rs + m) / volume rs = d.toNat := by
    rw [Nat.add_comm, Nat.add_mul_div_right _ _ hpos, Nat.div_eq_of_lt hm, Nat.zero_add]
  have hrest : numeral rs (d.toNat * volume rs + m) = numeral rs m := by
    rw [Nat.add_comm, numeral_add_mul]
  rw [numeral_cons, hdigit, hrest, Nat.mod_eq_of_lt (UInt64.lt_iff_toNat_lt.1 hd),
    UInt64.ofNat_toNat]

/-- **Digits in range are the numeral of their value.** -/
theorem numeral_value {ws : List Wheel} (h : InRange ws) :
    numeral (ws.map Wheel.radix) (value ws) = ws.map Wheel.digit := by
  induction ws with
  | nil => rfl
  | cons w ws ih =>
    obtain ⟨hw, hws⟩ := (inRange_cons w ws).1 h
    rw [List.map_cons, List.map_cons, value_cons, numeral_cons_add hw (value_lt_volume hws), ih hws]

theorem numeral_value_wheels {ds rs : List Word} (hlen : ds.length = rs.length)
    (h : InRange (wheels ds rs)) : numeral rs (value (wheels ds rs)) = ds := by
  have := numeral_value h
  rwa [radices_wheels hlen, digits_wheels hlen] at this

/-! ### One more place at the end -/

theorem wheels_concat {ds rs : List Word} (h : ds.length = rs.length) (d r : Word) :
    wheels (ds ++ [d]) (rs ++ [r]) = wheels ds rs ++ [⟨d, r⟩] := List.zipWith_append h

theorem volume_concat (rs : List Word) (r : Word) : volume (rs ++ [r]) = volume rs * r.toNat := by
  induction rs with
  | nil => simp
  | cons s rs ih => rw [List.cons_append, volume_cons, volume_cons, ih, Nat.mul_assoc]

/-- A place behind the last one counts the units, and all others count in steps of its radix. -/
theorem value_concat (ws : List Wheel) (w : Wheel) :
    value (ws ++ [w]) = value ws * w.radix.toNat + w.digit.toNat := by
  induction ws with
  | nil => simp
  | cons v ws ih =>
    rw [List.cons_append, value_cons, value_cons, ih, List.map_append, List.map_singleton,
      volume_concat, Nat.add_mul, Nat.mul_assoc, Nat.add_assoc]

/-! ### The digits of a number -/

/-- These digits write `n`: there is one for each radix, each is below its radix, and together they
have the value `n`. -/
structure Writes (ds rs : List Word) (n : Nat) : Prop where
  length_eq : ds.length = rs.length
  inRange : InRange (wheels ds rs)
  value_eq : value (wheels ds rs) = n

theorem writes_numeral {rs : List Word} {n : Nat} (h : n < volume rs) :
    Writes (numeral rs n) rs n where
  length_eq := length_numeral rs n
  inRange := inRange_numeral (zero_notMem_of_lt_volume h) n
  value_eq := value_numeral_of_lt h

theorem Writes.lt_volume {ds rs : List Word} {n : Nat} (h : Writes ds rs n) : n < volume rs := by
  rw [← h.value_eq]
  exact value_wheels_lt h.length_eq h.inRange

theorem writes_iff {ds rs : List Word} {n : Nat} (h : n < volume rs) :
    Writes ds rs n ↔ ds = numeral rs n := by
  constructor
  · intro hw
    rw [← hw.value_eq, numeral_value_wheels hw.length_eq hw.inRange]
  · rintro rfl
    exact writes_numeral h

/-- The first digit counts whole volumes of the places behind it, and those write what is left. -/
theorem writes_cons_iff {d r : Word} {ds rs : List Word} {n : Nat} :
    Writes (d :: ds) (r :: rs) n ↔
      d < r ∧ ∃ m, Writes ds rs m ∧ n = d.toNat * volume rs + m := by
  constructor
  · rintro ⟨hlen, hrange, hvalue⟩
    have hlen' : ds.length = rs.length := Nat.succ.inj hlen
    rw [wheels_cons_cons, inRange_cons] at hrange
    rw [wheels_cons_cons, value_cons, radices_wheels hlen'] at hvalue
    exact ⟨hrange.1, _, ⟨hlen', hrange.2, rfl⟩, hvalue.symm⟩
  · rintro ⟨hd, m, ⟨hlen, hrange, rfl⟩, rfl⟩
    refine ⟨congrArg Nat.succ hlen, ?_, ?_⟩
    · rw [wheels_cons_cons, inRange_cons]
      exact ⟨hd, hrange⟩
    · rw [wheels_cons_cons, value_cons, radices_wheels hlen]

/-! ### Numerals that need not exist -/

/-- The numeral of `n`, unless `n` is past the last one that these radices have. -/
def numeral? (rs : List Word) (n : Nat) : Option (List Word) :=
  if n < volume rs then some (numeral rs n) else none

theorem numeral?_of_lt {rs : List Word} {n : Nat} (h : n < volume rs) :
    numeral? rs n = some (numeral rs n) := if_pos h

theorem numeral?_of_le {rs : List Word} {n : Nat} (h : volume rs ≤ n) : numeral? rs n = none :=
  if_neg (Nat.not_lt.2 h)

end LexProduct.MixedRadix
