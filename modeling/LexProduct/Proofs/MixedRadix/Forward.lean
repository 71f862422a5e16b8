import LexProduct.MixedRadix.Bounded
import LexProduct.Proofs.MixedRadix.Numeral

/-!
# Moving forward

What the two ways to move forward reach from digits in range. A step by one (`next?`) turns the last
wheel that still can and resets those after it; a move by `amount` (`add?`) carries quotients from the
last wheel to the first. Both arrive at the numeral of the sum, and at nothing when the sum is past
the last numeral:

* `next?_eq`: `next?` reaches the numeral of `value ws + 1`;
* `turnAll_eq`: the turned wheels show `value ws + amount`, and the carry is what does not fit;
* `add?_eq`: `add?` reaches the numeral of `value + amount`;
* `add?_reaches_sum`: the same for digits and radices of any two lengths, with no carry ever lost.
-/

namespace LexProduct.MixedRadix

/-! ### One step -/

theorem toNat_add_one_lt {d r : Word} (h : d < r) : d.toNat + (1 : Word).toNat < UInt64.size := by
  have hd := UInt64.lt_iff_toNat_lt.1 h
  have hr := r.toNat_lt
  rw [UInt64.toNat_one, UInt64.size]
  omega

/-- **One step reaches the numeral of the next number.** -/
theorem next?_eq {ws : List Wheel} (h : InRange ws) :
    next? ws = .ok (numeral? (ws.map Wheel.radix) (value ws + 1)) := by
  induction ws with
  | nil => rfl
  | cons w ws ih =>
    obtain ⟨hw, hws⟩ := (inRange_cons w ws).1 h
    have hlt := value_lt_volume hws
    rw [next?, ih hws, List.map_cons, value_cons]
    rcases Nat.lt_or_ge (value ws + 1) (volume (ws.map Wheel.radix)) with hin | hout
    · -- a wheel further back turns
      rw [numeral?_of_lt hin, Nat.add_assoc, numeral?_of_lt (add_lt_volume hw hin),
        numeral_cons_add hw hin]
      rfl
    · -- all wheels further back are reset and this one turns
      have hsum : w.digit.toNat * volume (ws.map Wheel.radix) + value ws + 1 =
          (w.digit + 1).toNat * volume (ws.map Wheel.radix) + 0 := by
        rw [Word.toNat_add_of_lt (toNat_add_one_lt hw), UInt64.toNat_one, Nat.succ_mul]
        omega
      have hzero : ws.map (fun _ => (0 : Word)) = numeral (ws.map Wheel.radix) 0 := by
        rw [numeral_zero, List.length_map, List.map_const']
      rw [numeral?_of_le hout, hsum, Checked.ok_bind]
      dsimp only
      rw [Word.checkedAdd_of_lt (toNat_add_one_lt hw), Checked.ok_bind, Checked.pure_eq_ok, hzero]
      by_cases hd : w.digit + 1 < w.radix
      · rw [if_pos hd, numeral?_of_lt (add_lt_volume hd (by omega)),
          numeral_cons_add hd (by omega)]
      · rw [if_neg hd, numeral?_of_le]
        rw [volume_cons, Nat.add_zero]
        exact Nat.mul_le_mul_right _ (UInt64.le_iff_toNat_le.1 (UInt64.not_lt.1 hd))

/-! ### One wheel turned -/

section Sum

variable {d k r : Nat}

theorem add_div_mod_of_lt (h : d + k % r < r) :
    (d + k) / r = k / r ∧ (d + k) % r = d + k % r := by
  rw [Nat.div_mod_unique (Nat.zero_lt_of_lt h)]
  have := Nat.div_add_mod k r
  exact ⟨by omega, h⟩

theorem add_div_mod_of_le (hd : d < r) (h : r ≤ d + k % r) :
    (d + k) / r = k / r + 1 ∧ (d + k) % r = k % r - (r - d) := by
  have hpos : 0 < r := Nat.zero_lt_of_lt hd
  have hmod := Nat.mod_lt k hpos
  have := Nat.div_add_mod k r
  rw [Nat.div_mod_unique hpos]
  refine ⟨?_, by omega⟩
  rw [Nat.mul_succ]
  omega

/-- A quotient with a remainder above zero is not the greatest word. -/
theorem div_succ_le (hr : 0 < r) (h : 0 < k % r) : k / r + 1 ≤ k := by
  have := Nat.div_add_mod k r
  have := Nat.le_mul_of_pos_left (k / r) hr
  omega

end Sum

variable {w : Wheel} {k : Word}

theorem turn_of_le (h : w.digit < w.radix) (hk : k ≠ 0)
    (hstep : w.radix - w.digit ≤ k % w.radix) :
    turn w k = .ok (some (k / w.radix + 1, k % w.radix - (w.radix - w.digit))) := by
  have hr0 : w.radix ≠ 0 := UInt64.pos_iff_ne_zero.1 (UInt64.lt_of_le_of_lt UInt64.zero_le h)
  have hle : w.digit ≤ w.radix := UInt64.le_of_lt h
  have hlt := UInt64.lt_iff_toNat_lt.1 h
  have hcarry : (k / w.radix).toNat + (1 : Word).toNat < UInt64.size := by
    have hstep' := UInt64.le_iff_toNat_le.1 hstep
    rw [UInt64.toNat_sub_of_le _ _ hle, UInt64.toNat_mod] at hstep'
    have := div_succ_le (k := k.toNat) (Nat.zero_lt_of_lt hlt) (by omega)
    have := k.toNat_lt
    rw [UInt64.toNat_div, UInt64.toNat_one, UInt64.size]
    omega
  rw [turn, if_neg hk, Word.divMod_of_ne_zero hr0, Checked.ok_bind]
  dsimp only
  rw [Word.checkedSub_of_le hle, Checked.ok_bind, if_pos hstep, Word.add?_of_lt hcarry]
  rfl

theorem turn_of_lt (h : w.digit < w.radix) (hk : k ≠ 0)
    (hstep : k % w.radix < w.radix - w.digit) :
    turn w k = .ok (some (k / w.radix, w.digit + k % w.radix)) := by
  have hr0 : w.radix ≠ 0 := UInt64.pos_iff_ne_zero.1 (UInt64.lt_of_le_of_lt UInt64.zero_le h)
  have hle : w.digit ≤ w.radix := UInt64.le_of_lt h
  have hsum : w.digit.toNat + (k % w.radix).toNat < UInt64.size := by
    have hstep' := UInt64.lt_iff_toNat_lt.1 hstep
    rw [UInt64.toNat_sub_of_le _ _ hle] at hstep'
    have := w.radix.toNat_lt
    rw [UInt64.size]
    omega
  rw [turn, if_neg hk, Word.divMod_of_ne_zero hr0, Checked.ok_bind]
  dsimp only
  rw [Word.checkedSub_of_le hle, Checked.ok_bind, if_neg (UInt64.not_le.2 hstep),
    Word.checkedAdd_of_lt hsum]
  rfl

/-- **A turned wheel shows the remainder of the sum and carries its quotient.** -/
theorem turn_eq (h : w.digit < w.radix) (k : Word) :
    turn w k = .ok (some (UInt64.ofNat ((w.digit.toNat + k.toNat) / w.radix.toNat),
      UInt64.ofNat ((w.digit.toNat + k.toNat) % w.radix.toNat))) := by
  have hlt := UInt64.lt_iff_toNat_lt.1 h
  have hle : w.digit ≤ w.radix := UInt64.le_of_lt h
  have hroom := UInt64.toNat_sub_of_le _ _ hle
  have hmod := UInt64.toNat_mod k w.radix
  by_cases hk : k = 0
  · subst hk
    rw [turn, if_pos rfl, UInt64.toNat_zero, Nat.add_zero, Nat.div_eq_of_lt hlt,
      Nat.mod_eq_of_lt hlt, UInt64.ofNat_toNat]
    rfl
  by_cases hstep : w.radix - w.digit ≤ k % w.radix
  · -- the remainder takes the digit past the radix, into one more turn
    have hsub := UInt64.toNat_sub_of_le _ _ hstep
    have hstep' := UInt64.le_iff_toNat_le.1 hstep
    rw [hroom, hmod] at hstep' hsub
    obtain ⟨hq, hs⟩ := add_div_mod_of_le (k := k.toNat) hlt (by omega)
    rw [turn_of_le h hk hstep, hq, hs, ← hsub, UInt64.ofNat_toNat, UInt64.ofNat_add,
      ← UInt64.toNat_div, UInt64.ofNat_toNat]
    rfl
  · rw [UInt64.not_le] at hstep
    have hstep' := UInt64.lt_iff_toNat_lt.1 hstep
    rw [hroom, hmod] at hstep'
    obtain ⟨hq, hs⟩ := add_div_mod_of_lt (d := w.digit.toNat) (k := k.toNat) (r := w.radix.toNat)
      (by omega)
    rw [turn_of_lt h hk hstep, hq, hs, ← hmod, UInt64.ofNat_add, ← UInt64.toNat_div,
      UInt64.ofNat_toNat, UInt64.ofNat_toNat, UInt64.ofNat_toNat]

/-! ### All wheels turned -/

theorem carry_lt {ws : List Wheel} (h : InRange ws) (k : Word) :
    (value ws + k.toNat) / volume (ws.map Wheel.radix) < UInt64.size := by
  have hlt := value_lt_volume h
  have hpos := Nat.zero_lt_of_lt hlt
  refine Nat.lt_of_le_of_lt (Nat.le_of_lt_succ ?_) k.toNat_lt
  rw [Nat.div_lt_iff_lt_mul hpos, Nat.succ_mul]
  have := Nat.le_mul_of_pos_right k.toNat hpos
  omega

/-- **Turned wheels show the sum, and carry what does not fit.** -/
theorem turnAll_eq {ws : List Wheel} (h : InRange ws) (k : Word) :
    turnAll k ws = .ok (some
      (UInt64.ofNat ((value ws + k.toNat) / volume (ws.map Wheel.radix)),
        numeral (ws.map Wheel.radix) (value ws + k.toNat))) := by
  induction ws with
  | nil => simp [turnAll]
  | cons w ws ih =>
    obtain ⟨hw, hws⟩ := (inRange_cons w ws).1 h
    have hpos := Nat.zero_lt_of_lt (value_lt_volume hws)
    have hsum : (value (w :: ws) + k.toNat) / volume (ws.map Wheel.radix) =
        w.digit.toNat + (value ws + k.toNat) / volume (ws.map Wheel.radix) := by
      rw [value_cons, Nat.add_assoc, Nat.add_comm, Nat.add_mul_div_right _ _ hpos, Nat.add_comm]
    have hrest : numeral (ws.map Wheel.radix) (value (w :: ws) + k.toNat) =
        numeral (ws.map Wheel.radix) (value ws + k.toNat) := by
      rw [value_cons, Nat.add_assoc, Nat.add_comm, numeral_add_mul]
    rw [turnAll, ih hws, Checked.ok_bind]
    dsimp only
    rw [turn_eq hw, UInt64.toNat_ofNat_of_lt' (carry_lt hws k), List.map_cons, numeral_cons, hrest,
      volume_cons, Nat.mul_comm, ← Nat.div_div_eq_div_mul, hsum]
    rfl

/-- **A move reaches the numeral of the sum.** Digits without a radix stay. -/
theorem add?_eq {ds rs : List Word} (h : InRange (wheels ds rs)) (k : Word) :
    add? ds rs k = .ok ((numeral? ((wheels ds rs).map Wheel.radix)
      (value (wheels ds rs) + k.toNat)).map (· ++ ds.drop rs.length)) := by
  have hpos := Nat.zero_lt_of_lt (value_lt_volume h)
  rw [add?, turnAll_eq h, Checked.ok_bind]
  dsimp only
  have hzero : UInt64.ofNat ((value (wheels ds rs) + k.toNat) /
      volume ((wheels ds rs).map Wheel.radix)) = 0 ↔
      value (wheels ds rs) + k.toNat < volume ((wheels ds rs).map Wheel.radix) := by
    rw [← UInt64.toNat_inj, UInt64.toNat_ofNat_of_lt' (carry_lt h k), UInt64.toNat_zero,
      Nat.div_eq_zero_iff_lt hpos]
  by_cases hlt : value (wheels ds rs) + k.toNat < volume ((wheels ds rs).map Wheel.radix)
  · rw [if_pos (hzero.2 hlt), numeral?_of_lt hlt]
    rfl
  · rw [if_neg (mt hzero.1 hlt), numeral?_of_le (Nat.not_lt.1 hlt)]
    rfl

/-! ### Digits and radices of any two lengths -/

theorem exists_turn {front back : List Wheel} {w : Wheel} (h : InRange (front ++ w :: back))
    (amount : Word) : ∃ carry turned above digit, turnAll amount back = .ok (some (carry, turned)) ∧
      turn w carry = .ok (some (above, digit)) := by
  obtain ⟨-, hback⟩ := inRange_append.1 h
  obtain ⟨hw, hback⟩ := (inRange_cons w back).1 hback
  exact ⟨_, _, _, _, turnAll_eq hback amount, turn_eq hw _⟩

/-- **A move forward is exact.** Let the digits that have a radix be in range. The move succeeds
exactly if the value of these digits and the amount have a sum below the product of their radices. Then
the new digits are the only ones that write the sum, and the digits without a radix follow them unchanged.
On the way each wheel is turned by a carry that is a word, and the carry that it passes on is one too. -/
theorem add?_reaches_sum {ds rs : List Word} (h : InRange (wheels ds rs)) (amount : Word) :
    let places := rs.take ds.length
    let sum := value (wheels ds rs) + amount.toNat
    (if sum < volume places then
      ∃ es, add? ds rs amount = .ok (some (es ++ ds.drop rs.length)) ∧
        ∀ es', Writes es' places sum ↔ es' = es
    else
      add? ds rs amount = .ok none) ∧
    ∀ front w back, wheels ds rs = front ++ w :: back →
      ∃ carry turned above digit, turnAll amount back = .ok (some (carry, turned)) ∧
        turn w carry = .ok (some (above, digit)) := by
  intro places sum
  constructor
  · rw [add?_eq h, radices_wheels_eq_take]
    split
    · rename_i hsum
      refine ⟨numeral places sum, ?_, fun es' => writes_iff hsum⟩
      rw [numeral?_of_lt hsum]
      rfl
    · rename_i hsum
      rw [numeral?_of_le (Nat.not_lt.1 hsum)]
      rfl
  · intro front w back hsplit
    exact exists_turn (hsplit ▸ h) amount

/-- The greatest amount carries into the first of two places and ends on the last numeral. The third
digit has no radix. -/
theorem add?_reaches_last_numeral :
    InRange (wheels [1, Word.maxValue - 1, 7] [3, Word.maxValue]) ∧
    add? [1, Word.maxValue - 1, 7] [3, Word.maxValue] Word.maxValue =
      .ok (some [2, Word.maxValue - 1, 7]) := by
  have h : InRange (wheels [1, Word.maxValue - 1, 7] [3, Word.maxValue]) := by decide
  obtain ⟨hsum, -⟩ := add?_reaches_sum h Word.maxValue
  rw [if_pos (by decide)] at hsum
  obtain ⟨es, hadd, hes⟩ := hsum
  obtain rfl := (hes [2, Word.maxValue - 1]).1 ⟨by decide, by decide, by decide⟩
  exact ⟨h, hadd⟩

end LexProduct.MixedRadix
