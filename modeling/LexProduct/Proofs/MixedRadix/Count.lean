import LexProduct.MixedRadix.Bounded
import LexProduct.Proofs.MixedRadix.Numeral

/-!
# Counting and ranking are exact

The functions on words form their answer step by step and give up at the first step that does not fit.
No step gives up too early, because without a zero radix no later step makes a number smaller. So each
of them answers the exact number whenever it is a word:

* `cardinality?_eq`: the product of the radices;
* `remaining?_eq`: the numerals from the digits to the last one (`countAfter_append` counts any places
  in front, whatever follows them);
* `rank?_eq`: the value of the digits;
* `unrank?_eq`: the numeral of a rank, for every word that is one.
-/

namespace LexProduct.MixedRadix

theorem isVoid_iff {rs : List Word} : isVoid rs = true ↔ rs = [] ∨ 0 ∈ rs := by
  rw [isVoid, Bool.or_eq_true, List.isEmpty_iff, List.contains_iff_mem]

theorem isVoid_eq_false_iff {rs : List Word} : isVoid rs = false ↔ rs ≠ [] ∧ 0 ∉ rs := by
  rw [← Bool.not_eq_true, isVoid_iff, not_or]

theorem eq_nil_of_isVoid {rs : List Word} (hv : isVoid rs = true) (h0 : 0 ∉ rs) : rs = [] :=
  (isVoid_iff.1 hv).resolve_right h0

/-! ### The number of numerals -/

theorem foldlM_mul? {rs : List Word} (h : 0 ∉ rs) (acc : Word) :
    rs.foldlM Word.mul? acc = Word.ofNat? (acc.toNat * volume rs) := by
  induction rs generalizing acc with
  | nil => simp
  | cons r rs ih =>
    obtain ⟨-, hrs⟩ := List.ne_and_not_mem_of_not_mem_cons h
    rw [List.foldlM_cons, volume_cons, ← Nat.mul_assoc]
    cases hm : Word.mul? acc r with
    | none =>
      have hgrow := Nat.le_mul_of_pos_right (acc.toNat * r.toNat) (volume_pos hrs)
      exact (Word.ofNat?_eq_none_of_le hm hgrow).symm
    | some b =>
      rw [← Word.ofNat?_eq_some_iff.1 hm]
      exact ih hrs b

/-- **The number of numerals is exact.** -/
theorem cardinality?_eq (rs : List Word) :
    cardinality? rs = Word.ofNat? (if isVoid rs then 0 else volume rs) := by
  rw [cardinality?]
  split
  · rfl
  · rename_i h
    rw [foldlM_mul? (isVoid_eq_false_iff.1 (Bool.eq_false_iff.2 h)).2, UInt64.toNat_one, Nat.one_mul]

/-! ### The numerals left -/

/-- The wheel that counts down to the last digit where `w` counts up. -/
def complement (w : Wheel) : Wheel := ⟨w.radix - 1 - w.digit, w.radix⟩

theorem complement_le {w : Wheel} (h : w.digit < w.radix) :
    1 ≤ w.radix ∧ w.digit ≤ w.radix - 1 ∧
      w.digit.toNat + 1 + (complement w).digit.toNat = w.radix.toNat := by
  have hlt := UInt64.lt_iff_toNat_lt.1 h
  obtain ⟨hone, hpred⟩ := Word.one_le_and_toNat_sub_one (UInt64.lt_of_le_of_lt UInt64.zero_le h)
  have hle : w.digit ≤ w.radix - 1 := by
    rw [UInt64.le_iff_toNat_le]
    omega
  have hcomp := UInt64.toNat_sub_of_le _ _ hle
  refine ⟨hone, hle, ?_⟩
  show w.digit.toNat + 1 + (w.radix - 1 - w.digit).toNat = w.radix.toNat
  omega

theorem radices_map_complement (ws : List Wheel) :
    (ws.map complement).map Wheel.radix = ws.map Wheel.radix := by
  rw [List.map_map]
  rfl

/-- **The complements show the numerals that come after.** -/
theorem value_complement {ws : List Wheel} (h : InRange ws) :
    value (ws.map complement) = volume (ws.map Wheel.radix) - 1 - value ws := by
  induction ws with
  | nil => rfl
  | cons w ws ih =>
    obtain ⟨hw, hws⟩ := (inRange_cons w ws).1 h
    obtain ⟨-, -, hsum⟩ := complement_le hw
    have hlt := value_lt_volume hws
    have hvolume : volume ((w :: ws).map Wheel.radix) = w.digit.toNat * volume (ws.map Wheel.radix) +
        volume (ws.map Wheel.radix) + (complement w).digit.toNat * volume (ws.map Wheel.radix) := by
      rw [List.map_cons, volume_cons, ← hsum, Nat.add_mul, Nat.add_mul, Nat.one_mul]
    rw [List.map_cons, value_cons, radices_map_complement, ih hws, hvolume, value_cons]
    omega

/-- The first places are counted exactly, on top of `acc`; where their count is no word, the count of
all places is none. -/
theorem countAfter_append {front : List Wheel} (h : InRange front) (acc : Word) (ws : List Wheel) :
    countAfter acc (front ++ ws) =
      match Word.ofNat? (acc.toNat * volume (front.map Wheel.radix) +
        value (front.map complement)) with
      | none => .ok none
      | some n => countAfter n ws := by
  induction front generalizing acc with
  | nil => simp
  | cons w front ih =>
    obtain ⟨hw, hfront⟩ := (inRange_cons w front).1 h
    obtain ⟨hone, hle, -⟩ := complement_le hw
    have hpos := Nat.zero_lt_of_lt (value_lt_volume hfront)
    have htotal : acc.toNat * volume ((w :: front).map Wheel.radix) +
        value ((w :: front).map complement) =
        (acc.toNat * w.radix.toNat + (complement w).digit.toNat) * volume (front.map Wheel.radix) +
          value (front.map complement) := by
      rw [List.map_cons, List.map_cons, volume_cons, value_cons, radices_map_complement, Nat.add_mul,
        Nat.mul_assoc, Nat.add_assoc]
    have hgrow := Nat.le_mul_of_pos_right
      (acc.toNat * w.radix.toNat + (complement w).digit.toNat) hpos
    rw [htotal, List.cons_append, countAfter]
    cases hm : Word.mul? acc w.radix with
    | none =>
      rw [Word.ofNat?_eq_none_of_le hm (by omega)]
    | some scaled =>
      rw [← Word.ofNat?_eq_some_iff.1 hm] at hgrow ⊢
      dsimp only
      rw [Word.checkedSub_of_le hone, Checked.ok_bind, Word.checkedSub_of_le hle, Checked.ok_bind]
      cases ha : Word.add? scaled (w.radix - 1 - w.digit) with
      | none =>
        rw [Word.ofNat?_eq_none_of_le ha (Nat.le_trans hgrow (Nat.le_add_right ..))]
        rfl
      | some acc' =>
        rw [complement, ← Word.ofNat?_eq_some_iff.1 ha]
        exact ih hfront acc'

theorem countAfter_eq {ws : List Wheel} (h : InRange ws) (acc : Word) :
    countAfter acc ws = .ok (Word.ofNat? (acc.toNat * volume (ws.map Wheel.radix) +
      value (ws.map complement))) := by
  have hall := countAfter_append h acc []
  rw [List.append_nil] at hall
  rw [hall]
  cases Word.ofNat? (acc.toNat * volume (ws.map Wheel.radix) + value (ws.map complement)) <;> rfl

theorem ofNat?_bind_add_one (n : Nat) :
    (Word.ofNat? n).bind (Word.add? · 1) = Word.ofNat? (n + 1) := by
  cases hn : Word.ofNat? n with
  | none => exact (Word.ofNat?_eq_none_of_le hn (Nat.le_succ n)).symm
  | some w =>
    rw [← Word.ofNat?_eq_some_iff.1 hn]
    rfl

/-- **The number of numerals left is exact**, also where the number of all numerals is no word. -/
theorem remaining?_eq {ds rs : List Word} (hlen : ds.length = rs.length)
    (hv : isVoid rs = false) (h : InRange (wheels ds rs)) :
    remaining? ds rs = .ok (Word.ofNat? (volume rs - value (wheels ds rs))) := by
  have hlt := value_wheels_lt hlen h
  rw [remaining?, if_neg (Bool.eq_false_iff.1 hv), countAfter_eq h, Checked.ok_bind,
    Checked.pure_eq_ok, ofNat?_bind_add_one, UInt64.toNat_zero, Nat.zero_mul, value_complement h,
    radices_wheels hlen]
  congr 2
  omega

/-! ### The rank of digits -/

/-- One place is read exactly. Multiplying comes first, and it cannot be the smaller sum that fits. -/
theorem mul?_bind_add? (acc r d : Word) :
    (do Word.add? (← Word.mul? acc r) d) = Word.ofNat? (acc.toNat * r.toNat + d.toNat) := by
  cases hm : Word.mul? acc r with
  | none => exact (Word.ofNat?_eq_none_of_le hm (Nat.le_add_right ..)).symm
  | some scaled =>
    rw [← Word.ofNat?_eq_some_iff.1 hm]
    rfl

/-- Reading the digits on top of `acc` gives up exactly when the whole number is no word. -/
theorem foldlM_rank {ws : List Wheel} (h : 0 ∉ ws.map Wheel.radix) (acc : Word) :
    ws.foldlM (fun acc w => do Word.add? (← Word.mul? acc w.radix) w.digit) acc =
      Word.ofNat? (acc.toNat * volume (ws.map Wheel.radix) + value ws) := by
  induction ws generalizing acc with
  | nil => simp
  | cons w ws ih =>
    obtain ⟨-, hws⟩ := List.ne_and_not_mem_of_not_mem_cons h
    -- what has been read can only grow by the places behind
    have hgrow := Nat.le_mul_of_pos_right (acc.toNat * w.radix.toNat + w.digit.toNat) (volume_pos hws)
    have hsum : acc.toNat * (w.radix.toNat * volume (ws.map Wheel.radix)) +
        (w.digit.toNat * volume (ws.map Wheel.radix) + value ws) =
        (acc.toNat * w.radix.toNat + w.digit.toNat) * volume (ws.map Wheel.radix) + value ws := by
      rw [Nat.add_mul, Nat.mul_assoc, Nat.add_assoc]
    rw [List.foldlM_cons, mul?_bind_add?, List.map_cons, volume_cons, value_cons, hsum]
    cases hplace : Word.ofNat? (acc.toNat * w.radix.toNat + w.digit.toNat) with
    | none => exact (Word.ofNat?_eq_none_of_le hplace (by omega)).symm
    | some acc' =>
      rw [← Word.ofNat?_eq_some_iff.1 hplace]
      exact ih hws acc'

/-- **The rank of digits is exact.** -/
theorem rank?_eq {ds rs : List Word} (h : 0 ∉ (wheels ds rs).map Wheel.radix) :
    rank? ds rs = Word.ofNat? (value (wheels ds rs)) := by
  rw [rank?, foldlM_rank h, UInt64.toNat_zero, Nat.zero_mul, Nat.zero_add]

theorem rank?_of_inRange {ds rs : List Word} (h : InRange (wheels ds rs)) :
    rank? ds rs = Word.ofNat? (value (wheels ds rs)) :=
  rank?_eq (zero_notMem_of_lt_volume (value_lt_volume h))

theorem Writes.rank?_eq {ds rs : List Word} {n : Nat} (h : Writes ds rs n) :
    rank? ds rs = Word.ofNat? n := by
  rw [rank?_of_inRange h.inRange, h.value_eq]

/-! ### The digits of a rank -/

theorem split_eq {rs : List Word} (h : 0 ∉ rs) (n : Word) :
    split n rs = .ok (UInt64.ofNat (n.toNat / volume rs), numeral rs n.toNat) := by
  induction rs with
  | nil => simp [split]
  | cons r rs ih =>
    obtain ⟨hr, hrs⟩ := List.ne_and_not_mem_of_not_mem_cons h
    have habove : (UInt64.ofNat (n.toNat / volume rs)).toNat = n.toNat / volume rs :=
      UInt64.toNat_ofNat_of_lt' (Nat.lt_of_le_of_lt (Nat.div_le_self _ _) n.toNat_lt)
    have hdiv := UInt64.toNat_div (UInt64.ofNat (n.toNat / volume rs)) r
    have hmod := UInt64.toNat_mod (UInt64.ofNat (n.toNat / volume rs)) r
    rw [habove] at hdiv hmod
    rw [split, ih hrs, Checked.ok_bind]
    dsimp only
    rw [Word.divMod_of_ne_zero hr.symm, Checked.ok_bind, Checked.pure_eq_ok, numeral_cons,
      volume_cons, Nat.mul_comm, ← Nat.div_div_eq_div_mul, ← hdiv, ← hmod, UInt64.ofNat_toNat,
      UInt64.ofNat_toNat]

theorem all_cardinality?_iff {rs : List Word} (hv : isVoid rs = false) (n : Word) :
    (cardinality? rs).all (n < ·) = true ↔ n.toNat < volume rs := by
  rw [cardinality?_eq, hv]
  cases hc : Word.ofNat? (volume rs) with
  | none =>
    have hbig := Word.ofNat?_eq_none_iff.1 hc
    have hn := n.toNat_lt
    simp only [Bool.false_eq_true, if_false, hc, Option.all_none, true_iff]
    exact Nat.lt_of_lt_of_le hn hbig
  | some total =>
    simp only [Bool.false_eq_true, if_false, hc, Option.all_some, decide_eq_true_eq]
    rw [UInt64.lt_iff_toNat_lt, Word.ofNat?_eq_some_iff.1 hc]

/-- **A word has digits exactly when it is a rank**, and then they are its numeral. -/
theorem unrank?_eq (rs : List Word) (n : Word) :
    unrank? n rs = .ok (if isVoid rs then none else numeral? rs n.toNat) := by
  rw [unrank?]
  cases hv : isVoid rs with
  | true => simp [cardinality?, hv, Checked.pure_eq_ok]
  | false =>
    rcases Nat.lt_or_ge n.toNat (volume rs) with hlt | hge
    · rw [if_pos ((all_cardinality?_iff hv n).2 hlt), split_eq (isVoid_eq_false_iff.1 hv).2,
        numeral?_of_lt hlt, Checked.ok_bind]
      rfl
    · rw [if_neg (mt (all_cardinality?_iff hv n).1 (Nat.not_lt.2 hge)), numeral?_of_le hge]
      rfl

end LexProduct.MixedRadix
