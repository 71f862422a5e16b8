import LexProduct.Proofs.MixedRadix.Count
import LexProduct.Proofs.MixedRadix.Forward
import Mathlib.Data.List.Induction

/-!
# Numerals that are out of range

A wheel strays when it shows a digit that its place does not have; a place of radix zero has none. The
functions on words meet such wheels in the order in which they look at them, so what they do is decided
by the first one (counting, from the front) or the last one (adding, from the back):

* `rank?_eq_some_iff`: ranking never stops, and answers where no prefix is past the words;
* `remaining?_of_firstStray`: counting down to the end stops at the first stray wheel, unless the
  wheels up to it already count more numerals than there are words;
* `add?_of_lt_volume`, `add?_of_volume_le`: adding never looks at a stray wheel that no carry reaches.
  Otherwise it stops at the last one, unless that shows exactly its radix.

`malformed_numerals_decided` says all of it, for lists of any lengths. A stop is a fault of a build with
overflow checks; without them the difference at a stray wheel wraps.
-/

namespace LexProduct.MixedRadix

/-! ### Ranking -/

theorem foldlM_ofNat?_eq_some_iff {ws : List Wheel} {n : Word} :
    ws.foldlM (fun acc w => Word.ofNat? (acc.toNat * w.radix.toNat + w.digit.toNat)) 0 = some n ↔
      value ws = n.toNat ∧ ∀ front, front <+: ws → value front < UInt64.size := by
  induction ws using List.reverseRecOn generalizing n with
  | nil =>
    simp only [List.foldlM_nil, Option.pure_def, Option.some.injEq, List.prefix_nil, forall_eq,
      value_nil, ← UInt64.toNat_inj, UInt64.toNat_zero]
    exact (and_iff_left (by decide)).symm
  | append_singleton ws w ih =>
    simp only [List.foldlM_append, List.foldlM_cons, List.foldlM_nil, bind_pure, Option.bind_eq_bind,
      Option.bind_eq_some_iff, ih, Word.ofNat?_eq_some_iff, value_concat, List.prefix_concat_iff,
      or_imp, forall_and, forall_eq]
    constructor
    · rintro ⟨acc, ⟨hacc, hfits⟩, hn⟩
      rw [hacc, ← hn]
      exact ⟨rfl, n.toNat_lt, hfits⟩
    · rintro ⟨hn, -, hfits⟩
      have hacc := UInt64.toNat_ofNat_of_lt' (hfits ws List.prefix_rfl)
      exact ⟨UInt64.ofNat (value ws), ⟨hacc.symm, hfits⟩, by rw [hacc, hn]⟩

/-- **Ranking gives up only at a prefix that is past the words**, whatever its digits are. -/
theorem rank?_eq_some_iff {ds rs : List Word} {n : Word} :
    rank? ds rs = some n ↔ value (wheels ds rs) = n.toNat ∧
      ∀ front, front <+: wheels ds rs → value front < UInt64.size := by
  simp only [rank?, mul?_bind_add?]
  exact foldlM_ofNat?_eq_some_iff

/-! ### The first stray wheel -/

/-- `w` is the first wheel of `ws` that shows a digit past the last one of its place, and `front` are
the wheels before it. -/
structure FirstStray (ws front : List Wheel) (w : Wheel) : Prop where
  split : ∃ back, ws = front ++ w :: back
  inRange : InRange front
  stray : w.radix ≤ w.digit

theorem inRange_or_firstStray (ws : List Wheel) :
    InRange ws ∨ ∃ front w, FirstStray ws front w := by
  induction ws with
  | nil => exact .inl inRange_nil
  | cons v ws ih =>
    rcases UInt64.lt_or_le v.digit v.radix with hv | hv
    · rcases ih with hws | ⟨front, w, ⟨back, rfl⟩, hfront, hw⟩
      · exact .inl ((inRange_cons v ws).2 ⟨hv, hws⟩)
      · exact .inr ⟨v :: front, w, ⟨back, rfl⟩, (inRange_cons v front).2 ⟨hv, hfront⟩, hw⟩
    · exact .inr ⟨[], v, ⟨ws, rfl⟩, inRange_nil, hv⟩

theorem FirstStray.mem {ws front : List Wheel} {w : Wheel} (h : FirstStray ws front w) : w ∈ ws := by
  obtain ⟨back, rfl⟩ := h.split
  exact List.mem_append_right _ List.mem_cons_self

/-! ### Counting to the end -/

theorem checkedSub_of_stray {w : Wheel} (hr : w.radix ≠ 0) (h : w.radix ≤ w.digit) :
    (do Word.checkedSub (← Word.checkedSub w.radix 1) w.digit) = .error .subOverflow := by
  obtain ⟨hone, hpred⟩ := Word.one_le_and_toNat_sub_one (UInt64.pos_iff_ne_zero.2 hr)
  have hlt : w.radix - 1 < w.digit := by
    have hle := UInt64.le_iff_toNat_le.1 h
    rw [UInt64.lt_iff_toNat_lt]
    omega
  rw [Word.checkedSub_of_le hone, Checked.ok_bind, Word.checkedSub_of_lt hlt]

/-- The product comes first: where it is no word, the digit is never looked at. -/
theorem countAfter_of_stray {w : Wheel} (hr : w.radix ≠ 0) (h : w.radix ≤ w.digit) (acc : Word)
    (back : List Wheel) : countAfter acc (w :: back) =
      if acc.toNat * w.radix.toNat < UInt64.size then .error .subOverflow else .ok none := by
  rw [countAfter]
  cases hm : Word.mul? acc w.radix with
  | none => rw [if_neg (Nat.not_lt.2 (Word.ofNat?_eq_none_iff.1 hm))]
  | some scaled =>
    have hfits : acc.toNat * w.radix.toNat < UInt64.size := by
      rw [← Word.ofNat?_eq_some_iff.1 hm]
      exact scaled.toNat_lt
    have hsub := checkedSub_of_stray hr h
    rw [if_pos hfits]
    dsimp only
    rw [← bind_assoc, hsub]
    rfl

/-- **Counting stops at the first stray wheel**, unless the wheels up to it already count more numerals
than there are words. -/
theorem remaining?_of_firstStray {ds rs : List Word} (hv : isVoid rs = false) {front : List Wheel}
    {w : Wheel} (h : FirstStray (wheels ds rs) front w) :
    remaining? ds rs = if value (front.map complement) * w.radix.toNat < UInt64.size then
      .error .subOverflow else .ok none := by
  have hr : w.radix ≠ 0 := by
    intro h0
    have hmem := List.mem_map_of_mem (f := Wheel.radix) h.mem
    rw [h0, radices_wheels_eq_take] at hmem
    exact (isVoid_eq_false_iff.1 hv).2 (List.mem_of_mem_take hmem)
  obtain ⟨back, hsplit⟩ := h.split
  rw [remaining?, if_neg (Bool.eq_false_iff.1 hv), hsplit, countAfter_append h.inRange,
    UInt64.toNat_zero, Nat.zero_mul, Nat.zero_add]
  cases hc : Word.ofNat? (value (front.map complement)) with
  | none =>
    -- the wheels in front are too many already, and the radix of `w` makes them no fewer
    have hgrow := Nat.le_mul_of_pos_right (value (front.map complement)) (Word.toNat_pos hr)
    rw [if_neg (Nat.not_lt.2 (Nat.le_trans (Word.ofNat?_eq_none_iff.1 hc) hgrow))]
    rfl
  | some acc =>
    dsimp only
    rw [countAfter_of_stray hr h.stray, Word.ofNat?_eq_some_iff.1 hc]
    split <;> rfl

/-- Counting stops for no other cause. -/
theorem remaining?_eq_error_iff {ds rs : List Word} (hv : isVoid rs = false) (fault : Fault) :
    remaining? ds rs = .error fault ↔ fault = .subOverflow ∧
      ∃ front w, FirstStray (wheels ds rs) front w ∧
        value (front.map complement) * w.radix.toNat < UInt64.size := by
  constructor
  · intro herror
    rcases inRange_or_firstStray (wheels ds rs) with hrange | ⟨front, w, hstray⟩
    · rw [remaining?, if_neg (Bool.eq_false_iff.1 hv), countAfter_eq hrange] at herror
      cases herror
    · rw [remaining?_of_firstStray hv hstray] at herror
      split at herror
      · rename_i hfits
        exact ⟨(Except.error.inj herror).symm, front, w, hstray, hfits⟩
      · cases herror
  · rintro ⟨rfl, front, w, hstray, hfits⟩
    rw [remaining?_of_firstStray hv hstray, if_pos hfits]

/-! ### Adding -/

theorem turn_zero (w : Wheel) : turn w 0 = .ok (some (0, w.digit)) := if_pos rfl

/-- A stray wheel is not turned. A digit that is its radix is no obstacle. -/
theorem turn_of_stray {w : Wheel} {k : Word} (hk : k ≠ 0) (h : w.radix = 0 ∨ w.radix < w.digit) :
    turn w k = .error (if w.radix = 0 then .remainderByZero else .subOverflow) := by
  rw [turn, if_neg hk]
  by_cases hr : w.radix = 0
  · rw [if_pos hr, hr, Word.divMod_zero]
    rfl
  · rw [if_neg hr, Word.divMod_of_ne_zero hr, Checked.ok_bind]
    dsimp only
    rw [Word.checkedSub_of_lt (h.resolve_left hr)]
    rfl

/-- Without a carry the wheels in front stay as they are, whatever they show. -/
theorem turnAll_append_of_zero {k : Word} {ws : List Wheel} {es : List Word}
    (h : turnAll k ws = .ok (some (0, es))) (front : List Wheel) :
    turnAll k (front ++ ws) = .ok (some (0, front.map Wheel.digit ++ es)) := by
  induction front with
  | nil => exact h
  | cons w front ih =>
    rw [List.cons_append, turnAll, ih, Checked.ok_bind]
    dsimp only
    rw [turn_zero]
    rfl

theorem turnAll_append_of_error {k : Word} {ws : List Wheel} {fault : Fault}
    (h : turnAll k ws = .error fault) (front : List Wheel) :
    turnAll k (front ++ ws) = .error fault := by
  induction front with
  | nil => exact h
  | cons w front ih =>
    rw [List.cons_append, turnAll, ih]
    rfl

section Add

variable {ds rs : List Word} {front back : List Wheel} {w : Wheel} {amount : Word}

theorem digits_upTo (hsplit : wheels ds rs = front ++ w :: back) :
    (front ++ [w]).map Wheel.digit = ds.take (front.length + 1) := by
  have hdigits : (front ++ [w] ++ back).map Wheel.digit = ds.take rs.length := by
    rw [List.append_assoc, List.singleton_append, ← hsplit, digits_wheels_eq_take]
  have hlen : front.length + 1 ≤ rs.length := by
    have hcount := congrArg List.length hsplit
    rw [wheels, List.length_zipWith, List.length_append, List.length_cons] at hcount
    omega
  rw [List.map_append] at hdigits
  have htake := congrArg (List.take (front.length + 1)) hdigits
  rwa [List.take_take, Nat.min_eq_left hlen, List.take_left' (by simp)] at htake

/-- **A sum that fits on the wheels in range leaves the wheels before them alone**, whatever they
show. -/
theorem add?_of_lt_volume (hsplit : wheels ds rs = front ++ w :: back) (hback : InRange back)
    (hsum : value back + amount.toNat < volume (back.map Wheel.radix)) :
    ∃ es, Writes es (back.map Wheel.radix) (value back + amount.toNat) ∧
      turnAll amount back = .ok (some (0, es)) ∧
      add? ds rs amount = .ok (some (ds.take (front.length + 1) ++ es ++ ds.drop rs.length)) := by
  have hturned : turnAll amount back = .ok (some (0,
      numeral (back.map Wheel.radix) (value back + amount.toNat))) := by
    rw [turnAll_eq hback, Nat.div_eq_of_lt hsum]
    rfl
  refine ⟨_, writes_numeral hsum, hturned, ?_⟩
  rw [add?, hsplit, ← List.singleton_append, ← List.append_assoc, turnAll_append_of_zero hturned,
    digits_upTo hsplit]
  rfl

/-- **A carry into a stray wheel stops the move.** -/
theorem add?_of_volume_le (hsplit : wheels ds rs = front ++ w :: back) (hback : InRange back)
    (hsum : volume (back.map Wheel.radix) ≤ value back + amount.toNat)
    (hw : w.radix = 0 ∨ w.radix < w.digit) :
    add? ds rs amount = .error (if w.radix = 0 then .remainderByZero else .subOverflow) := by
  have hpos := Nat.zero_lt_of_lt (value_lt_volume hback)
  have hcarry : UInt64.ofNat ((value back + amount.toNat) / volume (back.map Wheel.radix)) ≠ 0 := by
    rw [Ne, ← UInt64.toNat_inj, UInt64.toNat_ofNat_of_lt' (carry_lt hback amount), UInt64.toNat_zero,
      Nat.div_eq_zero_iff_lt hpos]
    exact Nat.not_lt.2 hsum
  have herror : turnAll amount (w :: back) =
      .error (if w.radix = 0 then .remainderByZero else .subOverflow) := by
    rw [turnAll, turnAll_eq hback, Checked.ok_bind]
    dsimp only
    rw [turn_of_stray hcarry hw]
    rfl
  rw [add?, hsplit, turnAll_append_of_error herror]
  rfl

end Add

/-! ### All functions on all lists -/

/-- **What the functions answer, and where they stop, on numerals of any form.** Counting, ranking and
unranking always answer: the exact number if it is a word, where a rank also asks that of every prefix.

The numerals left are none with void radices. Otherwise let `w` be the first stray wheel and `front` the
wheels before it, whose complements count the numerals after them. If this count times the radix of `w`
is a word, then the subtraction at `w` stops the function, and nothing else ever does. If it is no word,
then the answer is none.

A move meets the wheels from the back. As long as the sum fits on the wheels `back`, all in range, it is
written there and no carry leaves them; the wheel `w` before them may show anything, and it keeps its
digit, as do those before it and the digits without a radix. If the sum does not fit, then the move stops
at `w` when that has radix zero or a digit past its radix. -/
theorem malformed_numerals_decided (ds rs : List Word) :
    (cardinality? rs = Word.ofNat? (if isVoid rs then 0 else volume rs) ∧
      (∀ n, rank? ds rs = some n ↔ value (wheels ds rs) = n.toNat ∧
        ∀ front, front <+: wheels ds rs → value front < UInt64.size) ∧
      ∀ n, unrank? n rs = .ok (if isVoid rs then none else numeral? rs n.toNat)) ∧
    (if rs = [] ∨ 0 ∈ rs then
      remaining? ds rs = .ok (some 0)
    else
      (∀ fault, remaining? ds rs = .error fault ↔ fault = .subOverflow ∧
        ∃ front w, FirstStray (wheels ds rs) front w ∧
          value (front.map complement) * w.radix.toNat < UInt64.size) ∧
      ∀ front w, FirstStray (wheels ds rs) front w →
        UInt64.size ≤ value (front.map complement) * w.radix.toNat →
        remaining? ds rs = .ok none) ∧
    ∀ front w back, wheels ds rs = front ++ w :: back → InRange back → ∀ amount : Word,
      let sum := value back + amount.toNat
      (sum < volume (back.map Wheel.radix) → ∃ es, Writes es (back.map Wheel.radix) sum ∧
        turnAll amount back = .ok (some (0, es)) ∧
        add? ds rs amount = .ok (some (ds.take (front.length + 1) ++ es ++ ds.drop rs.length))) ∧
      (volume (back.map Wheel.radix) ≤ sum → w.radix = 0 ∨ w.radix < w.digit →
        add? ds rs amount = .error (if w.radix = 0 then .remainderByZero else .subOverflow)) := by
  refine ⟨⟨cardinality?_eq rs, fun n => rank?_eq_some_iff, unrank?_eq rs⟩, ?_, ?_⟩
  · split
    · rename_i hvoid
      rw [remaining?, if_pos (isVoid_iff.2 hvoid)]
      rfl
    · rename_i hvoid
      have hv : isVoid rs = false := Bool.eq_false_iff.2 (mt isVoid_iff.1 hvoid)
      refine ⟨remaining?_eq_error_iff hv, fun front w hstray hbig => ?_⟩
      rw [remaining?_of_firstStray hv hstray, if_neg (Nat.not_lt.2 hbig)]
  · intro front w back hsplit hback amount sum
    exact ⟨add?_of_lt_volume hsplit hback, add?_of_volume_le hsplit hback⟩

/-- The digit `9` strays in both. In the second numeral the count is past the words before it is seen. -/
example : remaining? [0, 9] [5, 3] = .error .subOverflow ∧
    remaining? [0, 9] [Word.maxValue, 3] = .ok none := by decide

/-- The first move ends on the last wheel, and only the second one carries into the stray digit. -/
example : add? [9, 0] [3, 2] 1 = .ok (some [9, 1]) ∧
    add? [9, 0] [3, 2] 2 = .error .subOverflow := by decide

end LexProduct.MixedRadix
