import LexProduct.Counter
import LexProduct.Proofs.MixedRadix.Count
import LexProduct.Proofs.MixedRadix.Forward
import LexProduct.Proofs.MixedRadix.InPlace

/-!
# Counters that fit their radices

`Fits` is the invariant of a counter that is only driven with one list of radices, which may grow at
its end. Where it holds and no radix is zero, no operation stops with a fault and each of them is
described by the number that the digits show:

* `advance_eq`, `advanceBy_eq`: a move reaches the numeral of the sum;
* `remaining?_eq`: what is left is the distance to the volume.

Moves ask only that the digits write a number, so they are described behind the mark too, and one move is
as many steps as its amount says (`advanceBy_eq_advanceUpTo`). A counter that overwrites its digits wheel
by wheel ends as these counters do, on every outcome and for any digits at all (`advance_eq_rolled`,
`advanceBy_eq_turned`).
-/

namespace LexProduct.Counter

open MixedRadix

/-- What a counter keeps while it is driven with these radices. A zero radix suspends the demands on
the digits, since no digit is below it. -/
structure Fits (c : Counter) (rs : List Word) : Prop where
  /-- There is one digit for each radix. -/
  length_eq : c.digits.length = rs.length
  /-- Every digit is below its radix. -/
  inRange : 0 ∉ rs → InRange (wheels c.digits rs)
  /-- A counter that has run out shows zeros. -/
  zeros : 0 ∉ rs → c.exhausted = true → c.digits = List.replicate rs.length 0

def value (c : Counter) (rs : List Word) : Nat := MixedRadix.value (wheels c.digits rs)

def ended (n : Nat) : Counter := { digits := List.replicate n 0, exhausted := true }

/-- The counter that shows `n`; past the last numeral it has run out. -/
def showing (rs : List Word) (n : Nat) : Counter :=
  if n < volume rs then { digits := numeral rs n } else ended rs.length

variable {c : Counter} {rs : List Word}

/-! ### Ways to fit -/

theorem fits_numeral (rs : List Word) (n : Nat) : Fits { digits := numeral rs n } rs where
  length_eq := length_numeral rs n
  inRange h := inRange_numeral h n
  zeros _ h := nomatch h

theorem fits_zeroed (rs : List Word) : (zeroed rs.length).Fits rs := by
  rw [zeroed, ← numeral_zero]
  exact fits_numeral rs 0

theorem fits_ended (rs : List Word) : (ended rs.length).Fits rs where
  length_eq := List.length_replicate
  inRange h := by
    rw [ended, ← numeral_zero]
    exact inRange_numeral h 0
  zeros _ _ := rfl

theorem showing_of_lt {n : Nat} (h : n < volume rs) : showing rs n = { digits := numeral rs n } :=
  if_pos h

theorem showing_of_le {n : Nat} (h : volume rs ≤ n) : showing rs n = ended rs.length :=
  if_neg (Nat.not_lt.2 h)

theorem fits_showing (rs : List Word) (n : Nat) : (showing rs n).Fits rs := by
  unfold showing
  split
  · exact fits_numeral rs n
  · exact fits_ended rs

/-- A counter that meets void radices may be marked wherever it stands. -/
theorem Fits.exhaust (h : c.Fits rs) (hv : isVoid rs = true) : c.exhaust.Fits rs where
  length_eq := h.length_eq
  inRange := h.inRange
  zeros h0 _ := by
    obtain rfl := eq_nil_of_isVoid hv h0
    exact List.length_eq_zero_iff.1 h.length_eq

theorem Fits.pushDigit (h : c.Fits rs) (r : Word) : c.pushDigit.Fits (rs ++ [r]) where
  length_eq := by simp [Counter.pushDigit, h.length_eq]
  inRange h0 := by
    rw [List.mem_append, not_or] at h0
    have hr : r ≠ 0 := fun hr => h0.2 (by rw [hr]; exact List.mem_singleton_self 0)
    rw [Counter.pushDigit, wheels_concat h.length_eq, inRange_append, inRange_cons]
    exact ⟨h.inRange h0.1, UInt64.pos_iff_ne_zero.2 hr, inRange_nil⟩
  zeros h0 he := by
    rw [List.mem_append, not_or] at h0
    rw [Counter.pushDigit, h.zeros h0.1 he, List.length_append, List.length_singleton,
      List.replicate_succ']

/-! ### Counters by their number -/

theorem Fits.value_lt (h : c.Fits rs) (h0 : 0 ∉ rs) : c.value rs < volume rs :=
  value_wheels_lt h.length_eq (h.inRange h0)

theorem Fits.eq_showing (h : c.Fits rs) (h0 : 0 ∉ rs) (he : c.exhausted = false) :
    c = showing rs (c.value rs) := by
  rw [showing_of_lt (h.value_lt h0), value, numeral_value_wheels h.length_eq (h.inRange h0), ← he]

theorem Fits.eq_ended (h : c.Fits rs) (h0 : 0 ∉ rs) (he : c.exhausted = true) :
    c = ended rs.length := by
  rw [ended, ← h.zeros h0 he, ← he]

theorem Fits.value_pushDigit (h : c.Fits rs) (r : Word) :
    c.pushDigit.value (rs ++ [r]) = c.value rs * r.toNat := by
  rw [value, Counter.pushDigit, wheels_concat h.length_eq, value_concat]
  rfl

theorem value_numeral_of_lt {n : Nat} (h : n < volume rs) :
    value { digits := numeral rs n } rs = n := MixedRadix.value_numeral_of_lt h

/-! ### Operations -/

theorem requireSize_eq (h : c.digits.length = rs.length) : c.requireSize rs.length = .ok () :=
  if_pos h

/-- **A step goes to the next number**, also behind the mark. -/
theorem advance_eq {n : Nat} (h : Writes c.digits rs n) :
    c.advance rs = .ok (c.moveTo (numeral? rs (n + 1))) := by
  rw [advance, requireSize_eq h.length_eq, Checked.ok_bind, next?_eq h.inRange,
    radices_wheels h.length_eq, h.value_eq]
  rfl

/-- **A move by `amount` goes to the number `amount` later**, also behind the mark. -/
theorem advanceBy_eq {n : Nat} (h : Writes c.digits rs n) (amount : Word) :
    c.advanceBy amount rs = .ok (c.moveTo (numeral? rs (n + amount.toNat))) := by
  rw [advanceBy, requireSize_eq h.length_eq, Checked.ok_bind, add?_eq h.inRange,
    radices_wheels h.length_eq, ← h.length_eq, List.drop_length, h.value_eq]
  simp only [List.append_nil, Option.map_id', Checked.ok_bind, Checked.pure_eq_ok]

theorem moveTo_numeral? (h : c.Fits rs) (he : c.exhausted = false) (n : Nat) :
    c.moveTo (numeral? rs n) = (decide (n < volume rs), showing rs n) := by
  rcases Nat.lt_or_ge n (volume rs) with hn | hn
  · rw [numeral?_of_lt hn, showing_of_lt hn, decide_eq_true hn, moveTo, he]
  · rw [numeral?_of_le hn, showing_of_le hn, decide_eq_false (Nat.not_lt.2 hn), moveTo,
      List.map_const', h.length_eq]
    rfl

/-- **What is left is the distance to the volume**, and nothing once the counter has run out. -/
theorem remaining?_eq (h : c.Fits rs) (he : c.exhausted = false) (hv : isVoid rs = false) :
    c.remaining? rs = .ok (Word.ofNat? (volume rs - c.value rs)) := by
  rw [remaining?, he, if_neg Bool.false_ne_true,
    MixedRadix.remaining?_eq h.length_eq hv (h.inRange (isVoid_eq_false_iff.1 hv).2)]
  rfl

theorem remaining?_of_void (he : c.exhausted = true ∨ isVoid rs = true) :
    c.remaining? rs = .ok (some 0) := by
  rw [remaining?]
  split
  · rfl
  · rename_i h
    rw [MixedRadix.remaining?, if_pos (he.resolve_left h)]
    rfl

theorem setDigits_eq {ds : List Word} (h : c.digits.length = ds.length) :
    c.setDigits ds = .ok { digits := ds } := by
  rw [setDigits, requireSize_eq h]
  rfl

/-! ### Moves in place -/

theorem wheels_map_zero (h : c.size = rs.length) :
    (wheels c.digits rs).map (fun _ => (0 : Word)) = c.digits.map fun _ => 0 := by
  rw [size] at h
  rw [List.map_const', List.map_const', wheels, List.length_zipWith, ← h, Nat.min_self]

/-- **A step leaves the digits that the wheels show**, and the mark where none of them had a next one. -/
theorem advance_eq_rolled (c : Counter) (rs : List Word) :
    c.advance rs = (do
      c.requireSize rs.length
      let (reached, digits) ← rolled (wheels c.digits rs)
      return (reached, { digits, exhausted := c.exhausted || !reached })) := by
  rw [advance, requireSize]
  by_cases hlen : c.size = rs.length
  · rw [if_pos hlen, Checked.ok_bind, Checked.ok_bind, rolled_eq, wheels_map_zero hlen]
    cases next? (wheels c.digits rs) with
    | error fault => rfl
    | ok reached =>
      cases reached with
      | some digits => simp [moveTo, Except.map]
      | none => simp only [Except.map, Option.elim, Checked.ok_bind, Checked.pure_eq_ok, moveTo,
          Bool.not_false, Bool.or_true]
  · rw [if_neg hlen]
    rfl

/-- **A longer move leaves the digits that the wheels show** if it arrives; else all of them are reset,
however far the wheels have been turned. -/
theorem advanceBy_eq_turned (c : Counter) (amount : Word) (rs : List Word) :
    c.advanceBy amount rs = (do
      c.requireSize rs.length
      let (carry, digits) ← turned amount (wheels c.digits rs)
      if carry = some 0 then
        return (true, { c with digits })
      else
        return (false, { digits := digits.map fun _ => 0, exhausted := true })) := by
  rw [advanceBy, requireSize]
  by_cases hlen : c.size = rs.length
  · rw [if_pos hlen, Checked.ok_bind, Checked.ok_bind, add?_eq_turned]
    cases hturned : turned amount (wheels c.digits rs) with
    | error fault => rfl
    | ok r =>
      obtain ⟨carry, digits⟩ := r
      have hzeros : digits.map (fun _ => (0 : Word)) = c.digits.map fun _ => 0 := by
        rw [← wheels_map_zero hlen, List.map_const', List.map_const', length_turned hturned]
      rw [size] at hlen
      by_cases hcarry : carry = some 0
      · simp only [Except.map, Checked.ok_bind, Checked.pure_eq_ok, if_pos hcarry, moveTo, ← hlen,
          List.drop_length, List.append_nil]
      · -- the digits reached on the way are reset, and so are those that the function dropped
        simp only [Except.map, Checked.ok_bind, Checked.pure_eq_ok, if_neg hcarry, moveTo, hzeros]
  · rw [if_neg hlen]
    rfl

/-! ### One step after another -/

/-- At most `n` steps, up to the first that finds no next numeral. The answer says whether all `n` have
been made. -/
def advanceUpTo (radices : List Word) : Nat → Counter → Checked (Bool × Counter)
  | 0, c => .ok (true, c)
  | n + 1, c => do
    let (reached, c) ← c.advance radices
    if reached then advanceUpTo radices n c else return (false, c)

/-- Of the digits that it leaves a move keeps their number only. -/
theorem moveTo_of_length_eq {ds : List Word} (h : ds.length = c.digits.length)
    (reached : Option (List Word)) :
    ({ c with digits := ds } : Counter).moveTo reached = c.moveTo reached := by
  cases reached with
  | some es => rfl
  | none => simp only [moveTo, List.map_const', h]

/-- **Steps one by one go as far as one move.** -/
theorem advanceUpTo_eq {m : Nat} (h : Writes c.digits rs m) (n : Nat) :
    advanceUpTo rs n c = .ok (c.moveTo (numeral? rs (m + n))) := by
  induction n generalizing c m with
  | zero =>
    rw [Nat.add_zero, numeral?_of_lt h.lt_volume, ← (writes_iff h.lt_volume).1 h]
    rfl
  | succ n ih =>
    have hsum : m + (n + 1) = m + 1 + n := by omega
    rw [advanceUpTo, advance_eq h, Checked.ok_bind, hsum]
    rcases Nat.lt_or_ge (m + 1) (volume rs) with hlt | hge
    · have hlater := ih (c := { c with digits := numeral rs (m + 1) }) (writes_numeral hlt)
      rw [moveTo_of_length_eq ((length_numeral rs _).trans h.length_eq.symm)] at hlater
      rw [numeral?_of_lt hlt]
      exact hlater
    · -- the last numeral has been passed, and the steps end here
      rw [numeral?_of_le hge, numeral?_of_le (by omega)]
      rfl

/-- **One move by an amount is that many steps.** From digits in range, behind the mark or not, the two
answer the same and leave the same counter. -/
theorem advanceBy_eq_advanceUpTo (c : Counter) (rs : List Word) (amount : Word)
    (hlen : c.digits.length = rs.length) (h : InRange (wheels c.digits rs)) :
    ∃ reached d, c.advanceBy amount rs = .ok (reached, d) ∧
      advanceUpTo rs amount.toNat c = .ok (reached, d) := by
  have hwrites : Writes c.digits rs (c.value rs) := ⟨hlen, h, rfl⟩
  exact ⟨_, _, advanceBy_eq hwrites amount, advanceUpTo_eq hwrites amount.toNat⟩

/-- Three steps behind the mark, with a carry. -/
theorem advanceBy_eq_advanceUpTo_three :
    ([0, 2] : List Word).length = [2, 3].length ∧ InRange (wheels [0, 2] [2, 3]) ∧
    advanceBy ⟨[0, 2], true⟩ 3 [2, 3] = .ok (true, ⟨[1, 2], true⟩) ∧
    advanceUpTo [2, 3] 3 ⟨[0, 2], true⟩ = .ok (true, ⟨[1, 2], true⟩) := by
  have h : InRange (wheels [0, 2] [2, 3]) := by decide
  obtain ⟨reached, d, hmove, hsteps⟩ := advanceBy_eq_advanceUpTo ⟨[0, 2], true⟩ [2, 3] 3 rfl h
  have hthree : advanceBy ⟨[0, 2], true⟩ 3 [2, 3] = .ok (true, ⟨[1, 2], true⟩) := rfl
  rw [hthree] at hmove
  obtain ⟨rfl, rfl⟩ := Prod.mk.inj (Except.ok.inj hmove)
  exact ⟨rfl, h, hthree, hsteps⟩

end LexProduct.Counter
