import LexProduct.Pass
import LexProduct.Proofs.Counter
import LexProduct.Proofs.Tuples

/-!
# Passes by rank

`g.passAt n` is the pass over `g` whose next tuple has rank `n`. A sound pass over a grid that is not
void is one of these, whatever was done with it before (`Sound.eq_passAt`), and the operations only
count:

* `Sound.rank_eq_some_iff`: the rank is answered whenever it is a word;
* `next_passAt`, `nth_passAt`: a draw answers the tuple of its rank and moves the rank behind it;
* `trySeek_eq`: a seek goes to the rank it is given, from wherever the pass stands.
-/

namespace LexProduct

open MixedRadix

variable {α : Type}

/-- The pass whose next tuple has rank `n`. It has run out if there is no such tuple. -/
def Grid.passAt (g : Grid α) (n : Nat) : Pass α :=
  ⟨g, Counter.showing g.radices n⟩

namespace Grid

variable {g : Grid α}

theorem zero_notMem_radices (hv : g.isVoid = false) : 0 ∉ g.radices := (isVoid_eq_false_iff.1 hv).2

theorem passAt_of_lt {n : Nat} (h : n < volume g.radices) :
    g.passAt n = ⟨g, { digits := numeral g.radices n }⟩ := by rw [passAt, Counter.showing_of_lt h]

theorem passAt_of_le {n : Nat} (h : volume g.radices ≤ n) :
    g.passAt n = ⟨g, Counter.ended g.size⟩ := by
  rw [passAt, Counter.showing_of_le h, length_radices]

theorem pass_eq_passAt (hv : g.isVoid = false) : g.pass = g.passAt 0 := by
  rw [passAt_of_lt (volume_pos (zero_notMem_radices hv)), numeral_zero, length_radices]
  rfl

end Grid

namespace Pass

variable {g : Grid α} {p : Pass α}

/-- The counter of the pass fits the radices of its grid. -/
def Sound (p : Pass α) : Prop := p.counter.Fits p.grid.radices

/-- The rank of the next tuple, or the number of all tuples if none is left. -/
def place (p : Pass α) : Nat := p.grid.count - p.left

/-- There is a next tuple and its rank is `n`: read as a numeral, the position has the value `n`. -/
def HasRank (p : Pass α) (n : Nat) : Prop :=
  ∃ ds, p.position = some ds ∧ value (wheels ds p.grid.radices) = n

/-! ### Sound passes -/

theorem sound_pass (g : Grid α) : g.pass.Sound := by
  show (Counter.zeroed g.size).Fits g.radices
  rw [← g.length_radices]
  exact Counter.fits_zeroed g.radices

theorem sound_passAt (g : Grid α) (n : Nat) : (g.passAt n).Sound := Counter.fits_showing g.radices n

theorem left_of_position_eq_none (h : p.position = none) : p.left = 0 := by rw [left, h]

theorem position_eq_none_iff :
    p.position = none ↔ p.counter.exhausted = true ∨ p.grid.isVoid = true := by
  rw [position, ← Bool.or_eq_true]
  split <;> simp_all

theorem running_of_position_eq_some {ds : List Word} (h : p.position = some ds) :
    p.counter.exhausted = false ∧ p.grid.isVoid = false := by
  have hnot : ¬ (p.counter.exhausted = true ∨ p.grid.isVoid = true) := fun hor => by
    rw [position_eq_none_iff.2 hor] at h
    exact nomatch h
  rwa [not_or, Bool.not_eq_true, Bool.not_eq_true] at hnot

theorem position_of_running (he : p.counter.exhausted = false) (hv : p.grid.isVoid = false) :
    p.position = some p.counter.digits := by
  rw [position, he, hv]
  rfl

theorem left_of_running (he : p.counter.exhausted = false) (hv : p.grid.isVoid = false) :
    p.left = p.grid.count - p.counter.value p.grid.radices := by
  rw [left, position_of_running he hv]
  rfl

theorem left_le_count (p : Pass α) : p.left ≤ p.grid.count := by
  unfold left
  split
  · exact Nat.zero_le _
  · exact Nat.sub_le ..

theorem Sound.place_of_running (h : p.Sound) (he : p.counter.exhausted = false)
    (hv : p.grid.isVoid = false) : p.place = p.counter.value p.grid.radices := by
  have hlt := h.value_lt (Grid.zero_notMem_radices hv)
  rw [place, left_of_running he hv, p.grid.count_of_not_isVoid hv]
  omega

/-- **A sound pass is known by its rank**, unless its grid has no tuples. -/
theorem Sound.eq_passAt (h : p.Sound) (hv : p.grid.isVoid = false) :
    p = p.grid.passAt p.place := by
  have h0 := Grid.zero_notMem_radices hv
  have hcount := p.grid.count_of_not_isVoid hv
  cases he : p.counter.exhausted with
  | true =>
    -- it shows zeros, as any pass does behind the last tuple
    have hplace : p.place = volume p.grid.radices := by
      rw [place, left_of_position_eq_none (position_eq_none_iff.2 (.inl he)), hcount, Nat.sub_zero]
    rw [hplace, Grid.passAt_of_le (Nat.le_refl _), ← p.grid.length_radices, ← h.eq_ended h0 he]
  | false => rw [h.place_of_running he hv, Grid.passAt, ← h.eq_showing h0 he]

@[simp] theorem left_passAt (g : Grid α) (n : Nat) : (g.passAt n).left = g.count - n := by
  cases hv : g.isVoid with
  | true =>
    rw [left_of_position_eq_none (position_eq_none_iff.2 (.inr hv)), g.count_of_isVoid hv,
      Nat.zero_sub]
  | false =>
    rw [g.count_of_not_isVoid hv]
    rcases Nat.lt_or_ge n (volume g.radices) with h | h
    · rw [Grid.passAt_of_lt h, left_of_running rfl hv, g.count_of_not_isVoid hv,
        Counter.value_numeral_of_lt h]
    · rw [Grid.passAt_of_le h, left_of_position_eq_none (position_eq_none_iff.2 (.inl rfl))]
      omega

/-! ### What a pass tells about its rank -/

theorem Sound.eq_passAt_of_hasRank {n : Nat} (h : p.Sound) (hn : p.HasRank n) :
    n < p.grid.count ∧ p = p.grid.passAt n := by
  obtain ⟨ds, hp, hvalue⟩ := hn
  obtain ⟨he, hv⟩ := running_of_position_eq_some hp
  have hlt := h.value_lt (Grid.zero_notMem_radices hv)
  have hplace := h.place_of_running he hv
  have heq := h.eq_passAt hv
  rw [position_of_running he hv, Option.some.injEq] at hp
  rw [Counter.value, hp, hvalue] at hlt hplace
  rw [hplace] at heq
  exact ⟨p.grid.count_of_not_isVoid hv ▸ hlt, heq⟩

/-- **The rank is answered exactly when it is a word.** -/
theorem Sound.rank_eq_some_iff (h : p.Sound) (r : Word) : p.rank = some r ↔ p.HasRank r.toNat := by
  rw [rank, HasRank, Option.bind_eq_some_iff]
  refine exists_congr fun ds => and_congr_right fun hp => ?_
  obtain ⟨he, hv⟩ := running_of_position_eq_some hp
  rw [position_of_running he hv, Option.some.injEq] at hp
  rw [rank?_of_inRange (hp ▸ h.inRange (Grid.zero_notMem_radices hv)), Word.ofNat?_eq_some_iff,
    eq_comm]

theorem position_passAt {n : Nat} (h : n < g.count) :
    (g.passAt n).position = some (numeral g.radices n) := by
  rw [Grid.passAt_of_lt (Grid.lt_volume_of_lt_count h),
    position_of_running rfl (Grid.not_isVoid_of_lt_count h)]

theorem position_passAt_of_le {n : Nat} (h : g.count ≤ n) : (g.passAt n).position = none := by
  cases hv : g.isVoid with
  | true => exact position_eq_none_iff.2 (.inr hv)
  | false =>
    rw [g.count_of_not_isVoid hv] at h
    rw [Grid.passAt_of_le h]
    rfl

theorem rank_of_position_eq_none (h : p.position = none) : p.rank = none := by rw [rank, h]; rfl

theorem rank_passAt {n : Nat} (h : n < g.count) : (g.passAt n).rank = Word.ofNat? n := by
  rw [rank, position_passAt h]
  exact (Grid.writes_of_lt_count h).rank?_eq

theorem hasRank_passAt {n : Nat} (h : n < g.count) : (g.passAt n).HasRank n :=
  ⟨_, position_passAt h, (Grid.writes_of_lt_count h).value_eq⟩

/-! ### Draws -/

/-- **A draw answers the tuple of its rank** and goes to the rank behind it. -/
theorem next_passAt (hv : g.isVoid = false) (n : Nat) :
    (g.passAt n).next = .ok (g.tuples[n]?, g.passAt (n + 1)) := by
  rcases Nat.lt_or_ge n (volume g.radices) with h | h
  · have hfits := Counter.fits_numeral g.radices n
    obtain ⟨t, hread, hget⟩ := g.exists_tupleAt hv (writes_numeral h)
    rw [hget, Grid.passAt_of_lt h, next, if_neg Bool.false_ne_true, if_neg (by simp [hv]), hread,
      Checked.ok_bind, Counter.advance_eq (writes_numeral h), Checked.ok_bind,
      Counter.moveTo_numeral? hfits rfl]
    rfl
  · rw [Grid.getElem?_tuples_of_le (g.count_of_not_isVoid hv ▸ h), Grid.passAt_of_le h,
      Grid.passAt_of_le (Nat.le_succ_of_le h)]
    rfl

theorem nth_passAt (hv : g.isVoid = false) (n : Nat) (k : Word) :
    (g.passAt n).nth k = .ok (g.tuples[n + k.toNat]?, g.passAt (n + k.toNat + 1)) := by
  have hcount := g.count_of_not_isVoid hv
  rcases Nat.lt_or_ge n (volume g.radices) with h | h
  · have hfits := Counter.fits_numeral g.radices n
    rw [Grid.passAt_of_lt h, nth, if_neg Bool.false_ne_true, if_neg (by simp [hv]),
      Counter.advanceBy_eq (writes_numeral h), Checked.ok_bind, Counter.moveTo_numeral? hfits rfl]
    rcases Nat.lt_or_ge (n + k.toNat) (volume g.radices) with hk | hk
    · -- the move stays inside the grid, and a draw follows it
      rw [decide_eq_true hk, ← next_passAt hv]
      rfl
    · -- the move itself passes the last tuple, and both sides have run out
      rw [decide_eq_false (Nat.not_lt.2 hk), Grid.getElem?_tuples_of_le (hcount ▸ hk), Grid.passAt,
        Counter.showing_of_le hk, Counter.showing_of_le (Nat.le_succ_of_le hk)]
      rfl
  · rw [Grid.getElem?_tuples_of_le (Nat.le_add_right_of_le (hcount ▸ h)), Grid.passAt_of_le h,
      Grid.passAt_of_le (by omega)]
    rfl

/-- The pass that found its grid void. -/
def stop (p : Pass α) : Pass α := { p with counter := p.counter.exhaust }

theorem Sound.stop (h : p.Sound) (hv : p.grid.isVoid = true) : p.stop.Sound :=
  Counter.Fits.exhaust h hv

theorem stop_of_exhausted (he : p.counter.exhausted = true) : p.stop = p := by
  rw [Pass.stop, Counter.exhaust, ← he]

theorem next_of_isVoid (hv : p.grid.isVoid = true) : p.next = .ok (none, p.stop) := by
  rw [next, if_pos hv]
  split
  · rename_i he
    rw [stop_of_exhausted he]
    rfl
  · rfl

theorem nth_of_isVoid (hv : p.grid.isVoid = true) (n : Word) : p.nth n = .ok (none, p.stop) := by
  rw [nth, if_pos hv]
  split
  · rename_i he
    rw [stop_of_exhausted he]
    rfl
  · rfl

/-! ### Seeks -/

/-- **A seek goes to its rank from wherever the pass stands.** A rank past the last tuple is refused, and
the pass stays. -/
theorem trySeek_eq (h : p.Sound) (r : Word) :
    p.trySeek r = .ok (if r.toNat < p.grid.count then (.ok (), p.grid.passAt r.toNat)
      else (.error (.rankOutOfRange r (UInt64.ofNat p.grid.count)), p)) := by
  rw [trySeek, Grid.unrank?_radices, Checked.ok_bind]
  rcases Nat.lt_or_ge r.toNat p.grid.count with hlt | hge
  · have hlen : p.counter.digits.length = (numeral p.grid.radices r.toNat).length := by
      rw [h.length_eq, length_numeral]
    rw [if_pos hlt, if_pos hlt, Grid.passAt_of_lt (Grid.lt_volume_of_lt_count hlt)]
    dsimp only
    rw [Counter.setDigits_eq hlen]
    rfl
  · -- the number of tuples is at most the rank, so the refusal can name it
    rw [if_neg (Nat.not_lt.2 hge), if_neg (Nat.not_lt.2 hge)]
    dsimp only
    rw [Grid.cardinality?_of_count_le hge]
    rfl

theorem seek_eq (h : p.Sound) (r : Word) :
    p.seek r = .ok (if r.toNat < p.grid.count then .ok (p.grid.passAt r.toNat)
      else .error (.rankOutOfRange r (UInt64.ofNat p.grid.count))) := by
  rw [seek, trySeek_eq h]
  split <;> rfl

/-- A refused seek changes nothing, be the pass sound or not. -/
theorem eq_of_trySeek_error {q : Pass α} {r : Word} {e : ProductError}
    (h : p.trySeek r = .ok (.error e, q)) : q = p := by
  obtain ⟨found, -, h⟩ := Checked.bind_eq_ok_iff.1 h
  cases found with
  | none => exact (Prod.mk.inj (Except.ok.inj h)).2.symm
  | some digits =>
    -- digits that are found are taken
    obtain ⟨counter, -, h⟩ := Checked.bind_eq_ok_iff.1 h
    cases (Prod.mk.inj (Except.ok.inj h)).1

end Pass

end LexProduct
