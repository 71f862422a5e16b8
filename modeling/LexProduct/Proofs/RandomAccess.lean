import LexProduct.Proofs.Enumeration

/-!
# Access by rank

A rank says all there is to say about a pass that has a next tuple: seeking it leads to that very pass,
from wherever one starts and however the pass was reached.

* `seek_restarts_at_rank`: a seek starts the enumeration again at its rank, and refuses a rank past the
  last tuple without touching the pass;
* `rank_determines_pass`: seeking the rank of a pass or an open pass reproduces it;
* `access_by_rank_agrees`: access by rank, one long skip and repeated draws find the same tuple.
-/

namespace LexProduct

open MixedRadix

variable {α : Type}

/-! ### Seeks -/

namespace Pass

variable {p : Pass α} {g : Grid α}

theorem Over.seek_of_lt (h : p.Over g) {r : Word} (hr : r.toNat < g.count) :
    p.seek r = .ok (.ok (g.passAt r.toNat)) := by
  rw [seek_eq h.sound, h.grid_eq, if_pos hr]

theorem Over.seek_of_le (h : p.Over g) {r : Word} (hr : g.count ≤ r.toNat) :
    p.seek r = .ok (.error (.rankOutOfRange r (UInt64.ofNat g.count))) := by
  rw [seek_eq h.sound, h.grid_eq, if_neg (Nat.not_lt.2 hr)]

theorem call_seek_of_error {r : Word} {e : ProductError} (h : p.seek r = .ok (.error e)) :
    p.call (.seek r) = .ok (.refused e, p) := by
  obtain ⟨⟨answer, q⟩, hseek, hanswer⟩ := Checked.bind_eq_ok_iff.1 h
  cases answer with
  | ok u => cases hanswer
  | error e' =>
    obtain rfl := eq_of_trySeek_error hseek
    cases hanswer
    rw [call, hseek]
    rfl

/-- **A seek reproduces a pass exactly when the pass has its rank.** -/
theorem Over.hasRank_iff_seek {q : Pass α} (hp : p.Over g) (hq : q.Over g) (r : Word) :
    p.HasRank r.toNat ↔ q.seek r = .ok (.ok p) := by
  constructor
  · intro hrank
    obtain ⟨hlt, heq⟩ := hp.sound.eq_passAt_of_hasRank hrank
    rw [hp.grid_eq] at hlt heq
    rw [hq.seek_of_lt hlt, ← heq]
  · intro hseek
    rcases Nat.lt_or_ge r.toNat g.count with hlt | hge
    · rw [hq.seek_of_lt hlt, Except.ok.injEq, Except.ok.injEq] at hseek
      rw [← hseek]
      exact hasRank_passAt hlt
    · rw [hq.seek_of_le hge] at hseek
      simp at hseek

end Pass

/-- **A seek starts the enumeration again at its rank.** Let `r` be the rank of a tuple. Then there is one
pass to which a seek of `r` leads after any history: its position is the digits of `r`, its rank is `r`,
and it draws the tuples from rank `r` on. Otherwise the number of tuples is a word, the refusal names
`r` and that number, and the pass stays as it was. -/
theorem seek_restarts_at_rank (g : Grid α) (r : Word) :
    if r.toNat < g.tuples.length then
      ∃ q : Pass α, (∃ ds, q.position = some ds ∧ Writes ds g.radices r.toNat) ∧
        q.rank = some r ∧ Yields Pass.next q (g.tuples.drop r.toNat) ∧
        ∀ calls : List Pass.Call, ∃ answers p, g.pass.run calls = .ok (answers, p) ∧
          p.seek r = .ok (.ok q)
    else
      ∃ n : Word, n.toNat = g.tuples.length ∧ g.cardinality = .ok n ∧
        ∀ calls : List Pass.Call, ∃ answers p, g.pass.run calls = .ok (answers, p) ∧
          p.seek r = .ok (.error (.rankOutOfRange r n)) ∧
          p.call (.seek r) = .ok (.refused (.rankOutOfRange r n), p) := by
  rw [g.length_tuples]
  split
  · rename_i hlt
    have hvolume := g.count_of_not_isVoid (Grid.not_isVoid_of_lt_count hlt) ▸ hlt
    have hsound := Pass.sound_passAt g r.toNat
    refine ⟨g.passAt r.toNat, ⟨_, Pass.position_passAt hlt, writes_numeral hvolume⟩,
      (hsound.rank_eq_some_iff r).2 (Pass.hasRank_passAt hlt), ?_, fun calls => ?_⟩
    · rw [← Pass.rest_passAt]
      exact Pass.yields_rest hsound
    · obtain ⟨answers, p, hrun, hp⟩ := Pass.exists_run_over (Pass.over_pass g) calls
      exact ⟨answers, p, hrun, hp.seek_of_lt hlt⟩
  · rename_i hnot
    have hge : g.count ≤ r.toNat := Nat.not_lt.1 hnot
    refine ⟨UInt64.ofNat g.count, UInt64.toNat_ofNat_of_lt' (Nat.lt_of_le_of_lt hge r.toNat_lt), ?_,
      fun calls => ?_⟩
    · rw [Grid.cardinality, Grid.cardinality?_of_count_le hge]
    · obtain ⟨answers, p, hrun, hp⟩ := Pass.exists_run_over (Pass.over_pass g) calls
      exact ⟨answers, p, hrun, hp.seek_of_le hge, Pass.call_seek_of_error (hp.seek_of_le hge)⟩

/-! ### Bookmarks -/

/-- **A rank is a bookmark.** After any history, the word `r` is the rank of the next tuple exactly when
a seek of `r` on a new pass over the same grid leads to the same grid and the same counter. That holds
for open passes, also if they have registered dimensions between draws, and for passes, which may also
seek their own rank in place. From there on an open pass and the pass answer all calls that they have in
common alike, and stay the same. -/
theorem rank_determines_pass :
    (∀ (policy : EmptyPolicy) (calls : List (OpenPass.Call α)), ∃ answers o,
      (OpenPass.empty policy).run calls = .ok (answers, o) ∧
      (∀ r : Word, o.HasRank r.toNat ↔ o.grid.pass.seek r = .ok (.ok o.toPass)) ∧
      ∀ later : List CommonCall, ∃ answers' q,
        o.toPass.run (later.map CommonCall.toPass) = .ok (answers', q) ∧
        o.run (later.map CommonCall.toOpenPass) = .ok (answers', ⟨q⟩)) ∧
    ∀ (g : Grid α) (calls : List Pass.Call), ∃ answers p, g.pass.run calls = .ok (answers, p) ∧
      (∀ r : Word, p.HasRank r.toNat ↔ g.pass.seek r = .ok (.ok p)) ∧
      ∀ r : Word, p.rank = some r ↔ p.seek r = .ok (.ok p) := by
  constructor
  · intro policy calls
    obtain ⟨answers, o, hrun, ho⟩ := OpenPass.exists_run (OpenPass.sound_empty policy) calls
    have hover : o.toPass.Over o.grid := ⟨ho, rfl⟩
    refine ⟨answers, o, hrun, hover.hasRank_iff_seek (Pass.over_pass o.grid), fun later => ?_⟩
    obtain ⟨answers', q, hlater, -⟩ := Pass.exists_run ho (later.map CommonCall.toPass)
    refine ⟨answers', q, hlater, ?_⟩
    rw [CommonCall.run_toOpenPass]
    exact OpenPass.drive_of_ok hlater
  · intro g calls
    obtain ⟨answers, p, hrun, hp⟩ := Pass.exists_run_over (Pass.over_pass g) calls
    refine ⟨answers, p, hrun, hp.hasRank_iff_seek (Pass.over_pass g), fun r => ?_⟩
    rw [hp.sound.rank_eq_some_iff]
    exact hp.hasRank_iff_seek hp r

/-! ### Three ways to a tuple -/

/-- **Access by rank agrees with the enumeration.** The tuple of rank `r`, the draw after `r` others on a
new pass, and the last of `r + 1` draws on a new pass are one answer, entry `r` of the product. There is
one exactly when `r` is below the number of tuples; where that number is no word, and only there, no
word is left out. -/
theorem access_by_rank_agrees (g : Grid α) (r : Word) :
    ∃ t, t = g.tuples[r.toNat]? ∧ g.get? r = .ok t ∧ (∃ q, g.pass.nth r = .ok (t, q)) ∧
      (∃ ts q, repeatedly Pass.next (r.toNat + 1) g.pass = .ok (ts, q) ∧ ts.getLast? = some t) ∧
      (t.isSome = true ↔ r.toNat < g.tuples.length) ∧
      (g.cardinality = .error .cardinalityOverflow ↔ ∀ w : Word, w.toNat < g.tuples.length) := by
  have hskip := Pass.nth_eq (Pass.sound_pass g) r
  have hdraws := Pass.repeatedly_next (Pass.sound_pass g) r.toNat
  rw [Pass.rest_pass] at hskip hdraws
  refine ⟨_, rfl, g.get?_eq r, ⟨_, hskip⟩, ⟨_, _, hdraws, getLast?_range_map _ _⟩, by simp, ?_⟩
  rw [g.cardinality_eq_error_iff, g.length_tuples]
  constructor
  · intro h w
    exact Nat.lt_of_lt_of_le w.toNat_lt h
  · intro h
    exact h Word.maxValue

end LexProduct
