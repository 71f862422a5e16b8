import LexProduct.Proofs.Call

/-!
# Passes that have run out

A draw that finds nothing leaves the mark of a pass that has run out, whether the grid was void, the
skip went past the last tuple or the mark stood there before. The mark survives every call but a seek
that succeeds, and under it no question is answered with a tuple:

* `Pass.exhausted_behind`: a draw that finds nothing marks its pass;
* `Pass.spent_of_exhausted`, `OpenPass.spent_of_isExhausted`: all that a marked pass answers;
* `Pass.exhausted_of_run`, `OpenPass.isExhausted_of_run`: the mark stays through a run;
* `exhaustion_is_permanent`: once a draw has found nothing, no later one finds anything.

An open pass has no seek, so nothing revives it, not even a dimension registered afterwards.
-/

namespace LexProduct

variable {α : Type}

/-! ### Passes -/

namespace Pass

variable {p q : Pass α}

/-- Draws find nothing and change nothing, and every question says that nothing is left. -/
structure Spent (p : Pass α) : Prop where
  next : p.next = .ok (none, p)
  nth (n : Word) : p.nth n = .ok (none, p)
  position : p.position = none
  rank : p.rank = none
  remaining : p.remaining = .ok (some 0)
  sizeHint : p.sizeHint = .ok (0, some 0)

theorem spent_of_exhausted (he : p.counter.exhausted = true) : p.Spent := by
  have hposition : p.position = none := position_eq_none_iff.2 (.inl he)
  have hremaining : p.remaining = .ok (some 0) := Counter.remaining?_of_void (.inl he)
  refine ⟨if_pos he, fun n => if_pos he, hposition, ?_, hremaining, ?_⟩
  · rw [rank, hposition]
    rfl
  · rw [sizeHint, hremaining]
    rfl

theorem exhausted_behind {n : Nat} (h : p.rest[n]? = none) :
    (p.behind n).counter.exhausted = true := by
  cases hv : p.grid.isVoid with
  | true =>
    rw [behind_of_isVoid hv]
    rfl
  | false =>
    -- what is missing lies past the last tuple
    have hcount := p.grid.count_of_not_isVoid hv
    have hleft := p.left_le_count
    rw [List.getElem?_eq_none_iff, length_rest] at h
    have hpast : MixedRadix.volume p.grid.radices ≤ p.place + n + 1 := by
      unfold place
      omega
    rw [behind_of_not_isVoid hv, Grid.passAt_of_le hpast]
    rfl

theorem Spent.behind_eq (hs : p.Spent) (h : p.Sound) (n : Word) : p.behind n.toNat = p := by
  have hnth := nth_eq h n
  rw [hs.nth n] at hnth
  exact (Prod.mk.inj (Except.ok.inj hnth)).2.symm

/-- Only a seek that succeeds takes the mark away, and only such a seek answers `done`. -/
theorem Effect.exhausted {c : Call} {a : Answer α} (hc : p.Effect c a q) (h : p.Sound)
    (he : p.counter.exhausted = true) (ha : a ≠ .done) : q.counter.exhausted = true := by
  have hs := spent_of_exhausted he
  cases hc with
  | next => exact (congrArg (·.counter.exhausted) (hs.behind_eq h 0)).trans he
  | nth n => rw [hs.behind_eq h n, he]
  | sought r hr => exact absurd rfl ha
  | refused r hr => exact he
  | question hc => exact he

/-- **The mark stays through a run** in which no seek succeeds. -/
theorem exhausted_of_run {calls : List Call} {answers : List (Answer α)} (h : p.Sound)
    (hrun : p.run calls = .ok (answers, q)) (he : p.counter.exhausted = true)
    (hseek : .done ∉ answers) : q.counter.exhausted = true := by
  have hkeeps : q.Sound ∧ q.counter.exhausted = true := by
    refine keeps_of_runAll (J := fun p : Pass α => p.Sound ∧ p.counter.exhausted = true)
      (Q := (· ≠ .done)) ?_ hrun ⟨h, he⟩ ?_
    · rintro c s b t hc ⟨hs, hes⟩ hb
      have heffect := effect_of_call hs hc
      exact ⟨heffect.sound hs, heffect.exhausted hs hes hb⟩
    · rintro b hb rfl
      exact hseek hb
  exact hkeeps.2

theorem sound_and_exhausted_of_draw (h : p.Sound)
    (hdraw : p.next = .ok (none, q) ∨ ∃ n, p.nth n = .ok (none, q)) :
    q.Sound ∧ q.counter.exhausted = true := by
  rcases hdraw with hnext | ⟨n, hnth⟩
  · rw [next_eq h] at hnext
    obtain ⟨hrest, rfl⟩ := Prod.mk.inj (Except.ok.inj hnext)
    exact ⟨h.behind 0, exhausted_behind hrest⟩
  · rw [nth_eq h] at hnth
    obtain ⟨hrest, rfl⟩ := Prod.mk.inj (Except.ok.inj hnth)
    exact ⟨h.behind n.toNat, exhausted_behind hrest⟩

end Pass

/-! ### Open passes -/

namespace OpenPass

variable {o q : OpenPass α}

/-- Draws find nothing and change nothing, and every question says that nothing is left. -/
structure Spent (o : OpenPass α) : Prop where
  next : o.next = .ok (none, o)
  nth (n : Word) : o.nth n = .ok (none, o)
  isExhausted : o.isExhausted = true
  position : o.position = none
  remaining : o.remaining = .ok (some 0)
  sizeHint : o.sizeHint = .ok (0, some 0)

theorem spent_of_isExhausted (he : o.isExhausted = true) : o.Spent := by
  have hs := Pass.spent_of_exhausted he
  exact ⟨drive_of_ok hs.next, fun n => drive_of_ok (hs.nth n), he, hs.position, hs.remaining,
    hs.sizeHint⟩

theorem eq_ok_of_drive {β : Type} {draw : Pass α → Checked (β × Pass α)} {b : β}
    (h : o.drive draw = .ok (b, q)) : draw o.toPass = .ok (b, q.toPass) := by
  rw [drive] at h
  cases hd : draw o.toPass with
  | error e =>
    rw [hd] at h
    cases h
  | ok r =>
    rw [hd] at h
    obtain ⟨rfl, rfl⟩ := Prod.mk.inj (Except.ok.inj h)
    rfl

/-- No call takes the mark away; a registration only pushes a digit. -/
theorem Effect.isExhausted {c : Call α} {a : Answer α} (hc : o.Effect c a q) (h : o.Sound)
    (he : o.isExhausted = true) : q.isExhausted = true := by
  have hs := Pass.spent_of_exhausted he
  cases hc with
  | register d => exact he
  | taken d hd => exact he
  | refused d hd => exact he
  | next => exact (congrArg (·.counter.exhausted) (hs.behind_eq h 0)).trans he
  | nth n => exact (congrArg (·.counter.exhausted) (hs.behind_eq h n)).trans he
  | question hc => exact he

/-- **The mark stays through every run**, whatever is registered. -/
theorem isExhausted_of_run {calls : List (Call α)} {answers : List (Answer α)} (h : o.Sound)
    (hrun : o.run calls = .ok (answers, q)) (he : o.isExhausted = true) : q.isExhausted = true := by
  have hkeeps : q.Sound ∧ q.isExhausted = true := by
    refine keeps_of_runAll (J := fun o : OpenPass α => o.Sound ∧ o.isExhausted = true)
      (Q := fun _ => True) ?_ hrun ⟨h, he⟩ fun _ _ => trivial
    rintro c s b t hc ⟨hs, hes⟩ -
    have heffect := effect_of_call hs hc
    exact ⟨heffect.sound hs, heffect.isExhausted hs hes⟩
  exact hkeeps.2

end OpenPass

/-! ### After any history -/

/-- **Exhaustion is permanent.** Let a draw after any history find nothing, be it the next one or one
after `n` others. Behind it an open pass is spent after any further history, whatever that registers. A
pass is spent after any further history in which no seek has succeeded, that is, in which no call has
been answered by `done`. -/
theorem exhaustion_is_permanent :
    (∀ (policy : EmptyPolicy) (calls : List (OpenPass.Call α)), ∃ answers o,
      (OpenPass.empty policy).run calls = .ok (answers, o) ∧
      ∀ q : OpenPass α, (o.next = .ok (none, q) ∨ ∃ n, o.nth n = .ok (none, q)) →
        ∀ later, ∃ answers' r, q.run later = .ok (answers', r) ∧ r.Spent) ∧
    ∀ (g : Grid α) (calls : List Pass.Call), ∃ answers p, g.pass.run calls = .ok (answers, p) ∧
      ∀ q : Pass α, (p.next = .ok (none, q) ∨ ∃ n, p.nth n = .ok (none, q)) →
        ∀ later, ∃ answers' r, q.run later = .ok (answers', r) ∧ (.done ∉ answers' → r.Spent) := by
  constructor
  · intro policy calls
    obtain ⟨answers, o, hrun, ho⟩ := OpenPass.exists_run (OpenPass.sound_empty policy) calls
    refine ⟨answers, o, hrun, ?_⟩
    intro q hdraw later
    have hdraw' : o.toPass.next = .ok (none, q.toPass) ∨ ∃ n, o.toPass.nth n = .ok (none, q.toPass) :=
      hdraw.imp OpenPass.eq_ok_of_drive fun ⟨n, h⟩ => ⟨n, OpenPass.eq_ok_of_drive h⟩
    obtain ⟨hq, he⟩ := Pass.sound_and_exhausted_of_draw ho hdraw'
    obtain ⟨answers', r, hlater, -⟩ := OpenPass.exists_run hq later
    refine ⟨answers', r, hlater, ?_⟩
    exact OpenPass.spent_of_isExhausted (OpenPass.isExhausted_of_run hq hlater he)
  · intro g calls
    obtain ⟨answers, p, hrun, hp⟩ := Pass.exists_run (Pass.sound_pass g) calls
    refine ⟨answers, p, hrun, ?_⟩
    intro q hdraw later
    obtain ⟨hq, he⟩ := Pass.sound_and_exhausted_of_draw hp hdraw
    obtain ⟨answers', r, hlater, -⟩ := Pass.exists_run hq later
    refine ⟨answers', r, hlater, fun hseek => ?_⟩
    exact Pass.spent_of_exhausted (Pass.exhausted_of_run hq hlater he hseek)

/-- A dimension registered behind the last tuple finds no tuple again. -/
example : (do
    let (_, o) ← (OpenPass.ofList [Dimension.ofList [1]]).drive Pass.collect
    let (t, _) ← (o.register (Dimension.ofList [2, 3])).next
    return t : Checked (Option (List Nat))) = .ok none := rfl

end LexProduct
