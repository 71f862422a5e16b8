import LexProduct.Proofs.Representation

/-!
# Refused registrations

Only a guarded registration of an open pass can be refused, and then nothing has happened: neither the
grid nor the counter has moved. Wherever it is not refused it is a plain registration. So a history tells
the same without its refused calls, and with plain calls in place of the guarded ones:

* `OpenPass.call_tryRegister`: what a guarded registration does, in terms of a plain one;
* `runAll_filter`, `runAll_replace`: how that carries over to whole histories;
* `Grid.zero_notMem_radices_of_guarded`: guarded registrations alone let no empty dimension into a strict
  grid;
* `refused_registrations_leave_no_trace`: the three together, after any history.
-/

namespace LexProduct

variable {α : Type}

/-! ### Single calls -/

namespace OpenPass

/-- The call with this answer is a guarded registration that has been refused. -/
def isRefusal : Call α × Answer α → Bool
  | (.tryRegister _, .refused _) => true
  | _ => false

/-- The call with this answer, but a plain registration where a guarded one has succeeded. -/
def unguarded : Call α × Answer α → Call α
  | (.tryRegister d, .done) => .register d
  | (c, _) => c

/-- **A guarded registration is refused or plain.** -/
theorem call_tryRegister (o : OpenPass α) (d : Dimension α) :
    o.call (.tryRegister d) =
      if o.grid.policy = .refuse ∧ d.length = 0 then
        .ok (.refused (.emptyDimension o.grid.dimensions.length), o)
      else .ok (.done, o.register d) := by
  rw [call, offer_eq]
  cases hd : o.grid.policy.accepts d.length with
  | true =>
    rw [if_pos rfl, if_neg fun h => by simp [EmptyPolicy.accepts_eq_false_iff.2 h] at hd]
    rfl
  | false =>
    rw [if_neg Bool.false_ne_true, if_pos (EmptyPolicy.accepts_eq_false_iff.1 hd)]
    rfl

theorem eq_of_isRefusal {c : Call α} {o q : OpenPass α} {a : Answer α} (hc : o.call c = .ok (a, q))
    (ha : isRefusal (c, a) = true) : q = o := by
  unfold isRefusal at ha
  split at ha
  · rename_i d e heq
    obtain ⟨rfl, rfl⟩ := Prod.mk.inj heq
    exact eq_of_offer_error (Answer.ofAttempt_eq_refused_iff.1 (Except.ok.inj hc))
  · simp at ha

theorem call_unguarded {c : Call α} {o q : OpenPass α} {a : Answer α} (hc : o.call c = .ok (a, q)) :
    o.call (unguarded (c, a)) = .ok (a, q) := by
  unfold unguarded
  split
  · rename_i d heq
    obtain ⟨rfl, rfl⟩ := Prod.mk.inj heq
    rw [call_tryRegister] at hc
    split at hc
    · simp at hc
    · exact hc
  · rename_i heq
    obtain ⟨rfl, rfl⟩ := Prod.mk.inj heq
    exact hc

end OpenPass

/-! ### Strict grids -/

namespace Grid

theorem length_ne_zero_of_mem_added {d e : Dimension α}
    (h : e ∈ (Update.tryRegister d).added .refuse) : e.length ≠ 0 := by
  rw [Update.added] at h
  intro hzero
  split at h
  · rename_i hd
    obtain rfl := List.mem_singleton.1 h
    simp [EmptyPolicy.accepts_eq_false_iff.2 ⟨rfl, hzero⟩] at hd
  · simp at h

/-- **Guarded registrations alone let no empty dimension into a strict grid.** -/
theorem zero_notMem_radices_of_guarded {us : List (Update α)}
    (h : ∀ u ∈ us, ∃ d, u = .tryRegister d) : 0 ∉ ((Grid.empty .refuse).updates us).radices := by
  rw [radices_eq, dimensions_updates, List.mem_map]
  rintro ⟨e, he, hzero⟩
  rcases List.mem_append.1 he with he | he
  · simp [Grid.empty] at he
  · obtain ⟨u, hu, hadded⟩ := List.mem_flatMap.1 he
    obtain ⟨d, rfl⟩ := h u hu
    exact length_ne_zero_of_mem_added hadded hzero

theorem tuples_eq_nil_iff_of_zero_notMem {g : Grid α} (h : 0 ∉ g.radices) :
    g.tuples = [] ↔ g.dimensions = [] := by
  rw [← List.length_eq_zero_iff, g.length_tuples, ← g.isVoid_iff_count_eq_zero, isVoid,
    MixedRadix.isVoid_iff, or_iff_left h, g.radices_eq, List.map_eq_nil_iff]

end Grid

theorem OpenPass.exists_tryRegister_of_mem_updates {calls : List (OpenPass.Call α)}
    (h : ∀ d, .register d ∉ calls) :
    ∀ u ∈ calls.flatMap OpenPass.Call.updates, ∃ d, u = .tryRegister d := by
  intro u hu
  obtain ⟨c, hc, hu⟩ := List.mem_flatMap.1 hu
  cases c with
  | register d => exact absurd hc (h d)
  | tryRegister d => exact ⟨d, List.mem_singleton.1 hu⟩
  | _ => exact absurd hu List.not_mem_nil

/-! ### After any history -/

/-- **Refused registrations leave no trace.** After any history the grid is the one that its registrations
make by themselves, where a refused one changes nothing. A further guarded registration is refused exactly
if the policy is strict and the dimension empty, with the number of dimensions so far as its place, and
nothing changes; otherwise it is a plain registration. Without its refused registrations the history gets
all its other answers and leaves the same open pass, and so it does with plain registrations in place of
the guarded ones that succeed. A strict pass without plain registrations has no empty dimension, and its
product has no tuple only as long as there is no dimension at all. -/
theorem refused_registrations_leave_no_trace (policy : EmptyPolicy)
    (calls : List (OpenPass.Call α)) :
    ∃ answers o, (OpenPass.empty policy).run calls = .ok (answers, o) ∧
      answers.length = calls.length ∧
      o.grid = (Grid.empty policy).updates (calls.flatMap OpenPass.Call.updates) ∧
      (∀ d : Dimension α, o.call (.tryRegister d) =
        if policy = .refuse ∧ d.length = 0 then
          .ok (.refused (.emptyDimension o.grid.dimensions.length), o)
        else .ok (.done, o.register d)) ∧
      (let kept := (calls.zip answers).filter fun entry => !OpenPass.isRefusal entry
       (OpenPass.empty policy).run (kept.map Prod.fst) = .ok (kept.map Prod.snd, o)) ∧
      (OpenPass.empty policy).run ((calls.zip answers).map OpenPass.unguarded) = .ok (answers, o) ∧
      (policy = .refuse → (∀ d, .register d ∉ calls) →
        0 ∉ o.grid.radices ∧ (o.grid.tuples = [] ↔ o.grid.dimensions = [])) := by
  have hempty := OpenPass.sound_empty (α := α) policy
  obtain ⟨answers, o, hrun, -⟩ := OpenPass.exists_run hempty calls
  have hgrid := OpenPass.grid_of_run hempty hrun
  refine ⟨answers, o, hrun, length_of_runAll hrun, hgrid, ?_, ?_, ?_, ?_⟩
  · intro d
    have hpolicy : o.grid.policy = policy := by
      rw [hgrid, Grid.policy_updates]
      rfl
    rw [OpenPass.call_tryRegister, hpolicy]
  · refine runAll_filter (fun c s a t hc hkeep => ?_) hrun
    exact OpenPass.eq_of_isRefusal hc (by simpa using hkeep)
  · exact runAll_replace (fun c s a t hc => OpenPass.call_unguarded hc) hrun
  · rintro rfl hguarded
    have hradices : 0 ∉ o.grid.radices := by
      rw [hgrid]
      exact Grid.zero_notMem_radices_of_guarded (OpenPass.exists_tryRegister_of_mem_updates hguarded)
    exact ⟨hradices, Grid.tuples_eq_nil_iff_of_zero_notMem hradices⟩

end LexProduct
