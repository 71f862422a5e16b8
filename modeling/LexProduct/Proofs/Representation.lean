import LexProduct.Proofs.Call
import Mathlib.Data.List.Forall2

/-!
# Lengths, digits and dimensions

A grid keeps the lengths of its dimensions beside them, and a pass keeps its digits apart from both.
Three lists grow in different places; this module says that they stay in step through every history:

* `Grid.dimensions_updates`: a grid holds the dimensions that its history adds, in their order;
* `Pass.inStep`: what soundness of a pass says about its digits, one by one;
* `OpenPass.grid_of_run`: the grid of an open pass is the grid of the registrations among its calls;
* `digits_in_step_with_dimensions`: the three together, after any history.

A digit can be compared with its radix only where the product has a tuple: below a radix of zero there is
no digit.
-/

namespace LexProduct

open MixedRadix

variable {α : Type}

/-! ### Grids -/

namespace Grid

inductive Update (α : Type) where
  | register (d : Dimension α)
  | tryRegister (d : Dimension α)
  | extend (ds : List (Dimension α))
  /-- A copy takes the place of the grid. -/
  | copy

/-- The grid behind one update. A dimension that is refused leaves it as it was. -/
def update (g : Grid α) : Update α → Grid α
  | .register d => g.register d
  | .tryRegister d => (g.offer d).2
  | .extend ds => g.extend ds
  | .copy => ⟨g.dimensions, g.radices, g.policy, g.radices_eq⟩

/-- The grid behind several updates. The updates of `ofList ds` are one extension by `ds`. -/
def updates (g : Grid α) (us : List (Update α)) : Grid α := us.foldl update g

/-- The dimensions that an update adds under a policy. -/
def Update.added (policy : EmptyPolicy) : Update α → List (Dimension α)
  | .register d => [d]
  | .tryRegister d => if policy.accepts d.length then [d] else []
  | .extend ds => ds
  | .copy => []

/-- The lengths kept beside the dimensions are theirs, one for each. -/
def KeepsLengths (g : Grid α) : Prop := List.Forall₂ (fun r d => r = d.length) g.radices g.dimensions

theorem keepsLengths (g : Grid α) : g.KeepsLengths := by
  rw [KeepsLengths, g.radices_eq, List.forall₂_map_left_iff]
  exact List.forall₂_same.2 fun _ _ => rfl

@[simp] theorem policy_extend (g : Grid α) (ds : List (Dimension α)) :
    (g.extend ds).policy = g.policy := by
  induction ds generalizing g with
  | nil => rfl
  | cons d ds ih => exact ih (g.register d)

theorem policy_update (g : Grid α) (u : Update α) : (g.update u).policy = g.policy := by
  cases u with
  | register d => rfl
  | tryRegister d =>
    rw [update, offer]
    by_cases hd : g.policy.accepts d.length
    · rw [if_pos hd]
      rfl
    · rw [if_neg hd]
  | extend ds => exact policy_extend g ds
  | copy => rfl

theorem policy_updates (g : Grid α) (us : List (Update α)) : (g.updates us).policy = g.policy := by
  induction us generalizing g with
  | nil => rfl
  | cons u us ih => exact (ih (g.update u)).trans (policy_update g u)

theorem dimensions_update (g : Grid α) (u : Update α) :
    (g.update u).dimensions = g.dimensions ++ u.added g.policy := by
  cases u with
  | register d => rfl
  | tryRegister d =>
    rw [update, offer, Update.added]
    by_cases hd : g.policy.accepts d.length
    · rw [if_pos hd, if_pos hd]
      rfl
    · rw [if_neg hd, if_neg hd, List.append_nil]
  | extend ds => exact dimensions_extend g ds
  | copy => exact (List.append_nil _).symm

/-- **A grid holds what its history adds**, behind what it held before. -/
theorem dimensions_updates (g : Grid α) (us : List (Update α)) :
    (g.updates us).dimensions = g.dimensions ++ us.flatMap (Update.added g.policy) := by
  induction us generalizing g with
  | nil => exact (List.append_nil _).symm
  | cons u us ih =>
    have htail := ih (g.update u)
    rw [policy_update, dimensions_update] at htail
    rw [List.flatMap_cons, ← List.append_assoc]
    exact htail

theorem updates_append (g : Grid α) (us vs : List (Update α)) :
    g.updates (us ++ vs) = (g.updates us).updates vs := List.foldl_append

end Grid

/-! ### Passes -/

theorem MixedRadix.InRange.forall₂_lt {ds rs : List Word} (hlen : ds.length = rs.length)
    (h : InRange (wheels ds rs)) : List.Forall₂ (· < ·) ds rs := by
  induction ds generalizing rs with
  | nil =>
    obtain rfl := List.length_eq_zero_iff.1 hlen.symm
    exact .nil
  | cons d ds ih =>
    cases rs with
    | nil => simp at hlen
    | cons r rs =>
      rw [wheels_cons_cons, inRange_cons] at h
      exact .cons h.1 (ih (Nat.succ.inj hlen) h.2)

namespace Pass

variable {p : Pass α}

/-- The digits of a pass are in step with its grid. -/
structure InStep (p : Pass α) : Prop where
  /-- There is one digit for each dimension. -/
  length_eq : p.counter.digits.length = p.grid.dimensions.length
  /-- Where the product has a tuple, each digit is below its radix. -/
  digits_lt : p.grid.tuples ≠ [] → List.Forall₂ (· < ·) p.counter.digits p.grid.radices
  /-- Where the product has a tuple and the pass has run out, each digit is zero. -/
  digits_eq_zero : p.grid.tuples ≠ [] → p.counter.exhausted = true → ∀ d ∈ p.counter.digits, d = 0

theorem inStep (h : p.Sound) : p.InStep := by
  have hradices : p.grid.tuples ≠ [] → 0 ∉ p.grid.radices := by
    intro htuples
    apply Grid.zero_notMem_radices
    rw [Bool.eq_false_iff]
    exact fun hv => htuples (p.grid.tuples_of_isVoid hv)
  refine ⟨h.length_eq.trans p.grid.length_radices, ?_, ?_⟩
  · intro htuples
    exact (h.inRange (hradices htuples)).forall₂_lt h.length_eq
  · intro htuples he d hd
    rw [h.zeros (hradices htuples) he] at hd
    exact (List.mem_replicate.1 hd).2

end Pass

/-! ### Open passes -/

namespace OpenPass

variable {o q : OpenPass α}

/-- What a call does to the grid of an open pass. -/
def Call.updates : Call α → List (Grid.Update α)
  | .register d => [.register d]
  | .tryRegister d => [.tryRegister d]
  | _ => []

theorem updates_of_isQuestion {c : Call α} (hc : c.IsQuestion) : c.updates = [] := by
  cases c <;> first | rfl | exact hc.elim

theorem Effect.grid_eq {c : Call α} {a : Answer α} (hc : o.Effect c a q) :
    q.grid = o.grid.updates c.updates := by
  cases hc with
  | register d => rfl
  | taken d hd =>
    show o.grid.register d = o.grid.update (.tryRegister d)
    rw [Grid.update, Grid.offer, if_pos hd]
  | refused d hd =>
    show o.grid = o.grid.update (.tryRegister d)
    rw [Grid.update, Grid.offer, if_neg (Bool.eq_false_iff.1 hd)]
  | next => exact Pass.grid_behind o.toPass 0
  | nth n => exact Pass.grid_behind o.toPass n.toNat
  | question hc =>
    rw [updates_of_isQuestion hc]
    rfl

/-- **The grid of an open pass has the history of its registrations.** Draws and questions leave no
trace in it. -/
theorem grid_of_run (h : o.Sound) {calls : List (Call α)} {answers : List (Answer α)}
    (hrun : o.run calls = .ok (answers, q)) : q.grid = o.grid.updates (calls.flatMap Call.updates) := by
  induction calls generalizing o answers with
  | nil =>
    obtain ⟨-, rfl⟩ := Prod.mk.inj (Except.ok.inj hrun)
    rfl
  | cons c cs ih =>
    obtain ⟨a, s, answers', hc, hcs, -⟩ := runAll_cons_eq_ok hrun
    have heffect := effect_of_call h hc
    rw [List.flatMap_cons, Grid.updates_append, ← heffect.grid_eq]
    exact ih (heffect.sound h) hcs

end OpenPass

/-! ### After any history -/

/-- **Lengths and digits are in step with the dimensions**, whatever has been done. A grid holds the
dimensions that its history adds and, beside them, their lengths. A pass over any grid keeps that grid,
and its digits are in step with it, also behind refused seeks. An open pass holds the grid of its
registrations, the refused ones left out, and its digits are in step with that. -/
theorem digits_in_step_with_dimensions :
    (∀ (policy : EmptyPolicy) (us : List (Grid.Update α)),
      ((Grid.empty policy).updates us).dimensions = us.flatMap (Grid.Update.added policy) ∧
      ((Grid.empty policy).updates us).KeepsLengths) ∧
    (∀ (g : Grid α) (calls : List Pass.Call), ∃ answers p, g.pass.run calls = .ok (answers, p) ∧
      p.grid = g ∧ p.InStep) ∧
    ∀ (policy : EmptyPolicy) (calls : List (OpenPass.Call α)), ∃ answers o,
      (OpenPass.empty policy).run calls = .ok (answers, o) ∧
      o.grid = (Grid.empty policy).updates (calls.flatMap OpenPass.Call.updates) ∧ o.InStep := by
  refine ⟨?_, ?_, ?_⟩
  · intro policy us
    exact ⟨Grid.dimensions_updates (Grid.empty policy) us, Grid.keepsLengths _⟩
  · intro g calls
    obtain ⟨answers, p, hrun, hp⟩ := Pass.exists_run_over (Pass.over_pass g) calls
    exact ⟨answers, p, hrun, hp.grid_eq, Pass.inStep hp.sound⟩
  · intro policy calls
    have hempty := OpenPass.sound_empty (α := α) policy
    obtain ⟨answers, o, hrun, ho⟩ := OpenPass.exists_run hempty calls
    exact ⟨answers, o, hrun, OpenPass.grid_of_run hempty hrun, Pass.inStep ho⟩

end LexProduct
