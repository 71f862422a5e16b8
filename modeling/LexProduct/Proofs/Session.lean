import LexProduct.Proofs.Call

/-!
# Sessions

A caller may hold a grid that still grows, passes made over it at different times, and an open pass,
and may call them in any order. A session is that collection, and a history of it interleaves the calls
to all its members.

* `Session.exists_call`: a call to one member keeps all passes of the session sound;
* `session_never_faults`: no history of a session stops with a fault.
-/

namespace LexProduct

variable {α : Type}

/-- A grid, passes, and an open pass with a grid of its own. A pass keeps the grid that it was made
over: what is registered later does not reach it. -/
structure Session (α : Type) where
  grid : Grid α
  passes : List (Pass α) := []
  openPass : OpenPass α

namespace Session

inductive Call (α : Type) where
  | register (d : Dimension α)
  | tryRegister (d : Dimension α)
  | extend (ds : List (Dimension α))
  | ask (q : Grid.Query)
  /-- A new pass over the grid. -/
  | traverse
  /-- A new pass over what the open pass has registered so far. -/
  | traverseOpen
  /-- A call to the pass at a place in the order in which the passes were made. -/
  | pass (i : Nat) (c : Pass.Call)
  | openPass (c : OpenPass.Call α)

def start (policy openPolicy : EmptyPolicy) : Session α where
  grid := Grid.empty policy
  openPass := OpenPass.empty openPolicy

/-- One call: what it answers, and the session behind it. A pass that has not been made is left
alone. -/
def call : Call α → Session α → Checked (Answer α × Session α)
  | .register d, s => return (.done, { s with grid := s.grid.register d })
  | .tryRegister d, s =>
    let (answer, grid) := Answer.ofAttempt (s.grid.offer d)
    return (answer, { s with grid })
  | .extend ds, s => return (.done, { s with grid := s.grid.extend ds })
  | .ask q, s => return (← s.grid.ask q, s)
  | .traverse, s => return (.done, { s with passes := s.passes ++ [s.grid.pass] })
  | .traverseOpen, s => return (.done, { s with passes := s.passes ++ [s.openPass.grid.pass] })
  | .pass i c, s =>
    match s.passes[i]? with
    | none => return (.done, s)
    | some p => do
      let (a, p) ← p.call c
      return (a, { s with passes := s.passes.set i p })
  | .openPass c, s => do
    let (a, o) ← s.openPass.call c
    return (a, { s with openPass := o })

def run (s : Session α) (calls : List (Call α)) : Checked (List (Answer α) × Session α) :=
  runAll call calls s

structure Sound (s : Session α) : Prop where
  passes : ∀ p ∈ s.passes, p.Sound
  openPass : s.openPass.Sound

variable {s : Session α}

theorem sound_start (policy openPolicy : EmptyPolicy) :
    (start policy openPolicy : Session α).Sound where
  passes _ hp := nomatch hp
  openPass := OpenPass.sound_empty openPolicy

theorem Sound.addPass (h : s.Sound) (g : Grid α) :
    ({ s with passes := s.passes ++ [g.pass] } : Session α).Sound where
  passes p hp := by
    rcases List.mem_append.1 hp with hp | hp
    · exact h.passes p hp
    · rw [List.mem_singleton.1 hp]
      exact Pass.sound_pass g
  openPass := h.openPass

theorem Sound.setPass (h : s.Sound) (i : Nat) {q : Pass α} (hq : q.Sound) :
    ({ s with passes := s.passes.set i q } : Session α).Sound where
  passes p hp := by
    rcases List.mem_or_eq_of_mem_set hp with hp | rfl
    · exact h.passes p hp
    · exact hq
  openPass := h.openPass

/-- **Every call is answered, and keeps all passes sound.** -/
theorem exists_call (c : Call α) (s : Session α) (h : s.Sound) :
    ∃ a t, call c s = .ok (a, t) ∧ t.Sound := by
  cases c with
  | register d => exact ⟨_, _, rfl, h.passes, h.openPass⟩
  | tryRegister d => exact ⟨_, _, rfl, h.passes, h.openPass⟩
  | extend ds => exact ⟨_, _, rfl, h.passes, h.openPass⟩
  | ask q =>
    obtain ⟨a, ha⟩ := s.grid.exists_ask q
    exact ⟨a, s, by rw [call, ha]; rfl, h⟩
  | traverse => exact ⟨_, _, rfl, h.addPass s.grid⟩
  | traverseOpen => exact ⟨_, _, rfl, h.addPass s.openPass.grid⟩
  | pass i c =>
    cases hp : s.passes[i]? with
    | none => exact ⟨.done, s, by rw [call, hp]; rfl, h⟩
    | some p =>
      obtain ⟨a, q, hc, hq⟩ := Pass.exists_call c p (h.passes p (List.mem_of_getElem? hp))
      refine ⟨a, _, ?_, h.setPass i hq⟩
      rw [call, hp]
      dsimp only
      rw [hc]
      rfl
  | openPass c =>
    obtain ⟨a, o, hc, ho⟩ := OpenPass.exists_call c s.openPass h.openPass
    exact ⟨a, { s with openPass := o }, by rw [call, hc]; rfl, h.passes, ho⟩

end Session

/-- **No history of a session stops with a fault.** Whatever is registered, drawn, sought and asked in
whatever order, every call is answered: no remainder by zero, no sum or difference outside the words, no
element past the end of a dimension, and no lists of different lengths. -/
theorem session_never_faults (policy openPolicy : EmptyPolicy) (calls : List (Session.Call α)) :
    ∃ answers s, (Session.start policy openPolicy).run calls = .ok (answers, s) := by
  obtain ⟨answers, s, hrun, -⟩ :=
    runAll_keeps Session.exists_call calls (Session.sound_start policy openPolicy)
  exact ⟨answers, s, hrun⟩

end LexProduct
