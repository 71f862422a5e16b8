import LexProduct.Proofs.Pass.Rest

/-!
# Calls

What a caller can do with a grid, a pass and an open pass, as data, so that a history is a list of
calls and quantifying over histories is quantifying over lists. `Pass.call` and `OpenPass.call` carry
one call out: they answer what the caller is told and leave the pass behind the call.

* `Pass.Effect`, `OpenPass.Effect`: all that one call can do to a sound pass, which is all that any
  invariant of passes has to be checked against;
* `Pass.exists_run`, `OpenPass.exists_run`: every history has answers to all its calls, and the pass it
  leaves is sound;
* `CommonCall.run_toOpenPass`: an open pass answers the calls that both kinds take as a pass does.
-/

namespace LexProduct

variable {α : Type}

/-- What a caller is told. -/
inductive Answer (α : Type) where
  /-- The call has been carried out. -/
  | done
  /-- The call has been refused, and nothing has changed. -/
  | refused (e : ProductError)
  /-- The tuple that was asked for, if there is one. -/
  | tuple (t : Option (List α))
  /-- The indices of the next tuple, if there is one. -/
  | indices (ds : Option (List Word))
  /-- The number that was asked for, if there is one and it is a word. -/
  | number (n : Option Word)
  /-- A lower and perhaps an upper bound. -/
  | bounds (lower : Word) (upper : Option Word)
  | flag (b : Bool)

/-- A number or a refusal as an answer. -/
def Answer.ofExcept : Except ProductError Word → Answer α
  | .ok n => number (some n)
  | .error e => refused e

/-- An attempt as an answer, and the state behind it. -/
def Answer.ofAttempt {σ : Type} : Attempt σ → Answer α × σ
  | (.ok (), s) => (done, s)
  | (.error e, s) => (refused e, s)

theorem Answer.ofAttempt_eq_refused_iff {σ : Type} {attempt : Attempt σ} {e : ProductError} {s : σ} :
    (ofAttempt attempt : Answer α × σ) = (refused e, s) ↔ attempt = (.error e, s) := by
  obtain ⟨answer, t⟩ := attempt
  cases answer <;> simp [ofAttempt]

/-! ### Grids -/

namespace Grid

inductive Query where
  | cardinality
  | get (rank : Word)
  | rankOf (indices : List Word)

def ask (g : Grid α) : Query → Checked (Answer α)
  | .cardinality => return .ofExcept g.cardinality
  | .get rank => return .tuple (← g.get? rank)
  | .rankOf indices => return .ofExcept (g.rankOf indices)

theorem exists_ask (g : Grid α) (q : Query) : ∃ a, g.ask q = .ok a := by
  cases q with
  | cardinality => exact ⟨_, rfl⟩
  | get rank =>
    refine ⟨.tuple g.tuples[rank.toNat]?, ?_⟩
    rw [ask, g.get?_eq]
    rfl
  | rankOf indices => exact ⟨_, rfl⟩

end Grid

/-! ### Passes -/

namespace Pass

inductive Call where
  | next
  | nth (n : Word)
  | seek (rank : Word)
  | position
  | rank
  | remaining
  | sizeHint

/-- One call: what it answers, and the pass behind it. -/
def call : Call → Pass α → Checked (Answer α × Pass α)
  | .next, p => do
    let (t, p) ← p.next
    return (.tuple t, p)
  | .nth n, p => do
    let (t, p) ← p.nth n
    return (.tuple t, p)
  | .seek rank, p => return Answer.ofAttempt (← p.trySeek rank)
  | .position, p => return (.indices p.position, p)
  | .rank, p => return (.number p.rank, p)
  | .remaining, p => return (.number (← p.remaining), p)
  | .sizeHint, p => do
    let (lower, upper) ← p.sizeHint
    return (.bounds lower upper, p)

def run (p : Pass α) (calls : List Call) : Checked (List (Answer α) × Pass α) := runAll call calls p

/-- A sound pass over this grid. -/
structure Over (p : Pass α) (g : Grid α) : Prop where
  sound : p.Sound
  grid_eq : p.grid = g

theorem over_pass (g : Grid α) : g.pass.Over g := ⟨sound_pass g, rfl⟩

variable {p : Pass α} {g : Grid α}

def Call.IsQuestion : Call → Prop
  | .position | .rank | .remaining | .sizeHint => True
  | _ => False

/-- All that a call can do to a pass: a draw goes behind the tuple that it answers, a seek goes to its rank
or is refused, and a question changes nothing. -/
inductive Effect (p : Pass α) : Call → Answer α → Pass α → Prop
  | next : Effect p .next (.tuple p.rest[0]?) (p.behind 0)
  | nth (n : Word) : Effect p (.nth n) (.tuple p.rest[n.toNat]?) (p.behind n.toNat)
  | sought (r : Word) (hr : r.toNat < p.grid.count) : Effect p (.seek r) .done (p.grid.passAt r.toNat)
  | refused (r : Word) (hr : p.grid.count ≤ r.toNat) :
      Effect p (.seek r) (.refused (.rankOutOfRange r (UInt64.ofNat p.grid.count))) p
  | question {c : Call} {a : Answer α} (hc : c.IsQuestion) : Effect p c a p

/-- **Every call to a sound pass is answered**, with its effect. -/
theorem exists_effect (h : p.Sound) (c : Call) : ∃ a q, call c p = .ok (a, q) ∧ p.Effect c a q := by
  cases c with
  | next => exact ⟨_, _, by rw [call, next_eq h]; rfl, .next⟩
  | nth n => exact ⟨_, _, by rw [call, nth_eq h]; rfl, .nth n⟩
  | seek r =>
    rw [call, trySeek_eq h]
    by_cases hr : r.toNat < p.grid.count
    · rw [if_pos hr]
      exact ⟨_, _, rfl, .sought r hr⟩
    · rw [if_neg hr]
      exact ⟨_, _, rfl, .refused r (Nat.not_lt.1 hr)⟩
  | position | rank => exact ⟨_, _, rfl, .question trivial⟩
  | remaining => exact ⟨_, _, by rw [call, remaining_eq h]; rfl, .question trivial⟩
  | sizeHint => exact ⟨_, _, by rw [call, sizeHint_eq h]; rfl, .question trivial⟩

/-- A call has no other effect, as it has one outcome. -/
theorem effect_of_call (h : p.Sound) {c : Call} {a : Answer α} {q : Pass α}
    (hc : call c p = .ok (a, q)) : p.Effect c a q := by
  obtain ⟨a', q', hc', heffect⟩ := exists_effect h c
  rw [hc'] at hc
  obtain ⟨rfl, rfl⟩ := Prod.mk.inj (Except.ok.inj hc)
  exact heffect

theorem Effect.over {c : Call} {a : Answer α} {q : Pass α} (he : p.Effect c a q) (h : p.Over g) :
    q.Over g := by
  cases he with
  | next => exact ⟨h.sound.behind 0, (grid_behind p 0).trans h.grid_eq⟩
  | nth n => exact ⟨h.sound.behind n.toNat, (grid_behind p n.toNat).trans h.grid_eq⟩
  | sought r hr => exact ⟨sound_passAt p.grid r.toNat, h.grid_eq⟩
  | refused r hr => exact h
  | question hc => exact h

theorem Effect.sound {c : Call} {a : Answer α} {q : Pass α} (he : p.Effect c a q) (h : p.Sound) :
    q.Sound := (he.over ⟨h, rfl⟩).sound

theorem exists_call_over (c : Call) (p : Pass α) (h : p.Over g) :
    ∃ a q, call c p = .ok (a, q) ∧ q.Over g := by
  obtain ⟨a, q, hc, heffect⟩ := exists_effect h.sound c
  exact ⟨a, q, hc, heffect.over h⟩

theorem exists_call (c : Call) (p : Pass α) (h : p.Sound) :
    ∃ a q, call c p = .ok (a, q) ∧ q.Sound := by
  obtain ⟨a, q, hc, heffect⟩ := exists_effect h c
  exact ⟨a, q, hc, heffect.sound h⟩

theorem exists_run_over (h : p.Over g) (calls : List Call) :
    ∃ answers q, p.run calls = .ok (answers, q) ∧ q.Over g := runAll_keeps exists_call_over calls h

theorem exists_run (h : p.Sound) (calls : List Call) :
    ∃ answers q, p.run calls = .ok (answers, q) ∧ q.Sound := runAll_keeps exists_call calls h

end Pass

/-! ### Open passes -/

namespace OpenPass

inductive Call (α : Type) where
  | register (d : Dimension α)
  | tryRegister (d : Dimension α)
  | next
  | nth (n : Word)
  | position
  | isExhausted
  | remaining
  | sizeHint
  | ask (q : Grid.Query)

/-- One call: what it answers, and the open pass behind it. -/
def call : Call α → OpenPass α → Checked (Answer α × OpenPass α)
  | .register d, o => return (.done, o.register d)
  | .tryRegister d, o => return Answer.ofAttempt (o.offer d)
  | .next, o => do
    let (t, o) ← o.next
    return (.tuple t, o)
  | .nth n, o => do
    let (t, o) ← o.nth n
    return (.tuple t, o)
  | .position, o => return (.indices o.position, o)
  | .isExhausted, o => return (.flag o.isExhausted, o)
  | .remaining, o => return (.number (← o.remaining), o)
  | .sizeHint, o => do
    let (lower, upper) ← o.sizeHint
    return (.bounds lower upper, o)
  | .ask q, o => return (← o.grid.ask q, o)

def run (o : OpenPass α) (calls : List (Call α)) : Checked (List (Answer α) × OpenPass α) :=
  runAll call calls o

theorem sound_empty (policy : EmptyPolicy) : (empty policy : OpenPass α).Sound :=
  Pass.sound_pass (Grid.empty policy)

theorem sound_register {o : OpenPass α} (h : o.Sound) (d : Dimension α) : (o.register d).Sound :=
  Counter.Fits.pushDigit h d.length

/-- **An offer registers the dimension or changes nothing**, in the grid and in the counter alike. -/
theorem offer_eq (o : OpenPass α) (d : Dimension α) :
    o.offer d = if o.grid.policy.accepts d.length then (.ok (), o.register d)
      else (.error (.emptyDimension o.grid.size), o) := by
  rw [offer, Grid.offer]
  cases o.grid.policy.accepts d.length <;> rfl

theorem tryRegister_eq (o : OpenPass α) (d : Dimension α) :
    o.tryRegister d = if o.grid.policy.accepts d.length then .ok (o.register d)
      else .error (.emptyDimension o.grid.size) := by
  rw [tryRegister, offer_eq]
  split <;> rfl

def Call.IsQuestion : Call α → Prop
  | .position | .isExhausted | .remaining | .sizeHint | .ask _ => True
  | _ => False

/-- All that a call can do to an open pass: a dimension is registered or refused, a draw goes behind the
tuple that it answers, and a question changes nothing. -/
inductive Effect (o : OpenPass α) : Call α → Answer α → OpenPass α → Prop
  | register (d : Dimension α) : Effect o (.register d) .done (o.register d)
  | taken (d : Dimension α) (hd : o.grid.policy.accepts d.length = true) :
      Effect o (.tryRegister d) .done (o.register d)
  | refused (d : Dimension α) (hd : o.grid.policy.accepts d.length = false) :
      Effect o (.tryRegister d) (.refused (.emptyDimension o.grid.size)) o
  | next : Effect o .next (.tuple o.rest[0]?) ⟨o.behind 0⟩
  | nth (n : Word) : Effect o (.nth n) (.tuple o.rest[n.toNat]?) ⟨o.behind n.toNat⟩
  | question {c : Call α} {a : Answer α} (hc : c.IsQuestion) : Effect o c a o

variable {o q : OpenPass α}

/-- **Every call to a sound open pass is answered**, with its effect. -/
theorem exists_effect (h : o.Sound) (c : Call α) : ∃ a q, call c o = .ok (a, q) ∧ o.Effect c a q := by
  cases c with
  | register d => exact ⟨_, _, rfl, .register d⟩
  | tryRegister d =>
    rw [call, offer_eq]
    cases hd : o.grid.policy.accepts d.length with
    | true => exact ⟨_, _, rfl, .taken d hd⟩
    | false => exact ⟨_, _, rfl, .refused d hd⟩
  | next => exact ⟨_, _, by rw [call, next_eq h]; rfl, .next⟩
  | nth n => exact ⟨_, _, by rw [call, nth_eq h]; rfl, .nth n⟩
  | position | isExhausted => exact ⟨_, _, rfl, .question trivial⟩
  | remaining => exact ⟨_, _, by rw [call, Pass.remaining_eq h]; rfl, .question trivial⟩
  | sizeHint => exact ⟨_, _, by rw [call, Pass.sizeHint_eq h]; rfl, .question trivial⟩
  | ask query =>
    obtain ⟨a, ha⟩ := o.grid.exists_ask query
    exact ⟨a, o, by rw [call, ha]; rfl, .question trivial⟩

/-- A call has no other effect, as it has one outcome. -/
theorem effect_of_call (h : o.Sound) {c : Call α} {a : Answer α} (hc : call c o = .ok (a, q)) :
    o.Effect c a q := by
  obtain ⟨a', q', hc', heffect⟩ := exists_effect h c
  rw [hc'] at hc
  obtain ⟨rfl, rfl⟩ := Prod.mk.inj (Except.ok.inj hc)
  exact heffect

theorem Effect.sound {c : Call α} {a : Answer α} (he : o.Effect c a q) (h : o.Sound) : q.Sound := by
  cases he with
  | register d => exact sound_register h d
  | taken d hd => exact sound_register h d
  | refused d hd => exact h
  | next => exact h.behind 0
  | nth n => exact h.behind n.toNat
  | question hc => exact h

theorem exists_call (c : Call α) (o : OpenPass α) (h : o.Sound) :
    ∃ a q, call c o = .ok (a, q) ∧ q.Sound := by
  obtain ⟨a, q, hc, heffect⟩ := exists_effect h c
  exact ⟨a, q, hc, heffect.sound h⟩

theorem exists_run (h : o.Sound) (calls : List (Call α)) :
    ∃ answers q, o.run calls = .ok (answers, q) ∧ q.Sound := runAll_keeps exists_call calls h

end OpenPass

/-! ### Calls in common -/

/-- The calls that a pass and an open pass both take. -/
inductive CommonCall where
  | next
  | nth (n : Word)
  | position
  | remaining
  | sizeHint

namespace CommonCall

def toPass : CommonCall → Pass.Call
  | next => .next
  | nth n => .nth n
  | position => .position
  | remaining => .remaining
  | sizeHint => .sizeHint

def toOpenPass : CommonCall → OpenPass.Call α
  | next => .next
  | nth n => .nth n
  | position => .position
  | remaining => .remaining
  | sizeHint => .sizeHint

theorem call_toOpenPass (c : CommonCall) (o : OpenPass α) :
    OpenPass.call c.toOpenPass o = o.drive (Pass.call c.toPass) := by
  cases c with
  | next =>
    show (o.drive Pass.next >>= _) = _
    rw [OpenPass.drive, OpenPass.drive, toPass, Pass.call]
    cases o.toPass.next <;> rfl
  | nth n =>
    show (o.drive (Pass.nth · n) >>= _) = _
    rw [OpenPass.drive, OpenPass.drive, toPass, Pass.call]
    cases o.toPass.nth n <;> rfl
  | position => rfl
  | remaining =>
    rw [toOpenPass, OpenPass.call, OpenPass.drive, toPass, Pass.call]
    cases o.toPass.remaining <;> rfl
  | sizeHint =>
    rw [toOpenPass, OpenPass.call, OpenPass.drive, toPass, Pass.call]
    cases o.toPass.sizeHint <;> rfl

/-- **An open pass answers the calls in common as the pass that it drives.** -/
theorem run_toOpenPass (calls : List CommonCall) (o : OpenPass α) :
    o.run (calls.map toOpenPass) = o.drive (Pass.run · (calls.map toPass)) := by
  have hstep : (fun c => OpenPass.call (toOpenPass c)) =
      fun c (o : OpenPass α) => o.drive (Pass.call c.toPass) := funext fun c => funext fun o => call_toOpenPass c o
  calc o.run (calls.map toOpenPass)
      = runAll (fun c => OpenPass.call (toOpenPass c)) calls o := runAll_map ..
    _ = o.drive (runAll (fun c => Pass.call (toPass c)) calls) := by
        rw [hstep, OpenPass.runAll_drive]
    _ = o.drive (Pass.run · (calls.map toPass)) :=
        congrArg o.drive (funext fun _ => (runAll_map ..).symm)

end CommonCall

end LexProduct
