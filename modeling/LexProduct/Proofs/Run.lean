import LexProduct.Fault

/-!
# Runs

Calls one after another on one state. Each call answers and leaves the state that the next one finds;
a fault ends the run. What every call keeps, a run keeps (`runAll_keeps`); what a call keeps unless its
answer says otherwise, a run keeps until such an answer (`keeps_of_runAll`). Calls that change nothing can
be taken out of a run (`runAll_filter`). `Yields` says what repeated draws find before the first one that
finds nothing.
-/

namespace LexProduct

variable {γ σ β : Type}

/-- The calls one after another: their answers, and the state they leave. -/
def runAll (f : γ → σ → Checked (β × σ)) : List γ → σ → Checked (List β × σ)
  | [], s => .ok ([], s)
  | c :: cs, s => do
    let (b, s) ← f c s
    let (bs, s) ← runAll f cs s
    return (b :: bs, s)

/-- One draw `n` times. -/
def repeatedly (draw : σ → Checked (β × σ)) (n : Nat) : σ → Checked (List β × σ) :=
  runAll (fun _ => draw) (List.replicate n ())

/-- Repeated draws find exactly these, and then nothing. -/
def Yields {τ : Type} (draw : σ → Checked (Option τ × σ)) (s : σ) (found : List τ) : Prop :=
  ∃ t, repeatedly draw (found.length + 1) s = .ok (found.map some ++ [none], t)

theorem runAll_cons_of_ok {f : γ → σ → Checked (β × σ)} {c : γ} {s t : σ} {b : β}
    (h : f c s = .ok (b, t)) (cs : List γ) :
    runAll f (c :: cs) s = (runAll f cs t).map fun (bs, u) => (b :: bs, u) := by
  rw [runAll, h, Checked.ok_bind]
  dsimp only
  cases runAll f cs t <;> rfl

theorem runAll_cons_eq_ok {f : γ → σ → Checked (β × σ)} {c : γ} {cs : List γ} {s u : σ} {bs : List β}
    (h : runAll f (c :: cs) s = .ok (bs, u)) :
    ∃ b t bs', f c s = .ok (b, t) ∧ runAll f cs t = .ok (bs', u) ∧ bs = b :: bs' := by
  obtain ⟨⟨b, t⟩, hc, h⟩ := Checked.bind_eq_ok_iff.1 h
  obtain ⟨⟨bs', v⟩, hcs, h⟩ := Checked.bind_eq_ok_iff.1 h
  obtain ⟨rfl, rfl⟩ := Prod.mk.inj (Except.ok.inj h)
  exact ⟨b, t, bs', hc, hcs, rfl⟩

theorem runAll_map {γ' : Type} (f : γ → σ → Checked (β × σ)) (h : γ' → γ) (cs : List γ') (s : σ) :
    runAll f (cs.map h) s = runAll (fun c => f (h c)) cs s := by
  induction cs generalizing s with
  | nil => rfl
  | cons c cs ih =>
    rw [List.map_cons, runAll, runAll]
    simp only [ih]

theorem repeatedly_succ_of_ok {draw : σ → Checked (β × σ)} {s t : σ} {b : β}
    (h : draw s = .ok (b, t)) (n : Nat) :
    repeatedly draw (n + 1) s = (repeatedly draw n t).map fun (bs, u) => (b :: bs, u) :=
  runAll_cons_of_ok (f := fun _ => draw) (c := ()) h _

/-- **A run keeps what each call keeps**, and no call of it stops with a fault. -/
theorem runAll_keeps {f : γ → σ → Checked (β × σ)} {I : σ → Prop}
    (hstep : ∀ c s, I s → ∃ b t, f c s = .ok (b, t) ∧ I t) (cs : List γ) {s : σ} (h : I s) :
    ∃ bs t, runAll f cs s = .ok (bs, t) ∧ I t := by
  induction cs generalizing s with
  | nil => exact ⟨[], s, rfl, h⟩
  | cons c cs ih =>
    obtain ⟨b, t, hb, ht⟩ := hstep c s h
    obtain ⟨bs, u, hbs, hu⟩ := ih ht
    refine ⟨b :: bs, u, ?_, hu⟩
    rw [runAll_cons_of_ok hb, hbs]
    rfl

/-- **A run keeps what each call with an answer in `Q` keeps**, as long as all its answers are there. -/
theorem keeps_of_runAll {f : γ → σ → Checked (β × σ)} {J : σ → Prop} {Q : β → Prop}
    (hstep : ∀ c s b t, f c s = .ok (b, t) → J s → Q b → J t) {cs : List γ} {s u : σ} {bs : List β}
    (hrun : runAll f cs s = .ok (bs, u)) (h : J s) (hQ : ∀ b ∈ bs, Q b) : J u := by
  induction cs generalizing s bs with
  | nil =>
    obtain ⟨-, rfl⟩ := Prod.mk.inj (Except.ok.inj hrun)
    exact h
  | cons c cs ih =>
    obtain ⟨b, t, bs', hc, hcs, rfl⟩ := runAll_cons_eq_ok hrun
    have ht : J t := hstep c s b t hc h (hQ b (List.mem_cons_self ..))
    exact ih hcs ht fun b' hb' => hQ b' (List.mem_cons_of_mem b hb')

/-! ### Runs and their logs -/

section Log

variable {f : γ → σ → Checked (β × σ)} {cs : List γ} {s u : σ} {bs : List β}

theorem length_of_runAll (hrun : runAll f cs s = .ok (bs, u)) : bs.length = cs.length := by
  induction cs generalizing s bs with
  | nil =>
    obtain ⟨rfl, -⟩ := Prod.mk.inj (Except.ok.inj hrun)
    rfl
  | cons c cs ih =>
    obtain ⟨b, t, bs', -, hcs, rfl⟩ := runAll_cons_eq_ok hrun
    simp [ih hcs]

/-- **Calls that change nothing may be left out of a run.** The others get the answers that they got. -/
theorem runAll_filter {keep : γ × β → Bool}
    (hidle : ∀ c s b t, f c s = .ok (b, t) → keep (c, b) = false → t = s)
    (hrun : runAll f cs s = .ok (bs, u)) :
    runAll f (((cs.zip bs).filter keep).map Prod.fst) s =
      .ok (((cs.zip bs).filter keep).map Prod.snd, u) := by
  induction cs generalizing s bs with
  | nil =>
    obtain ⟨rfl, rfl⟩ := Prod.mk.inj (Except.ok.inj hrun)
    rfl
  | cons c cs ih =>
    obtain ⟨b, t, bs', hc, hcs, rfl⟩ := runAll_cons_eq_ok hrun
    rw [List.zip_cons_cons]
    cases hkeep : keep (c, b) with
    | true =>
      rw [List.filter_cons_of_pos hkeep, List.map_cons, List.map_cons, runAll_cons_of_ok hc, ih hcs]
      rfl
    | false =>
      obtain rfl := hidle c s b t hc hkeep
      rw [List.filter_cons_of_neg (by simp [hkeep])]
      exact ih hcs

/-- **Calls may be replaced by others that do the same** wherever they get the same answer. -/
theorem runAll_replace {g : γ × β → γ}
    (hsame : ∀ c s b t, f c s = .ok (b, t) → f (g (c, b)) s = .ok (b, t))
    (hrun : runAll f cs s = .ok (bs, u)) : runAll f ((cs.zip bs).map g) s = .ok (bs, u) := by
  induction cs generalizing s bs with
  | nil =>
    obtain ⟨rfl, rfl⟩ := Prod.mk.inj (Except.ok.inj hrun)
    rfl
  | cons c cs ih =>
    obtain ⟨b, t, bs', hc, hcs, rfl⟩ := runAll_cons_eq_ok hrun
    rw [List.zip_cons_cons, List.map_cons, runAll_cons_of_ok (hsame c s b t hc), ih hcs]
    rfl

end Log

end LexProduct
