import LexProduct.Proofs.Call

/-!
# The enumeration

What passes and open passes draw, after any history of calls.

* `draws_enumerate_lexProduct`: from the start, draws answer the lexicographic product of the
  dimensions tuple by tuple, and then nothing;
* `nth_eq_repeated_next`: a draw after `n` others is `n + 1` draws, in its answer and in all that it
  leaves;
* `observers_count_draws`: what a pass tells about the number of tuples left is the number of tuples
  that repeated draws find.
-/

namespace LexProduct

variable {α : Type}

/-! ### From the start -/

theorem OpenPass.register_pass (g : Grid α) (d : Dimension α) :
    (⟨g.pass⟩ : OpenPass α).register d = ⟨(g.register d).pass⟩ := by
  have hsize : (g.register d).size = g.size + 1 := by simp [Grid.size]
  rw [register, Grid.pass, Grid.pass, hsize, Counter.pushDigit, Counter.zeroed, Counter.zeroed,
    List.replicate_succ']

theorem OpenPass.ofList_eq (ds : List (Dimension α)) :
    OpenPass.ofList ds = ⟨(Grid.ofList ds).pass⟩ := by
  have key : ∀ (ds : List (Dimension α)) (g : Grid α),
      ds.foldl register (⟨g.pass⟩ : OpenPass α) = ⟨(g.extend ds).pass⟩ := by
    intro ds
    induction ds with
    | nil => intro g; rfl
    | cons d ds ih =>
      intro g
      rw [List.foldl_cons, register_pass, ih]
      rfl
  exact key ds (Grid.empty .lenient)

theorem Pass.exists_repeatedly_next {p : Pass α} (h : p.Sound) (n : Nat) :
    ∃ q, repeatedly next n p = .ok ((List.range n).map (p.rest[·]?), q) := by
  cases n with
  | zero => exact ⟨p, rfl⟩
  | succ n => exact ⟨p.behind n, repeatedly_next h n⟩

/-- **Draws enumerate the lexicographic product.** The draw number `i` from the start answers entry
`i` of the product of the dimensions, and nothing where the product has no such entry. This holds of a
pass over any grid, and so of one over the grid of a list of dimensions, as of an open pass over that
list. -/
theorem draws_enumerate_lexProduct (n : Nat) :
    (∀ g : Grid α, ∃ p, repeatedly Pass.next n g.pass =
      .ok ((List.range n).map fun i => (lexProduct (g.dimensions.map Dimension.toList))[i]?, p)) ∧
    (∀ ds : List (Dimension α), ∃ p, repeatedly Pass.next n (Grid.ofList ds).pass =
      .ok ((List.range n).map fun i => (lexProduct (ds.map Dimension.toList))[i]?, p)) ∧
    ∀ ds : List (Dimension α), ∃ o, repeatedly OpenPass.next n (OpenPass.ofList ds) =
      .ok ((List.range n).map fun i => (lexProduct (ds.map Dimension.toList))[i]?, o) := by
  have hpass : ∀ g : Grid α, ∃ p, repeatedly Pass.next n g.pass =
      .ok ((List.range n).map fun i => (lexProduct (g.dimensions.map Dimension.toList))[i]?, p) := by
    intro g
    obtain ⟨p, hp⟩ := Pass.exists_repeatedly_next (Pass.sound_pass g) n
    rw [Pass.rest_pass] at hp
    exact ⟨p, hp⟩
  have hlist : ∀ ds : List (Dimension α), ∃ p, repeatedly Pass.next n (Grid.ofList ds).pass =
      .ok ((List.range n).map fun i => (lexProduct (ds.map Dimension.toList))[i]?, p) := by
    intro ds
    obtain ⟨p, hp⟩ := hpass (Grid.ofList ds)
    rw [Grid.dimensions_ofList] at hp
    exact ⟨p, hp⟩
  refine ⟨hpass, hlist, fun ds => ?_⟩
  obtain ⟨p, hp⟩ := hlist ds
  refine ⟨⟨p⟩, ?_⟩
  rw [OpenPass.ofList_eq]
  exact (OpenPass.repeatedly_drive Pass.next n _).trans (OpenPass.drive_of_ok hp)

/-! ### Skipping -/

theorem getLast?_range_map {β : Type} (f : Nat → β) (n : Nat) :
    ((List.range (n + 1)).map f).getLast? = some (f n) := by
  rw [List.range_succ, List.map_append, List.map_singleton, List.getLast?_concat]

/-- **A draw after `n` others is `n + 1` draws.** After any history the two answer the same and leave
the same pass. -/
theorem nth_eq_repeated_next (n : Word) :
    (∀ (g : Grid α) (calls : List Pass.Call), ∃ answers p, g.pass.run calls = .ok (answers, p) ∧
      ∃ ts t q, repeatedly Pass.next (n.toNat + 1) p = .ok (ts, q) ∧ ts.getLast? = some t ∧
        p.nth n = .ok (t, q)) ∧
    ∀ (policy : EmptyPolicy) (calls : List (OpenPass.Call α)), ∃ answers o,
      (OpenPass.empty policy).run calls = .ok (answers, o) ∧
      ∃ ts t q, repeatedly OpenPass.next (n.toNat + 1) o = .ok (ts, q) ∧ ts.getLast? = some t ∧
        o.nth n = .ok (t, q) := by
  constructor
  · intro g calls
    obtain ⟨answers, p, hrun, hp⟩ := Pass.exists_run (Pass.sound_pass g) calls
    exact ⟨answers, p, hrun, _, _, _, Pass.repeatedly_next hp n.toNat, getLast?_range_map _ _,
      Pass.nth_eq hp n⟩
  · intro policy calls
    obtain ⟨answers, o, hrun, ho⟩ := OpenPass.exists_run (OpenPass.sound_empty policy) calls
    exact ⟨answers, o, hrun, _, _, _, OpenPass.repeatedly_next ho n.toNat, getLast?_range_map _ _,
      OpenPass.nth_eq ho n⟩

/-! ### The number left -/

/-- What a pass tells with this number of tuples left: the number and twice the number as bounds if it
is a word, else no number and only a lower bound; and a position unless the number is zero. -/
def Pass.Tells (p : Pass α) (left : Nat) : Prop :=
  ((∃ w : Word, w.toNat = left ∧ p.remaining = .ok (some w) ∧ p.sizeHint = .ok (w, some w)) ∨
    (UInt64.size ≤ left ∧ p.remaining = .ok none ∧ p.sizeHint = .ok (Word.maxValue, none))) ∧
  (p.position.isSome = true ↔ 0 < left)

theorem Pass.tells_left {p : Pass α} (h : p.Sound) : p.Tells p.left := by
  refine ⟨?_, position_isSome_iff h⟩
  rw [remaining_eq h, sizeHint_eq h]
  cases hw : Word.ofNat? p.left with
  | some w => exact .inl ⟨w, Word.ofNat?_eq_some_iff.1 hw, rfl, rfl⟩
  | none => exact .inr ⟨Word.ofNat?_eq_none_iff.1 hw, rfl, rfl⟩

theorem Pass.isSome_getElem?_rest (p : Pass α) (n : Nat) :
    p.rest[n]?.isSome = true ↔ n < p.rest.length := by simp

/-- **A pass tells the number of tuples that draws find**, after any history: as its number left, in
its bounds, by showing a position, and by which skips still find a tuple. -/
theorem observers_count_draws :
    (∀ (g : Grid α) (calls : List Pass.Call), ∃ answers p, g.pass.run calls = .ok (answers, p) ∧
      ∃ ts, Yields Pass.next p ts ∧ p.Tells ts.length ∧
        ∀ n : Word, ∃ t q, p.nth n = .ok (t, q) ∧ (t.isSome = true ↔ n.toNat < ts.length)) ∧
    ∀ (policy : EmptyPolicy) (calls : List (OpenPass.Call α)), ∃ answers o,
      (OpenPass.empty policy).run calls = .ok (answers, o) ∧
      ∃ ts, Yields OpenPass.next o ts ∧ o.Tells ts.length ∧
        ∀ n : Word, ∃ t q, o.nth n = .ok (t, q) ∧ (t.isSome = true ↔ n.toNat < ts.length) := by
  constructor
  · intro g calls
    obtain ⟨answers, p, hrun, hp⟩ := Pass.exists_run (Pass.sound_pass g) calls
    refine ⟨answers, p, hrun, p.rest, Pass.yields_rest hp, ?_, fun n => ?_⟩
    · rw [Pass.length_rest]
      exact Pass.tells_left hp
    · exact ⟨_, _, Pass.nth_eq hp n, p.isSome_getElem?_rest n.toNat⟩
  · intro policy calls
    obtain ⟨answers, o, hrun, ho⟩ := OpenPass.exists_run (OpenPass.sound_empty policy) calls
    refine ⟨answers, o, hrun, o.rest, OpenPass.yields_rest ho, ?_, fun n => ?_⟩
    · rw [Pass.length_rest]
      exact Pass.tells_left ho
    · exact ⟨_, _, OpenPass.nth_eq ho n, o.isSome_getElem?_rest n.toNat⟩

end LexProduct
