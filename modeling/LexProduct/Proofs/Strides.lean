import LexProduct.Proofs.Pass.Drawing

/-!
# Strided passes

A pass that draws one tuple and then leaves out `k - 1` others again and again sees every `k`-th tuple.
The `k` passes that start behind 0, 1, …, `k - 1` tuples share the product among themselves:

* `flatMap_everyNth_perm`: how the `k` choices of the first entry use a list up;
* `Pass.exists_stride`: the draws of a strided pass are every `k`-th of the tuples to come;
* `Pass.exists_stride_takeEvery`: what those draws find is what `takeEvery` finds;
* `strided_passes_partition`: what each of the passes draws, and that all of them together draw each
  tuple once.

Ranks are natural numbers here, since the rank that a pass has reached by its jumps need not be a word.
-/

namespace LexProduct

variable {α β : Type}

/-! ### Every `k`-th entry -/

theorem everyNth_map {γ : Type} (k j : Nat) (f : β → γ) (l : List β) :
    everyNth k j (l.map f) = (everyNth k j l).map f := by
  induction l generalizing j with
  | nil => simp
  | cons x xs ih => cases j <;> simp [everyNth, ih]

/-- **The first entries below `k` use the list up**, each entry once. -/
theorem flatMap_everyNth_perm {k : Nat} (hk : 0 < k) (l : List β) :
    ((List.range k).flatMap fun j => everyNth k j l).Perm l := by
  obtain ⟨m, rfl⟩ := Nat.exists_eq_add_one_of_ne_zero (Nat.pos_iff_ne_zero.1 hk)
  induction l with
  | nil => simp
  | cons x xs ih =>
    -- the choice that takes `x` goes on as the last choice does, and every other one as its neighbour
    have hcons : ((List.range (m + 1)).flatMap fun j => everyNth (m + 1) j (x :: xs)) =
        x :: (everyNth (m + 1) m xs ++ (List.range m).flatMap fun j => everyNth (m + 1) j xs) := by
      rw [List.range_succ_eq_map, List.flatMap_cons, List.flatMap_map]
      rfl
    have htail : ((List.range (m + 1)).flatMap fun j => everyNth (m + 1) j xs) =
        ((List.range m).flatMap fun j => everyNth (m + 1) j xs) ++ everyNth (m + 1) m xs := by
      rw [List.range_succ, List.flatMap_append, List.flatMap_singleton]
    rw [htail] at ih
    rw [hcons]
    exact (List.perm_append_comm.trans ih).cons x

/-! ### Draws in strides -/

namespace Pass

variable {p : Pass α}

/-- A draw behind `j` others, and then `n` draws, each behind `k - 1` others. -/
def stride (j k : Word) (n : Nat) (p : Pass α) : Checked (List (Option (List α)) × Pass α) := do
  let (t, p) ← p.nth j
  let (ts, p) ← repeatedly (nth · (k - 1)) n p
  return (t :: ts, p)

theorem exists_repeatedly_nth (h : p.Sound) (k : Word) (n : Nat) :
    ∃ q, repeatedly (nth · k) n p =
      .ok ((List.range n).map fun i => p.rest[k.toNat + i * (k.toNat + 1)]?, q) := by
  induction n generalizing p with
  | zero => exact ⟨p, rfl⟩
  | succ n ih =>
    obtain ⟨q, hq⟩ := ih (h.behind k.toNat)
    refine ⟨q, ?_⟩
    have hrest : ∀ i, (p.behind k.toNat).rest[k.toNat + i * (k.toNat + 1)]? =
        p.rest[k.toNat + (i + 1) * (k.toNat + 1)]? := by
      intro i
      rw [rest_behind, List.getElem?_drop, Nat.succ_mul]
      congr 1
      omega
    rw [repeatedly_succ_of_ok (nth_eq h k), hq, List.range_succ_eq_map, List.map_cons, List.map_map]
    simp only [hrest, Nat.zero_mul, Nat.add_zero]
    rfl

/-- **A strided pass draws every `k`-th tuple to come**, and then nothing. -/
theorem exists_stride (h : p.Sound) {k : Word} (hk : 0 < k) (j : Word) (n : Nat) :
    ∃ q, p.stride j k n =
      .ok ((List.range (n + 1)).map ((everyNth k.toNat j.toNat p.rest)[·]?), q) := by
  obtain ⟨q, hq⟩ := exists_repeatedly_nth (h.behind j.toNat) (k - 1) n
  refine ⟨q, ?_⟩
  have hkpos : 0 < k.toNat := UInt64.lt_iff_toNat_lt.1 hk
  obtain ⟨-, hpred⟩ := Word.one_le_and_toNat_sub_one hk
  have hrest : ∀ i, (p.behind j.toNat).rest[(k - 1).toNat + i * k.toNat]? =
      p.rest[j.toNat + (i + 1) * k.toNat]? := by
    intro i
    rw [rest_behind, List.getElem?_drop, Nat.succ_mul]
    congr 1
    omega
  rw [stride, nth_eq h, Checked.ok_bind]
  dsimp only
  rw [hq, List.range_succ_eq_map, List.map_cons, List.map_map, Checked.ok_bind]
  simp only [hpred, hrest, Function.comp_def, getElem?_everyNth hkpos, Nat.zero_mul, Nat.add_zero]
  rfl

theorem filterMap_range_getElem? (l : List β) (n : Nat) :
    ((List.range n).map (l[·]?)).filterMap id = l.take n := by
  induction n with
  | zero => rfl
  | succ n ih =>
    rw [List.range_succ, List.map_append, List.filterMap_append, ih, List.take_add_one,
      List.map_singleton]
    cases l[n]? <;> rfl

/-- **Draws in strides find what `takeEvery` finds.** Those behind the last tuple find nothing more. -/
theorem exists_stride_takeEvery (h : p.Sound) {k : Word} (hk : 0 < k) (n : Nat) :
    ∃ draws q r, p.stride 0 k n = .ok (draws, q) ∧
      p.takeEvery k (n + 1) = .ok (draws.filterMap id, r) := by
  obtain ⟨q, hq⟩ := exists_stride h hk 0 n
  obtain ⟨r, hr⟩ := exists_takeEvery h hk (n + 1)
  refine ⟨_, q, r, hq, ?_⟩
  rw [filterMap_range_getElem?]
  exact hr

end Pass

/-! ### The passes together -/

def Grid.ranked (g : Grid α) : List (List α × Nat) := g.tuples.zipIdx

/-- **Strided passes partition the product.** The pass with offset `j` and stride `k` draws the tuples of
ranks `j`, `j + k`, `j + 2 * k` and so on, up to the last one that there is, and nothing in any draw after
that. Over all offsets below `k` every tuple is drawn by one of the passes, and by it once. -/
theorem strided_passes_partition (g : Grid α) {k : Word} (hk : 0 < k) :
    (∀ j : Word,
      let drawn := everyNth k.toNat j.toNat g.ranked
      (∀ i, drawn[i]? = g.tuples[j.toNat + i * k.toNat]?.map (·, j.toNat + i * k.toNat)) ∧
      ∀ n, ∃ p, g.pass.stride j k (drawn.length + n) =
        .ok (drawn.map (fun t => some t.1) ++ List.replicate (n + 1) none, p)) ∧
    ((List.range k.toNat).flatMap fun j => everyNth k.toNat j g.ranked).Perm g.ranked := by
  have hkpos : 0 < k.toNat := UInt64.lt_iff_toNat_lt.1 hk
  refine ⟨fun j => ⟨fun i => ?_, fun n => ?_⟩, flatMap_everyNth_perm hkpos g.ranked⟩
  · rw [getElem?_everyNth hkpos, Grid.ranked, List.getElem?_zipIdx, Nat.zero_add]
  · have htuples : g.tuples = g.ranked.map Prod.fst := (List.zipIdx_map_fst 0 g.tuples).symm
    have hdraws := Pass.range_getElem? ((everyNth k.toNat j.toNat g.ranked).map Prod.fst) (n + 1)
    obtain ⟨p, hp⟩ := Pass.exists_stride (Pass.sound_pass g) hk j
      ((everyNth k.toNat j.toNat g.ranked).length + n)
    rw [List.length_map, List.map_map] at hdraws
    rw [Pass.rest_pass, htuples, everyNth_map, Nat.add_assoc, hdraws] at hp
    exact ⟨p, hp⟩

/-- The second and the fourth of five tuples, and nothing in two more draws. -/
theorem strided_passes_partition_two :
    (0 : Word) < 2 ∧ ∃ p, (Grid.ofList [Dimension.ofList ['a', 'b', 'c', 'd', 'e']]).pass.stride 1 2 3 =
      .ok ([some ['b'], some ['d'], none, none], p) := by
  have hpos : (0 : Word) < 2 := by decide
  obtain ⟨hdraws, -⟩ :=
    strided_passes_partition (Grid.ofList [Dimension.ofList ['a', 'b', 'c', 'd', 'e']]) hpos
  exact ⟨hpos, (hdraws 1).2 1⟩

end LexProduct
