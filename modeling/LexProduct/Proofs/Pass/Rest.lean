import LexProduct.OpenPass
import LexProduct.Proofs.Pass.Rank
import LexProduct.Proofs.Run

/-!
# What a pass has left

`p.rest` lists the tuples still to come. On a sound pass every draw reads this list, whether its grid
is void, whether it has run out, and whether the move behind the draw stays inside the grid:

* `remaining_eq`: the number of entries is answered exactly when it is a word;
* `next_eq`, `nth_eq`: a draw answers one entry of the rest;
* `repeatedly_next`: draws in a row answer the rest entry by entry, and then nothing.

`p.behind n` is the one pass that both ways to reach the tuple behind entry `n` arrive at.
-/

namespace LexProduct

variable {α : Type}

namespace Pass

variable {p : Pass α}

/-- The tuples still to come. -/
def rest (p : Pass α) : List (List α) := p.grid.tuples.drop p.place

/-- The pass behind entry `n` of the rest. Behind the last entry it has run out. -/
def behind (p : Pass α) (n : Nat) : Pass α :=
  if p.grid.isVoid then p.stop else p.grid.passAt (p.place + n + 1)

/-! ### The rest -/

@[simp] theorem length_rest (p : Pass α) : p.rest.length = p.left := by
  have := p.left_le_count
  rw [rest, List.length_drop, p.grid.length_tuples, place]
  omega

theorem getElem?_rest (p : Pass α) (n : Nat) : p.rest[n]? = p.grid.tuples[p.place + n]? :=
  List.getElem?_drop

theorem rest_of_position_eq_none (h : p.position = none) : p.rest = [] := by
  rw [← List.length_eq_zero_iff, length_rest, left_of_position_eq_none h]

theorem rest_of_isVoid (hv : p.grid.isVoid = true) : p.rest = [] :=
  rest_of_position_eq_none (position_eq_none_iff.2 (.inr hv))

theorem Sound.rest_of_not_exhausted (h : p.Sound) (he : p.counter.exhausted = false) :
    p.rest = p.grid.tuples.drop (p.counter.value p.grid.radices) := by
  cases hv : p.grid.isVoid with
  | true => rw [rest_of_isVoid hv, p.grid.tuples_of_isVoid hv, List.drop_nil]
  | false => rw [rest, h.place_of_running he hv]

theorem place_passAt (g : Grid α) (n : Nat) : (g.passAt n).place = min n g.count := by
  rw [place, left_passAt]
  show g.count - (g.count - n) = _
  omega

theorem rest_passAt (g : Grid α) (n : Nat) : (g.passAt n).rest = g.tuples.drop n := by
  rw [rest, place_passAt]
  show g.tuples.drop (min n g.count) = _
  rcases Nat.le_total n g.count with h | h
  · rw [Nat.min_eq_left h]
  · rw [Nat.min_eq_right h, ← g.length_tuples, List.drop_length,
      List.drop_eq_nil_of_le (g.length_tuples ▸ h)]

theorem left_pass (g : Grid α) : g.pass.left = g.count := by
  cases hv : g.isVoid with
  | true => rw [left_of_position_eq_none (position_eq_none_iff.2 (.inr hv)), g.count_of_isVoid hv]
  | false => rw [Grid.pass_eq_passAt hv, left_passAt, Nat.sub_zero]

theorem rest_pass (g : Grid α) : g.pass.rest = g.tuples := by
  rw [rest, place, left_pass]
  show g.tuples.drop (g.count - g.count) = _
  rw [Nat.sub_self, List.drop_zero]

/-! ### Behind an entry -/

theorem behind_of_isVoid (hv : p.grid.isVoid = true) (n : Nat) : p.behind n = p.stop := if_pos hv

theorem behind_of_not_isVoid (hv : p.grid.isVoid = false) (n : Nat) :
    p.behind n = p.grid.passAt (p.place + n + 1) := if_neg (Bool.eq_false_iff.1 hv)

@[simp] theorem grid_behind (p : Pass α) (n : Nat) : (p.behind n).grid = p.grid := by
  unfold behind
  split <;> rfl

theorem Sound.behind (h : p.Sound) (n : Nat) : (p.behind n).Sound := by
  unfold Pass.behind
  split
  · rename_i hv
    exact h.stop hv
  · exact sound_passAt p.grid _

theorem behind_behind (p : Pass α) (m n : Nat) : (p.behind m).behind n = p.behind (m + n + 1) := by
  cases hv : p.grid.isVoid with
  | true =>
    rw [behind_of_isVoid (by rw [grid_behind, hv]), behind_of_isVoid hv, behind_of_isVoid hv,
      stop_of_exhausted rfl]
  | false =>
    have hcount := p.grid.count_of_not_isVoid hv
    rw [behind_of_not_isVoid (by rw [grid_behind, hv]), grid_behind, behind_of_not_isVoid hv,
      behind_of_not_isVoid hv, place_passAt]
    rcases Nat.lt_or_ge (p.place + m + 1) p.grid.count with h | h
    · rw [Nat.min_eq_left (Nat.le_of_lt h)]
      congr 1
      omega
    · rw [Nat.min_eq_right h, Grid.passAt_of_le (by omega), Grid.passAt_of_le (by omega)]

theorem rest_behind (p : Pass α) (n : Nat) : (p.behind n).rest = p.rest.drop (n + 1) := by
  cases hv : p.grid.isVoid with
  | true => rw [rest_of_isVoid (by rw [grid_behind, hv]), rest_of_isVoid hv, List.drop_nil]
  | false => rw [behind_of_not_isVoid hv, rest_passAt, rest, List.drop_drop, Nat.add_assoc]

/-! ### The number left -/

/-- **The number left is answered exactly when it is a word.** -/
theorem remaining_eq (h : p.Sound) : p.remaining = .ok (Word.ofNat? p.left) := by
  rw [remaining]
  cases hp : p.position with
  | none =>
    rw [left_of_position_eq_none hp, Counter.remaining?_of_void (position_eq_none_iff.1 hp)]
    rfl
  | some ds =>
    obtain ⟨he, hv⟩ := running_of_position_eq_some hp
    rw [Counter.remaining?_eq h he hv, left_of_running he hv, p.grid.count_of_not_isVoid hv]

theorem sizeHint_eq (h : p.Sound) : p.sizeHint = .ok (match Word.ofNat? p.left with
    | some n => (n, some n)
    | none => (Word.maxValue, none)) := by
  rw [sizeHint, remaining_eq h, Checked.ok_bind]
  cases Word.ofNat? p.left <;> rfl

theorem position_isSome_iff (h : p.Sound) : p.position.isSome = true ↔ 0 < p.left := by
  cases hp : p.position with
  | none => simp [left_of_position_eq_none hp]
  | some ds =>
    obtain ⟨he, hv⟩ := running_of_position_eq_some hp
    have hlt := h.value_lt (Grid.zero_notMem_radices hv)
    rw [left_of_running he hv, p.grid.count_of_not_isVoid hv]
    simp only [Option.isSome_some, true_iff]
    omega

/-! ### Draws -/

/-- **A draw answers the first tuple to come.** -/
theorem next_eq (h : p.Sound) : p.next = .ok (p.rest[0]?, p.behind 0) := by
  cases hv : p.grid.isVoid with
  | true => rw [next_of_isVoid hv, rest_of_isVoid hv, behind_of_isVoid hv]; rfl
  | false =>
    calc p.next = (p.grid.passAt p.place).next := by rw [← h.eq_passAt hv]
      _ = .ok (p.rest[0]?, p.behind 0) := by
        rw [next_passAt hv, behind_of_not_isVoid hv, getElem?_rest]
        rfl

theorem nth_eq (h : p.Sound) (n : Word) : p.nth n = .ok (p.rest[n.toNat]?, p.behind n.toNat) := by
  cases hv : p.grid.isVoid with
  | true => rw [nth_of_isVoid hv, rest_of_isVoid hv, behind_of_isVoid hv]; rfl
  | false =>
    calc p.nth n = (p.grid.passAt p.place).nth n := by rw [← h.eq_passAt hv]
      _ = .ok (p.rest[n.toNat]?, p.behind n.toNat) := by
        rw [nth_passAt hv, behind_of_not_isVoid hv, getElem?_rest]

theorem next_finds_none_iff (h : p.Sound) : (∃ q, p.next = .ok (none, q)) ↔ p.left = 0 := by
  rw [next_eq h, ← length_rest, ← Nat.le_zero, ← List.getElem?_eq_none_iff]
  simp

theorem nth_finds_none_iff (h : p.Sound) {n : Word} :
    (∃ q, p.nth n = .ok (none, q)) ↔ p.left ≤ n.toNat := by
  rw [nth_eq h, ← length_rest, ← List.getElem?_eq_none_iff]
  simp

/-- **Draws in a row answer the rest entry by entry.** -/
theorem repeatedly_next (h : p.Sound) (n : Nat) :
    repeatedly next (n + 1) p = .ok ((List.range (n + 1)).map (p.rest[·]?), p.behind n) := by
  induction n generalizing p with
  | zero =>
    rw [repeatedly_succ_of_ok (next_eq h)]
    rfl
  | succ n ih =>
    have hrest : (List.range (n + 1)).map ((p.behind 0).rest[·]?) =
        (List.range (n + 1)).map fun i => p.rest[i + 1]? := by
      refine List.map_congr_left fun i _ => ?_
      rw [rest_behind, List.getElem?_drop, Nat.zero_add, Nat.add_comm]
    rw [repeatedly_succ_of_ok (next_eq h), ih (h.behind 0), behind_behind, hrest, Nat.zero_add,
      List.range_succ_eq_map (n := n + 1), List.map_cons, List.map_map]
    rfl

/-- Entries asked for in a row are all entries, and past the last one nothing. -/
theorem range_getElem? {β : Type} (l : List β) (n : Nat) :
    (List.range (l.length + n)).map (l[·]?) = l.map some ++ List.replicate n none := by
  refine List.ext_getElem (by simp) fun i _ _ => ?_
  rw [List.getElem_map, List.getElem_range, List.getElem_append]
  split
  · simp
  · rename_i hend
    rw [List.length_map] at hend
    simp only [List.getElem_replicate, List.getElem?_eq_none_iff]
    omega

theorem yields_rest (h : p.Sound) : Yields next p p.rest :=
  ⟨p.behind p.rest.length, by rw [repeatedly_next h, range_getElem? p.rest 1]; rfl⟩

theorem eq_of_range_getElem? {β : Type} {l found : List β}
    (h : (List.range (found.length + 1)).map (l[·]?) = found.map some ++ [none]) : found = l := by
  rw [List.range_succ, List.map_append, List.map_singleton] at h
  obtain ⟨hfound, hend⟩ := List.append_inj h (by simp)
  rw [List.singleton_inj, List.getElem?_eq_none_iff] at hend
  refine List.ext_getElem? fun i => ?_
  rcases Nat.lt_or_ge i found.length with hi | hi
  · have hentry := congrArg (·[i]?) hfound
    simp only [List.getElem?_map, List.getElem?_range hi, List.getElem?_eq_getElem hi,
      Option.map_some, Option.some.injEq] at hentry
    rw [hentry, List.getElem?_eq_getElem hi]
  · rw [List.getElem?_eq_none hi, List.getElem?_eq_none (Nat.le_trans hend hi)]

theorem yields_iff (h : p.Sound) {found : List (List α)} : Yields next p found ↔ found = p.rest := by
  constructor
  · rintro ⟨q, hq⟩
    rw [repeatedly_next h] at hq
    obtain ⟨hdraws, -⟩ := Prod.mk.inj (Except.ok.inj hq)
    exact eq_of_range_getElem? hdraws
  · rintro rfl
    exact yields_rest h

end Pass

/-! ### Open passes -/

namespace OpenPass

variable {β : Type}

theorem drive_of_ok {draw : Pass α → Checked (β × Pass α)} {o : OpenPass α} {b : β} {q : Pass α}
    (h : draw o.toPass = .ok (b, q)) : o.drive draw = .ok (b, ⟨q⟩) := by
  rw [drive, h]
  rfl

theorem runAll_drive {γ : Type} (f : γ → Pass α → Checked (β × Pass α)) (cs : List γ)
    (o : OpenPass α) :
    runAll (fun c (o : OpenPass α) => o.drive (f c)) cs o = o.drive (runAll f cs) := by
  induction cs generalizing o with
  | nil => rfl
  | cons c cs ih =>
    cases h : f c o.toPass with
    | error e =>
      show (o.drive (f c) >>= _) = ((f c o.toPass >>= _).map _ : Checked _)
      rw [drive, h]
      rfl
    | ok answer =>
      obtain ⟨b, q⟩ := answer
      rw [runAll_cons_of_ok (drive_of_ok h), ih, drive, drive, runAll_cons_of_ok h]
      cases runAll f cs q <;> rfl

theorem repeatedly_drive (draw : Pass α → Checked (β × Pass α)) (n : Nat) (o : OpenPass α) :
    repeatedly (fun o : OpenPass α => o.drive draw) n o = o.drive (repeatedly draw n) :=
  runAll_drive (fun _ => draw) _ o

variable {o : OpenPass α}

theorem next_eq (h : o.Sound) : o.next = .ok (o.rest[0]?, ⟨o.behind 0⟩) :=
  drive_of_ok (Pass.next_eq h)

theorem nth_eq (h : o.Sound) (n : Word) :
    o.nth n = .ok (o.rest[n.toNat]?, ⟨o.behind n.toNat⟩) := drive_of_ok (Pass.nth_eq h n)

theorem repeatedly_next (h : o.Sound) (n : Nat) :
    repeatedly next (n + 1) o = .ok ((List.range (n + 1)).map (o.rest[·]?), ⟨o.behind n⟩) :=
  (repeatedly_drive Pass.next (n + 1) o).trans (drive_of_ok (Pass.repeatedly_next h n))

theorem yields_rest (h : o.Sound) : Yields next o o.rest :=
  ⟨⟨o.behind o.rest.length⟩, by rw [repeatedly_next h, Pass.range_getElem? o.rest 1]; rfl⟩

end OpenPass

end LexProduct
