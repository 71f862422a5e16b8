import LexProduct.Proofs.Pass.Rest

/-!
# What several draws find

The functions that draw several tuples differ in how many tuples the first draw leaves out and how many
each later one does. `everyNth` lists the entries that are seen that way, and one statement about it
(`exists_gather`) says what each of them finds:

* `exists_take`, `exists_takeAfter`: the first tuples to come, and the first behind some others;
* `exists_takeEvery`: the tuples in strides;
* `exists_collect`, `exists_tally`, `exists_last`: all tuples to come, their number and the last of them.
-/

namespace LexProduct

variable {α β : Type}

/-! ### Every `k`-th entry -/

/-- The entry behind `j` others, and from there on each one behind `k - 1` others. -/
def everyNth (k : Nat) : Nat → List β → List β
  | _, [] => []
  | 0, x :: xs => x :: everyNth k (k - 1) xs
  | j + 1, _ :: xs => everyNth k j xs

@[simp] theorem everyNth_nil (k j : Nat) : everyNth k j ([] : List β) = [] := by cases j <;> rfl

theorem everyNth_zero_cons (k : Nat) (x : β) (xs : List β) :
    everyNth k 0 (x :: xs) = x :: everyNth k (k - 1) xs := rfl

theorem everyNth_succ_cons (k j : Nat) (x : β) (xs : List β) :
    everyNth k (j + 1) (x :: xs) = everyNth k j xs := rfl

/-- The places are `j`, `j + k`, `j + 2 * k`, and so on. -/
theorem getElem?_everyNth {k : Nat} (hk : 0 < k) (j : Nat) (l : List β) (i : Nat) :
    (everyNth k j l)[i]? = l[j + i * k]? := by
  induction l generalizing j i with
  | nil => simp
  | cons x xs ih =>
    cases j with
    | succ j => rw [everyNth_succ_cons, ih, Nat.add_right_comm, List.getElem?_cons_succ]
    | zero =>
      rw [everyNth_zero_cons]
      cases i with
      | zero => simp
      | succ i =>
        have hplace : 0 + (i + 1) * k = (k - 1 + i * k) + 1 := by
          rw [Nat.succ_mul]
          omega
        rw [hplace, List.getElem?_cons_succ, List.getElem?_cons_succ, ih]

theorem everyNth_one (j : Nat) (l : List β) : everyNth 1 j l = l.drop j := by
  refine List.ext_getElem? fun i => ?_
  rw [getElem?_everyNth Nat.one_pos, List.getElem?_drop, Nat.mul_one]

theorem everyNth_of_getElem?_eq_none {j : Nat} {l : List β} (k : Nat) (h : l[j]? = none) :
    everyNth k j l = [] := by
  induction l generalizing j with
  | nil => simp
  | cons x xs ih =>
    cases j with
    | zero => simp at h
    | succ j => exact ih (by simpa using h)

theorem everyNth_of_getElem?_eq_some {j : Nat} {l : List β} {x : β} (k : Nat) (h : l[j]? = some x) :
    everyNth k j l = x :: everyNth k (k - 1) (l.drop (j + 1)) := by
  induction l generalizing j with
  | nil => simp at h
  | cons y xs ih =>
    cases j with
    | zero =>
      obtain rfl : y = x := by simpa using h
      rfl
    | succ j => exact ih (by simpa using h)

/-! ### Draws up to a limit -/

namespace Pass

variable {p : Pass α}

/-- **Draws up to a limit find every `k`-th tuple to come**, if the first leaves out `j` tuples and each
later one `k - 1`. -/
theorem exists_gather {first later : Draw α} {j k : Nat}
    (hlater : ∀ q : Pass α, q.Sound → later q = .ok (q.rest[k - 1]?, q.behind (k - 1)))
    (h : p.Sound) (hfirst : first p = .ok (p.rest[j]?, p.behind j)) (max : Nat) :
    ∃ q, gather first later max p = .ok ((everyNth k j p.rest).take max, q) := by
  induction max generalizing p j first with
  | zero => exact ⟨p, rfl⟩
  | succ max ih =>
    unfold gather gatherOnto
    cases hentry : p.rest[j]? with
    | none =>
      -- the first draw finds nothing and is the last
      refine ⟨p.behind j, ?_⟩
      rw [hfirst, hentry, everyNth_of_getElem?_eq_none k hentry]
      rfl
    | some t =>
      -- the later draws go on behind the tuple found, with one draw less to make
      obtain ⟨q, hq⟩ := ih (h.behind j) (hlater _ (h.behind j))
      refine ⟨q, ?_⟩
      rw [hfirst, hentry, Checked.ok_bind, everyNth_of_getElem?_eq_some k hentry]
      dsimp only
      rw [gatherOnto_eq, hq, rest_behind]
      rfl

theorem exists_take (h : p.Sound) (n : Nat) : ∃ q, p.take n = .ok (p.rest.take n, q) := by
  obtain ⟨q, hq⟩ := exists_gather (k := 1) (fun _ => next_eq) h (next_eq h) n
  rw [everyNth_one, List.drop_zero] at hq
  exact ⟨q, hq⟩

theorem exists_takeAfter (h : p.Sound) (n : Word) (max : Nat) :
    ∃ q, p.takeAfter n max = .ok ((p.rest.drop n.toNat).take max, q) := by
  have hfirst : (if n = 0 then next else (nth · n)) p = .ok (p.rest[n.toNat]?, p.behind n.toNat) := by
    split
    · rename_i hn
      rw [hn, next_eq h]
      rfl
    · exact nth_eq h n
  obtain ⟨q, hq⟩ := exists_gather (k := 1) (fun _ => next_eq) h hfirst max
  rw [everyNth_one] at hq
  exact ⟨q, hq⟩

theorem exists_takeEvery (h : p.Sound) {k : Word} (hk : 0 < k) (max : Nat) :
    ∃ q, p.takeEvery k max = .ok ((everyNth k.toNat 0 p.rest).take max, q) := by
  have hpred : (k - 1).toNat = k.toNat - 1 := by
    have := (Word.one_le_and_toNat_sub_one hk).2
    omega
  exact exists_gather (fun q hq => by rw [nth_eq hq, hpred]) h (nth_eq h 0) max

/-! ### Draws to the end -/

theorem exists_collect (h : p.Sound) : ∃ q, p.collect = .ok (p.rest, q) := by
  obtain ⟨q, hq⟩ := exists_take h (p.left + 1)
  rw [List.take_of_length_le (by rw [length_rest]; omega)] at hq
  exact ⟨q, hq⟩

theorem exists_tally (h : p.Sound) : ∃ q, p.tally = .ok (p.left, q) := by
  obtain ⟨q, hq⟩ := exists_collect h
  refine ⟨q, ?_⟩
  rw [tally, hq, ← length_rest]
  rfl

theorem exists_last (h : p.Sound) : ∃ q, p.last = .ok (p.rest.getLast?, q) := by
  obtain ⟨q, hq⟩ := exists_collect h
  refine ⟨q, ?_⟩
  rw [last, hq]
  rfl

end Pass

end LexProduct
