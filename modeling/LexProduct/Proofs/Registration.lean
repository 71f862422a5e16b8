import LexProduct.Proofs.Call

/-!
# Registering while a pass runs

A dimension that an open pass registers becomes its fastest one, whatever the pass has drawn before. The
pass then has left each tuple that it had left, followed by each element of the new dimension in turn:

* `nestedLoops_concat`: one more list makes one more loop, inside all the others;
* `OpenPass.rest_register`: the tuples to come are extended one by one;
* `register_extends_each_tuple`: the same for the tuples that draws find, after any history.

Where nothing had been registered and the pass had not run out, there was no tuple to extend; the new
elements are tuples themselves.
-/

namespace LexProduct

variable {α : Type}

/-! ### One more loop inside -/

/-- Each tuple followed by each element, the elements varying fastest. -/
def extendEach (tuples : List (List α)) (xs : List α) : List (List α) :=
  tuples.flatMap fun t => xs.map fun x => t ++ [x]

@[simp] theorem extendEach_nil (xs : List α) : extendEach [] xs = [] := rfl

theorem extendEach_cons (t : List α) (tuples : List (List α)) (xs : List α) :
    extendEach (t :: tuples) xs = (xs.map fun x => t ++ [x]) ++ extendEach tuples xs := rfl

theorem extendEach_singleton_nil (xs : List α) : extendEach [[]] xs = xs.map fun x => [x] := by
  simp [extendEach]

@[simp] theorem length_extendEach (tuples : List (List α)) (xs : List α) :
    (extendEach tuples xs).length = tuples.length * xs.length := by
  induction tuples with
  | nil => simp
  | cons t tuples ih =>
    rw [extendEach_cons, List.length_append, List.length_map, ih, List.length_cons, Nat.succ_mul,
      Nat.add_comm]

/-- What extends a tuple is one block, and tuples dropped take whole blocks with them. -/
theorem drop_extendEach (tuples : List (List α)) (xs : List α) (n : Nat) :
    (extendEach tuples xs).drop (n * xs.length) = extendEach (tuples.drop n) xs := by
  induction n generalizing tuples with
  | zero => simp
  | succ n ih =>
    cases tuples with
    | nil => simp
    | cons t tuples =>
      have hblock : (n + 1) * xs.length = (xs.map fun x => t ++ [x]).length + n * xs.length := by
        rw [List.length_map, Nat.succ_mul, Nat.add_comm]
      rw [extendEach_cons, hblock, List.drop_length_add_append, ih, List.drop_succ_cons]

/-- **The last list makes the innermost loop.** -/
theorem nestedLoops_concat (lists : List (List α)) (xs : List α) :
    nestedLoops (lists ++ [xs]) = extendEach (nestedLoops lists) xs := by
  induction lists with
  | nil => simp [nestedLoops, extendEach, List.map_eq_flatMap]
  | cons ys lists ih =>
    have hinner : ∀ y : α, (extendEach (nestedLoops lists) xs).map (y :: ·) =
        extendEach ((nestedLoops lists).map (y :: ·)) xs := by
      intro y
      simp only [extendEach, List.map_flatMap, List.flatMap_map, List.map_map]
      rfl
    simp only [List.cons_append, nestedLoops, ih, hinner]
    rw [extendEach, List.flatMap_assoc]
    rfl

/-! ### One more dimension -/

namespace Grid

theorem tuples_register (g : Grid α) (d : Dimension α) :
    (g.register d).tuples = extendEach (nestedLoops (g.dimensions.map Dimension.toList)) d.toList := by
  rw [tuples, dimensions_register, List.map_append, List.map_singleton, lexProduct, if_neg (by simp),
    nestedLoops_concat]

end Grid

namespace OpenPass

variable {o : OpenPass α}

theorem isExhausted_register (o : OpenPass α) (d : Dimension α) :
    (o.register d).isExhausted = o.isExhausted := rfl

theorem rest_of_isExhausted (he : o.isExhausted = true) : o.rest = [] :=
  Pass.rest_of_position_eq_none (Pass.position_eq_none_iff.2 (.inl he))

/-- While the pass runs, all nested loops of the old dimensions go on from where they are, and each
of their tuples is extended. -/
theorem rest_register_of_not_isExhausted (h : o.Sound) (he : o.isExhausted = false)
    (d : Dimension α) : (o.register d).rest = extendEach
      ((nestedLoops (o.grid.dimensions.map Dimension.toList)).drop (o.counter.value o.grid.radices))
      d.toList := by
  calc (o.register d).rest
      = (o.grid.register d).tuples.drop
          (o.counter.pushDigit.value (o.grid.radices ++ [d.length])) :=
        (sound_register h d).rest_of_not_exhausted he
    _ = _ := by
        rw [Grid.tuples_register, Counter.Fits.value_pushDigit h, ← d.length_toList, drop_extendEach]

/-- **A new dimension extends each tuple to come by each of its elements.** The first dimension of a
pass that has not run out gives its elements. -/
theorem rest_register (h : o.Sound) (d : Dimension α) :
    (o.register d).rest = if o.grid.isEmpty && !o.isExhausted then d.toList.map fun x => [x]
      else extendEach o.rest d.toList := by
  cases he : o.isExhausted with
  | true =>
    -- nothing was to come, and nothing is
    rw [rest_of_isExhausted (isExhausted_register o d ▸ he), rest_of_isExhausted he]
    simp
  | false =>
    rw [rest_register_of_not_isExhausted h he]
    cases hd : o.grid.isEmpty with
    | true =>
      -- the counter has no digits yet and shows zero
      have hdims : o.grid.dimensions = [] := List.isEmpty_iff.1 hd
      have hzero : o.counter.value o.grid.radices = 0 := by
        rw [Counter.value, o.grid.radices_eq, hdims, List.map_nil, MixedRadix.wheels_nil_right]
        rfl
      rw [hzero, hdims, List.drop_zero, List.map_nil, nestedLoops, extendEach_singleton_nil]
      rfl
    | false =>
      rw [Pass.Sound.rest_of_not_exhausted h he, o.grid.tuples_of_not_isEmpty hd]
      rfl

end OpenPass

/-! ### After any history -/

/-- **Registering extends each tuple that draws would still find.** After any history, let draws from
an open pass find `ts`. With a further dimension they find each tuple of `ts` followed by each element
of it, and the number left is multiplied by its length; a pass that had run out has still run out. Only
a pass that has no dimensions and has not run out finds the elements by themselves. -/
theorem register_extends_each_tuple (policy : EmptyPolicy) (calls : List (OpenPass.Call α))
    (d : Dimension α) :
    ∃ answers o, (OpenPass.empty policy).run calls = .ok (answers, o) ∧
      (o.register d).isExhausted = o.isExhausted ∧
      ∃ ts, Yields OpenPass.next o ts ∧
        if o.grid.isEmpty && !o.isExhausted then
          Yields OpenPass.next (o.register d) (d.toList.map fun x => [x])
        else
          Yields OpenPass.next (o.register d) (extendEach ts d.toList) ∧
            (o.register d).remaining = .ok (Word.ofNat? (ts.length * d.length.toNat)) := by
  obtain ⟨answers, o, hrun, ho⟩ := OpenPass.exists_run (OpenPass.sound_empty policy) calls
  refine ⟨answers, o, hrun, OpenPass.isExhausted_register o d, o.rest, OpenPass.yields_rest ho, ?_⟩
  have hyields := OpenPass.yields_rest (OpenPass.sound_register ho d)
  have hremaining := Pass.remaining_eq (OpenPass.sound_register ho d)
  rw [← Pass.length_rest] at hremaining
  rw [OpenPass.rest_register ho d] at hyields hremaining
  split
  · rename_i hfirst
    rwa [if_pos hfirst] at hyields
  · rename_i hmore
    rw [if_neg hmore] at hyields hremaining
    rw [length_extendEach, Dimension.length_toList] at hremaining
    exact ⟨hyields, hremaining⟩

/-- After one of two tuples has been drawn, only the other one is extended. -/
example : (do
    let (_, o) ← (OpenPass.ofList [Dimension.ofList [1, 2]]).next
    let (tuples, _) ← (o.register (Dimension.ofList [3, 4, 5])).drive Pass.collect
    return tuples : Checked (List (List Nat))) = .ok [[2, 3], [2, 4], [2, 5]] := rfl

end LexProduct
