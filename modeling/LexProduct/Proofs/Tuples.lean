import LexProduct.Grid
import LexProduct.Proofs.MixedRadix.Count

/-!
# Tuples by rank

Nested loops over lists of fixed lengths visit the tuples in the order of their digits: the tuple that
takes the element `d` of each list stands at the place whose numeral is `d`.

* `getElem?_nestedLoops_cons`: the tuples with one first element are a block;
* `exists_readTuple`: reading a grid at digits in range finds the tuple at their value;
* `Grid.length_tuples`: `Grid.count` counts the tuples;
* `Grid.get?_eq`: access by rank reads the list of tuples.
-/

namespace LexProduct

open MixedRadix

variable {α β : Type}

/-! ### Blocks of one length -/

theorem getElem?_flatMap_block (f : α → List β) {L : Nat} (hL : ∀ x, (f x).length = L)
    (xs : List α) (d : Nat) {m : Nat} (hm : m < L) :
    (xs.flatMap f)[d * L + m]? = xs[d]?.bind fun x => (f x)[m]? := by
  induction xs generalizing d with
  | nil => simp
  | cons x xs ih =>
    rw [List.flatMap_cons]
    cases d with
    | zero => rw [Nat.zero_mul, Nat.zero_add, List.getElem?_append_left (by rw [hL]; exact hm)]; rfl
    | succ d =>
      have hge : (f x).length ≤ (d + 1) * L + m := by
        rw [hL, Nat.succ_mul]
        omega
      have hsub : (d + 1) * L + m - (f x).length = d * L + m := by
        rw [hL, Nat.succ_mul]
        omega
      rw [List.getElem?_append_right hge, hsub, ih d]
      rfl

theorem getElem?_nestedLoops_cons (xs : List α) (rest : List (List α)) (d : Nat) {m : Nat}
    (hm : m < (nestedLoops rest).length) :
    (nestedLoops (xs :: rest))[d * (nestedLoops rest).length + m]? =
      xs[d]?.bind fun x => (nestedLoops rest)[m]?.map (x :: ·) := by
  rw [nestedLoops, getElem?_flatMap_block _ (fun x => List.length_map _) xs d hm]
  simp only [List.getElem?_map]

/-! ### Dimensions -/

theorem length_nestedLoops_dimensions (dims : List (Dimension α)) :
    (nestedLoops (dims.map Dimension.toList)).length = volume (dims.map Dimension.length) := by
  rw [length_nestedLoops]
  induction dims with
  | nil => rfl
  | cons d dims ih => simp [ih]

theorem Dimension.getElem?_toList {d : Dimension α} {i : Word} (h : i < d.length) :
    d.toList[i.toNat]? = some (d.get ⟨i.toNat, UInt64.lt_iff_toNat_lt.1 h⟩) := by
  rw [toList, List.getElem?_ofFn, dif_pos (UInt64.lt_iff_toNat_lt.1 h)]

/-- **Digits in range read the tuple at their value.** -/
theorem exists_readTuple {dims : List (Dimension α)} {ds : List Word}
    (hlen : ds.length = dims.length) (h : InRange (wheels ds (dims.map Dimension.length))) :
    ∃ t, Grid.readTuple dims ds = .ok t ∧ (nestedLoops (dims.map Dimension.toList))[
      value (wheels ds (dims.map Dimension.length))]? = some t := by
  induction dims generalizing ds with
  | nil => exact ⟨[], by cases ds <;> rfl, by simp [nestedLoops]⟩
  | cons d dims ih =>
    cases ds with
    | nil => simp at hlen
    | cons i is =>
      rw [List.map_cons, wheels_cons_cons, inRange_cons] at h
      obtain ⟨hi, his⟩ := h
      have hlen' : is.length = dims.length := Nat.succ.inj hlen
      obtain ⟨t, hread, hget⟩ := ih hlen' his
      have hradices : is.length = (dims.map Dimension.length).length := by
        rw [hlen', List.length_map]
      have hlt := value_wheels_lt hradices his
      rw [← length_nestedLoops_dimensions] at hlt
      refine ⟨d.get ⟨i.toNat, UInt64.lt_iff_toNat_lt.1 hi⟩ :: t, ?_, ?_⟩
      · rw [Grid.readTuple, Dimension.read_of_lt hi, Checked.ok_bind, hread]
        rfl
      · rw [List.map_cons, List.map_cons, wheels_cons_cons, value_cons,
          radices_wheels hradices, ← length_nestedLoops_dimensions,
          getElem?_nestedLoops_cons _ _ _ hlt, Dimension.getElem?_toList hi, hget]
        rfl

/-! ### Grids -/

namespace Grid

variable (g : Grid α)

theorem tuples_of_not_isEmpty (h : g.isEmpty = false) :
    g.tuples = nestedLoops (g.dimensions.map Dimension.toList) := by
  rw [isEmpty] at h
  rw [tuples, lexProduct, List.isEmpty_map, h, if_neg Bool.false_ne_true]

theorem tuples_of_not_isVoid (hv : g.isVoid = false) :
    g.tuples = nestedLoops (g.dimensions.map Dimension.toList) := by
  have hne := (isVoid_eq_false_iff.1 hv).1
  rw [g.radices_eq, Ne, List.map_eq_nil_iff] at hne
  exact g.tuples_of_not_isEmpty (List.isEmpty_eq_false_iff.2 hne)

/-- **The number of tuples is the product of the lengths**, or zero in a void grid. -/
theorem length_tuples : g.tuples.length = g.count := by
  have hlen := length_nestedLoops_dimensions g.dimensions
  rw [← g.radices_eq] at hlen
  cases hv : g.isVoid with
  | false => rw [g.tuples_of_not_isVoid hv, hlen, count, hv]; rfl
  | true =>
    rw [count, if_pos hv, tuples, lexProduct]
    split
    · rfl
    · rename_i hne
      rw [hlen, volume_eq_zero_iff]
      refine Decidable.byContradiction fun h0 => hne ?_
      have hnil := eq_nil_of_isVoid hv h0
      rw [g.radices_eq, List.map_eq_nil_iff] at hnil
      rw [hnil]
      rfl

theorem count_of_not_isVoid (hv : g.isVoid = false) : g.count = volume g.radices := by
  rw [count, hv]
  rfl

theorem count_of_isVoid (hv : g.isVoid = true) : g.count = 0 := by rw [count, if_pos hv]

theorem tuples_of_isVoid (hv : g.isVoid = true) : g.tuples = [] := by
  rw [← List.length_eq_zero_iff, g.length_tuples, g.count_of_isVoid hv]

theorem isVoid_iff_count_eq_zero : g.isVoid = true ↔ g.count = 0 := by
  cases hv : g.isVoid with
  | true => simp [g.count_of_isVoid hv]
  | false =>
    have hpos := volume_pos (isVoid_eq_false_iff.1 hv).2
    rw [g.count_of_not_isVoid hv]
    simp only [Bool.false_eq_true, false_iff]
    omega

theorem not_isVoid_of_lt_count {g : Grid α} {n : Nat} (h : n < g.count) : g.isVoid = false := by
  rw [Bool.eq_false_iff]
  intro hv
  rw [g.count_of_isVoid hv] at h
  exact Nat.not_lt_zero n h

theorem lt_volume_of_lt_count {g : Grid α} {n : Nat} (h : n < g.count) : n < volume g.radices := by
  rwa [g.count_of_not_isVoid (not_isVoid_of_lt_count h)] at h

theorem writes_of_lt_count {g : Grid α} {n : Nat} (h : n < g.count) :
    Writes (numeral g.radices n) g.radices n := writes_numeral (lt_volume_of_lt_count h)

theorem getElem?_tuples_of_le {g : Grid α} {n : Nat} (h : g.count ≤ n) : g.tuples[n]? = none := by
  rw [List.getElem?_eq_none_iff, g.length_tuples]
  exact h

theorem exists_tupleAt {ds : List Word} {n : Nat} (hv : g.isVoid = false)
    (h : Writes ds g.radices n) : ∃ t, g.tupleAt ds = .ok t ∧ g.tuples[n]? = some t := by
  obtain ⟨hlen, hrange, rfl⟩ := h
  rw [g.tuples_of_not_isVoid hv]
  rw [g.radices_eq] at hlen hrange ⊢
  exact exists_readTuple (by rw [hlen, List.length_map]) hrange

theorem cardinality?_radices : cardinality? g.radices = Word.ofNat? g.count := cardinality?_eq g.radices

theorem cardinality?_of_count_le {g : Grid α} {r : Word} (h : g.count ≤ r.toNat) :
    cardinality? g.radices = some (UInt64.ofNat g.count) := by
  have hlt := Nat.lt_of_le_of_lt h r.toNat_lt
  rw [cardinality?_radices]
  exact Word.ofNat?_eq_some_iff.2 (UInt64.toNat_ofNat_of_lt' hlt)

theorem cardinality_eq :
    g.cardinality = (Word.ofNat? g.count).elim (.error .cardinalityOverflow) .ok := by
  rw [cardinality, cardinality?_radices]
  cases Word.ofNat? g.count <;> rfl

theorem cardinality_eq_ok_iff {c : Word} : g.cardinality = .ok c ↔ c.toNat = g.count := by
  rw [cardinality_eq, ← Word.ofNat?_eq_some_iff]
  cases Word.ofNat? g.count <;> simp

theorem cardinality_eq_error_iff :
    g.cardinality = .error .cardinalityOverflow ↔ UInt64.size ≤ g.count := by
  rw [cardinality_eq, ← Word.ofNat?_eq_none_iff]
  cases Word.ofNat? g.count <;> simp

theorem unrank?_radices (r : Word) : unrank? r g.radices =
    .ok (if r.toNat < g.count then some (numeral g.radices r.toNat) else none) := by
  rw [unrank?_eq]
  show Except.ok (if g.isVoid then none else numeral? g.radices r.toNat) = _
  cases hv : g.isVoid with
  | true => rw [g.count_of_isVoid hv, if_pos rfl, if_neg (Nat.not_lt_zero _)]
  | false => rw [g.count_of_not_isVoid hv, if_neg Bool.false_ne_true, numeral?]

/-- **The tuple of a rank** is found by the digits of the rank. -/
theorem get?_eq (r : Word) : g.get? r = .ok g.tuples[r.toNat]? := by
  rw [get?, g.unrank?_radices, Checked.ok_bind]
  rcases Nat.lt_or_ge r.toNat g.count with h | h
  · have hv := not_isVoid_of_lt_count h
    obtain ⟨t, hread, hget⟩ := g.exists_tupleAt hv (writes_of_lt_count h)
    rw [if_pos h, hget]
    dsimp only
    rw [hread]
    rfl
  · rw [if_neg (Nat.not_lt.2 h), getElem?_tuples_of_le h]
    rfl

theorem get?_eq_none_iff {r : Word} : g.get? r = .ok none ↔ g.count ≤ r.toNat := by
  rw [g.get?_eq, Except.ok.injEq, List.getElem?_eq_none_iff, g.length_tuples]

end Grid

end LexProduct
