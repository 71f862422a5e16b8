import LexProduct.Proofs.RandomAccess

/-!
# The rank of indices

One index for each dimension, each inside its dimension, is a tuple named by its place. The grid ranks it
without looking at any element, and refuses everything else for the first reason that applies:

* `exists_firstOutside`: the search for an index outside its dimension finds the first one;
* `rankOf_of_inRange`: indices inside have the rank that they show as digits, if it is a word;
* `exists_get?_of_writes`, `seeksTo_of_writes`: that rank leads back to the tuple and to the indices;
* `rankOf_decided`: all answers, in the order in which they are considered.

So a grid with more tuples than words still ranks those tuples whose rank is a word.
-/

namespace LexProduct

open MixedRadix

variable {α : Type}

/-- The tuple takes from each dimension the element at its index. -/
inductive Selects : List (Dimension α) → List Word → List α → Prop
  | nil : Selects [] [] []
  | cons {d : Dimension α} {i : Word} {x : α} {dims : List (Dimension α)} {indices : List Word}
      {t : List α} (head : d.toList[i.toNat]? = some x) (tail : Selects dims indices t) :
      Selects (d :: dims) (i :: indices) (x :: t)

theorem Dimension.read_eq_ok_iff {d : Dimension α} {i : Word} {x : α} :
    d.read i = .ok x ↔ d.toList[i.toNat]? = some x := by
  by_cases h : i < d.length
  · rw [read_of_lt h, getElem?_toList h, Except.ok.injEq, Option.some.injEq]
  · rw [UInt64.lt_iff_toNat_lt] at h
    rw [read, dif_neg h, List.getElem?_eq_none (by rw [length_toList]; omega)]
    simp

theorem selects_of_readTuple {dims : List (Dimension α)} {indices : List Word} {t : List α}
    (hlen : indices.length = dims.length) (h : Grid.readTuple dims indices = .ok t) :
    Selects dims indices t := by
  induction dims generalizing indices t with
  | nil =>
    obtain rfl := List.length_eq_zero_iff.1 hlen
    obtain rfl := Except.ok.inj h
    exact .nil
  | cons d dims ih =>
    cases indices with
    | nil => simp at hlen
    | cons i indices =>
      obtain ⟨x, hx, h⟩ := Checked.bind_eq_ok_iff.1 h
      obtain ⟨t, ht, h⟩ := Checked.bind_eq_ok_iff.1 h
      obtain rfl := Except.ok.inj h
      exact .cons (Dimension.read_eq_ok_iff.1 hx) (ih (Nat.succ.inj hlen) ht)

namespace Grid

variable {g : Grid α} {indices : List Word}

/-! ### The first index outside its dimension -/

/-- Dimension `i` is the first that has no element at its index. -/
structure FirstOutside (g : Grid α) (indices : List Word) (i : Nat) (index : Word) (d : Dimension α) :
    Prop where
  index_eq : indices[i]? = some index
  dimension_eq : g.dimensions[i]? = some d
  length_le : d.length ≤ index
  lt_before : ∀ j < i, ∀ index' d', indices[j]? = some index' → g.dimensions[j]? = some d' →
    index' < d'.length

theorem getElem?_wheels_radices_iff {j : Nat} {w : Wheel} :
    (wheels indices g.radices)[j]? = some w ↔
      indices[j]? = some w.digit ∧ ∃ d, g.dimensions[j]? = some d ∧ d.length = w.radix := by
  rw [wheels, List.getElem?_zipWith_eq_some, g.radices_eq]
  constructor
  · rintro ⟨index, length, hindex, hlength, rfl⟩
    rw [List.getElem?_map, Option.map_eq_some_iff] at hlength
    exact ⟨hindex, hlength⟩
  · rintro ⟨hindex, d, hd, hlength⟩
    refine ⟨w.digit, w.radix, hindex, ?_, rfl⟩
    rw [List.getElem?_map, hd, Option.map_some, hlength]

theorem find?_wheel_eq_none_iff {ws : List Wheel} :
    (ws.zipIdx.find? fun (w, _) => w.radix ≤ w.digit) = none ↔ InRange ws := by
  rw [List.find?_eq_none]
  constructor
  · intro h w hw
    obtain ⟨i, hi⟩ := List.getElem?_of_mem hw
    simpa using h (w, i) (List.mem_zipIdx_iff_getElem?.2 hi)
  · rintro h ⟨w, i⟩ hw
    simpa using h w (List.mem_of_getElem? (List.mem_zipIdx_iff_getElem?.1 hw))

/-- The search finds a place, and only places in range before it. -/
theorem exists_find?_wheel {ws : List Wheel} (h : ¬ InRange ws) :
    ∃ i w, (ws.zipIdx.find? fun (w, _) => w.radix ≤ w.digit) = some (w, i) ∧ ws[i]? = some w ∧
      w.radix ≤ w.digit ∧ ∀ j < i, ∀ v, ws[j]? = some v → v.digit < v.radix := by
  cases hfind : ws.zipIdx.find? fun (w, _) => w.radix ≤ w.digit with
  | none => exact absurd (find?_wheel_eq_none_iff.1 hfind) h
  | some found =>
    obtain ⟨houtside, i, hi, rfl, hbefore⟩ := List.find?_eq_some_iff_getElem.1 hfind
    rw [List.length_zipIdx] at hi
    simp only [List.getElem_zipIdx, decide_eq_true_eq, Bool.not_eq_true', decide_eq_false_iff_not,
      UInt64.not_le, Nat.zero_add] at houtside hbefore ⊢
    refine ⟨i, ws[i], rfl, List.getElem?_eq_getElem hi, houtside, ?_⟩
    intro j hj v hv
    obtain ⟨hjlt, rfl⟩ := List.getElem?_eq_some_iff.1 hv
    exact hbefore j hj

theorem firstOutOfRange?_of_inRange (h : InRange (wheels indices g.radices)) :
    g.firstOutOfRange? indices = none := by
  rw [firstOutOfRange?, find?_wheel_eq_none_iff.2 h]
  rfl

theorem exists_firstOutside (h : ¬ InRange (wheels indices g.radices)) :
    ∃ i index d, g.FirstOutside indices i index d ∧
      g.firstOutOfRange? indices = some (.indexOutOfRange i index d.length) := by
  obtain ⟨i, w, hfind, hw, hle, hbefore⟩ := exists_find?_wheel h
  obtain ⟨hindex, d, hd, hlength⟩ := getElem?_wheels_radices_iff.1 hw
  refine ⟨i, w.digit, d, ⟨hindex, hd, hlength ▸ hle, ?_⟩, ?_⟩
  · intro j hj index' d' hindex' hd'
    exact hbefore j hj ⟨index', d'.length⟩ (getElem?_wheels_radices_iff.2 ⟨hindex', d', hd', rfl⟩)
  · rw [firstOutOfRange?, hfind, hlength]
    rfl

/-! ### Indices inside their dimensions -/

section Inside

variable (hlen : indices.length = g.size) (h : InRange (wheels indices g.radices))
include hlen h

theorem isVoid_of_inRange (hne : g.size ≠ 0) : g.isVoid = false := by
  have hlt := value_wheels_lt (hlen.trans g.length_radices.symm) h
  refine isVoid_eq_false_iff.2 ⟨?_, zero_notMem_of_lt_volume hlt⟩
  intro hnil
  rw [← length_radices, hnil] at hne
  exact hne rfl

/-- **Indices inside have the rank that they show as digits**, if it is a word. -/
theorem rankOf_of_inRange (hne : g.size ≠ 0) :
    g.rankOf indices = match Word.ofNat? (value (wheels indices g.radices)) with
      | some r => .ok r
      | none => .error .cardinalityOverflow := by
  have hnil : indices.isEmpty = false := by
    rw [List.isEmpty_eq_false_iff]
    rintro rfl
    exact hne hlen.symm
  rw [rankOf, if_neg (not_not_intro hlen), firstOutOfRange?_of_inRange h]
  dsimp only
  rw [hnil, rank?_of_inRange h]
  rfl

end Inside

theorem rankOf_of_length_ne (hlen : indices.length ≠ g.size) :
    g.rankOf indices = .error (.arityMismatch g.size indices.length) := if_pos hlen

theorem rankOf_of_outside (hlen : indices.length = g.size)
    (h : ¬ InRange (wheels indices g.radices)) :
    ∃ i index d, g.FirstOutside indices i index d ∧
      g.rankOf indices = .error (.indexOutOfRange i index d.length) := by
  obtain ⟨i, index, d, hfirst, hfound⟩ := exists_firstOutside h
  refine ⟨i, index, d, hfirst, ?_⟩
  rw [rankOf, if_neg (not_not_intro hlen), hfound]

theorem rankOf_of_size_eq_zero (hlen : indices.length = g.size) (h : g.size = 0) :
    g.rankOf indices = .error (.rankOutOfRange 0 0) := by
  obtain rfl := List.length_eq_zero_iff.1 (hlen.trans h)
  rw [rankOf, if_neg (not_not_intro hlen)]
  rfl

/-! ### From the rank back -/

/-- A seek of `r` puts a pass over the grid on these indices, whatever has been done with the pass. -/
def SeeksTo (g : Grid α) (r : Word) (indices : List Word) : Prop :=
  ∀ calls : List Pass.Call, ∃ answers p q, g.pass.run calls = .ok (answers, p) ∧
    p.seek r = .ok (.ok q) ∧ q.position = some indices

theorem lt_count_of_writes {n : Nat} (hv : g.isVoid = false) (h : Writes indices g.radices n) :
    n < g.count := by
  rw [g.count_of_not_isVoid hv]
  exact h.lt_volume

section Back

variable {r : Word} (hv : g.isVoid = false) (h : Writes indices g.radices r.toNat)
include hv h

theorem rankOf_of_writes : g.rankOf indices = .ok r := by
  have hne : g.size ≠ 0 := by
    rw [← g.length_radices]
    exact mt List.length_eq_zero_iff.1 (isVoid_eq_false_iff.1 hv).1
  rw [rankOf_of_inRange (h.length_eq.trans g.length_radices) h.inRange hne, h.value_eq,
    Word.ofNat?_toNat]

/-- **The rank leads back to the tuple.** -/
theorem exists_get?_of_writes : ∃ t, g.get? r = .ok (some t) ∧ Selects g.dimensions indices t := by
  obtain ⟨t, hread, hget⟩ := g.exists_tupleAt hv h
  refine ⟨t, ?_, selects_of_readTuple (h.length_eq.trans g.length_radices) hread⟩
  rw [g.get?_eq, hget]

/-- **The rank leads back to the indices.** -/
theorem seeksTo_of_writes : g.SeeksTo r indices := by
  intro calls
  obtain ⟨answers, p, hrun, hp⟩ := Pass.exists_run_over (Pass.over_pass g) calls
  have hlt := lt_count_of_writes hv h
  refine ⟨answers, p, g.passAt r.toNat, hrun, hp.seek_of_lt hlt, ?_⟩
  rw [Pass.position_passAt hlt, (writes_iff h.lt_volume).1 h]

end Back

/-- Indices have a rank exactly when they write it as digits and there are tuples at all. -/
theorem rankOf_eq_ok_iff {r : Word} :
    g.rankOf indices = .ok r ↔ g.isVoid = false ∧ Writes indices g.radices r.toNat := by
  constructor
  · intro h
    by_cases hlen : indices.length = g.size
    · by_cases hin : InRange (wheels indices g.radices)
      · by_cases hsize : g.size = 0
        · rw [rankOf_of_size_eq_zero hlen hsize] at h
          exact nomatch h
        · rw [rankOf_of_inRange hlen hin hsize] at h
          cases hvalue : Word.ofNat? (value (wheels indices g.radices)) with
          | none =>
            rw [hvalue] at h
            exact nomatch h
          | some s =>
            rw [hvalue] at h
            obtain rfl := Except.ok.inj h
            exact ⟨isVoid_of_inRange hlen hin hsize, hlen.trans g.length_radices.symm, hin,
              (Word.ofNat?_eq_some_iff.1 hvalue).symm⟩
      · obtain ⟨i, index, d, -, hrank⟩ := rankOf_of_outside hlen hin
        rw [hrank] at h
        exact nomatch h
    · rw [rankOf_of_length_ne hlen] at h
      exact nomatch h
  · rintro ⟨hv, h⟩
    exact rankOf_of_writes hv h

theorem rankOf_refuses_all_iff :
    (∀ indices, ∃ e, g.rankOf indices = .error e) ↔ g.isVoid = true := by
  constructor
  · intro h
    -- otherwise the first tuple has a rank
    refine Decidable.byContradiction fun hv => ?_
    rw [Bool.not_eq_true] at hv
    have hwrites := writes_numeral (volume_pos (isVoid_eq_false_iff.1 hv).2)
    obtain ⟨e, he⟩ := h (numeral g.radices 0)
    rw [rankOf_eq_ok_iff (r := 0) |>.2 ⟨hv, hwrites⟩] at he
    exact nomatch he
  · intro hv indices
    cases hr : g.rankOf indices with
    | error e => exact ⟨e, rfl⟩
    | ok r =>
      rw [rankOf_eq_ok_iff, hv] at hr
      exact nomatch hr.1

theorem lt_count_of_get? {r : Word} {t : List α} (h : g.get? r = .ok (some t)) :
    r.toNat < g.count := by
  rw [g.get?_eq, Except.ok.injEq] at h
  rw [← g.length_tuples]
  exact (List.getElem?_eq_some_iff.1 h).1

theorem exists_get?_of_seeksTo {r : Word} (h : g.SeeksTo r indices) : ∃ t, g.get? r = .ok (some t) := by
  obtain ⟨answers, p, q, hrun, hseek, -⟩ := h []
  obtain ⟨-, rfl⟩ := Prod.mk.inj (Except.ok.inj hrun)
  rcases Nat.lt_or_ge r.toNat g.count with hlt | hge
  · rw [← g.length_tuples] at hlt
    exact ⟨g.tuples[r.toNat], by rw [g.get?_eq, List.getElem?_eq_getElem hlt]⟩
  · rw [(Pass.over_pass g).seek_of_le hge] at hseek
    simp at hseek

end Grid

/-- **The rank of indices is decided.** The first of these cases that applies gives the answer: the number
of indices is not that of the dimensions; some index lies outside its dimension, and the refusal names the
first such; there is no dimension; the number that the indices show as digits is no word, which takes more
tuples than words. Otherwise that number is the answer, and it leads back to the tuple with these indices
and to the indices. No other word has a tuple. -/
theorem rankOf_decided (g : Grid α) :
    (∀ indices : List Word,
      if indices.length ≠ g.size then
        g.rankOf indices = .error (.arityMismatch g.size indices.length)
      else if ¬ InRange (wheels indices g.radices) then
        ∃ i index d, g.FirstOutside indices i index d ∧
          g.rankOf indices = .error (.indexOutOfRange i index d.length)
      else if g.size = 0 then
        g.rankOf indices = .error (.rankOutOfRange 0 0)
      else if UInt64.size ≤ value (wheels indices g.radices) then
        g.rankOf indices = .error .cardinalityOverflow ∧ g.cardinality = .error .cardinalityOverflow
      else
        ∃ r t, r.toNat = value (wheels indices g.radices) ∧ g.rankOf indices = .ok r ∧
          g.get? r = .ok (some t) ∧ Selects g.dimensions indices t ∧ g.SeeksTo r indices) ∧
    ∀ r : Word, (∃ t, g.get? r = .ok (some t)) ↔
      ∃ indices, g.rankOf indices = .ok r ∧ g.SeeksTo r indices := by
  constructor
  · intro indices
    by_cases hlen : indices.length ≠ g.size
    · rw [if_pos hlen]
      exact Grid.rankOf_of_length_ne hlen
    rw [if_neg hlen]
    rw [Decidable.not_not] at hlen
    by_cases hin : ¬ InRange (wheels indices g.radices)
    · rw [if_pos hin]
      exact Grid.rankOf_of_outside hlen hin
    -- from here on the indices are digits
    rw [if_neg hin]
    rw [Decidable.not_not] at hin
    by_cases hsize : g.size = 0
    · rw [if_pos hsize]
      exact Grid.rankOf_of_size_eq_zero hlen hsize
    rw [if_neg hsize]
    have hv := Grid.isVoid_of_inRange hlen hin hsize
    have hwrites : Writes indices g.radices (value (wheels indices g.radices)) :=
      ⟨hlen.trans g.length_radices.symm, hin, rfl⟩
    cases hr : Word.ofNat? (value (wheels indices g.radices)) with
    | none =>
      -- the tuples before this one are already too many for a word
      have hbig := Word.ofNat?_eq_none_iff.1 hr
      have hcount := Grid.lt_count_of_writes hv hwrites
      rw [if_pos hbig, Grid.rankOf_of_inRange hlen hin hsize, hr, g.cardinality_eq_error_iff]
      exact ⟨rfl, Nat.le_trans hbig (Nat.le_of_lt hcount)⟩
    | some r =>
      have hvalue := Word.ofNat?_eq_some_iff.1 hr
      rw [← hvalue] at hwrites ⊢
      rw [if_neg (Nat.not_le.2 r.toNat_lt)]
      obtain ⟨t, hget, hselects⟩ := Grid.exists_get?_of_writes hv hwrites
      exact ⟨r, t, rfl, Grid.rankOf_of_writes hv hwrites, hget, hselects,
        Grid.seeksTo_of_writes hv hwrites⟩
  · intro r
    constructor
    · rintro ⟨t, hget⟩
      have hlt := Grid.lt_count_of_get? hget
      have hv := Grid.not_isVoid_of_lt_count hlt
      have hwrites := Grid.writes_of_lt_count hlt
      exact ⟨_, Grid.rankOf_of_writes hv hwrites, Grid.seeksTo_of_writes hv hwrites⟩
    · rintro ⟨indices, -, hseeks⟩
      exact Grid.exists_get?_of_seeksTo hseeks

/-- Of more tuples than words, the first 2^64 have a rank. -/
example :
    let g := Grid.ofList [Dimension.replicate Word.maxValue (), Dimension.replicate 2 ()]
    g.cardinality = .error .cardinalityOverflow ∧ g.rankOf [3, 1] = .ok 7 ∧
      g.rankOf [Word.maxValue - 1, 1] = .error .cardinalityOverflow := ⟨rfl, rfl, rfl⟩

end LexProduct
