import LexProduct.Proofs.Indices
import Mathlib.Algebra.BigOperators.Group.List.Basic
import Mathlib.Algebra.Ring.Nat
import Mathlib.Tactic.TFAE

/-!
# Numbers of tuples

Three numbers are answered without listing anything: how many tuples a grid has, how many of them stand
before the next tuple of a pass, and how many are left from it on. Each is computed by a fold of its own
and refused where it is no word, whatever becomes of the other two. The numbers themselves fit together:

* `cardinality_is_exact_product`: the number of tuples is the product of the lengths in any order, and it
  is the number of tuples that draws find;
* `rank_and_remaining_share_cardinality`: what stands before the next tuple and what is left from it on
  make up all tuples, and a draw moves one tuple from there to here;
* `emptiness_tfae`: whatever can tell that there are no tuples tells the same.
-/

namespace LexProduct

open MixedRadix

variable {α : Type}

/-! ### All tuples -/

theorem volume_eq_prod (rs : List Word) : volume rs = (rs.map UInt64.toNat).prod := by
  induction rs with
  | nil => rfl
  | cons r rs ih => rw [volume_cons, List.map_cons, List.prod_cons, ih]

/-- The product of the lengths; no length at all has no tuple. -/
def exactProduct (rs : List Word) : Nat := if rs = [] then 0 else (rs.map UInt64.toNat).prod

theorem exactProduct_perm {rs rs' : List Word} (h : rs'.Perm rs) :
    exactProduct rs' = exactProduct rs := by
  have hnil : rs' = [] ↔ rs = [] := ⟨fun h' => (h' ▸ h).nil_eq.symm, fun h' => (h' ▸ h).eq_nil⟩
  simp only [exactProduct, hnil, (h.map UInt64.toNat).prod_eq]

theorem exactProduct_of_zero_mem {rs : List Word} (h : 0 ∈ rs) : exactProduct rs = 0 := by
  rw [exactProduct, ← volume_eq_prod, volume_eq_zero_iff.2 h, ite_self]

theorem cardinality?_eq_exactProduct (rs : List Word) :
    cardinality? rs = Word.ofNat? (exactProduct rs) := by
  rw [cardinality?_eq, exactProduct, ← volume_eq_prod]
  by_cases hnil : rs = []
  · subst hnil
    rfl
  · rw [if_neg hnil]
    by_cases h0 : 0 ∈ rs
    · rw [volume_eq_zero_iff.2 h0, ite_self]
    · rw [if_neg (mt isVoid_iff.1 (not_or.2 ⟨hnil, h0⟩))]

/-- **The number of tuples is the exact product of the lengths**, if it is a word. So it does not depend on
their order, a length of zero makes it zero however large the others are, and a product that 2^64 divides
is not mistaken for zero. It is the number of tuples that draws find before they find none. -/
theorem cardinality_is_exact_product :
    (∀ rs : List Word, cardinality? rs = Word.ofNat? (exactProduct rs) ∧
      (∀ rs', rs'.Perm rs → cardinality? rs' = cardinality? rs) ∧
      (0 ∈ rs → cardinality? rs = some 0) ∧
      (exactProduct rs ≠ 0 → UInt64.size ∣ exactProduct rs → cardinality? rs = none)) ∧
    ∀ (g : Grid α) (c : Word), g.cardinality = .ok c ↔
      ∃ found, Yields Pass.next g.pass found ∧ found.length = c.toNat := by
  constructor
  · intro rs
    refine ⟨cardinality?_eq_exactProduct rs, ?_, ?_, ?_⟩
    · intro rs' hperm
      rw [cardinality?_eq_exactProduct, cardinality?_eq_exactProduct, exactProduct_perm hperm]
    · intro h0
      rw [cardinality?_eq_exactProduct, exactProduct_of_zero_mem h0]
      rfl
    · intro hne hdvd
      rw [cardinality?_eq_exactProduct, Word.ofNat?_eq_none_iff]
      exact Nat.le_of_dvd (Nat.pos_of_ne_zero hne) hdvd
  · intro g c
    rw [g.cardinality_eq_ok_iff, ← g.length_tuples, ← Pass.rest_pass]
    constructor
    · intro hc
      exact ⟨_, Pass.yields_rest (Pass.sound_pass g), hc.symm⟩
    · rintro ⟨found, hfound, hlen⟩
      rw [← (Pass.yields_iff (Pass.sound_pass g)).1 hfound, hlen]

/-- A factor of zero behind factors whose product is no word. -/
example : cardinality? [Word.maxValue, 2] = none ∧ cardinality? [Word.maxValue, 2, 0] = some 0 :=
  ⟨rfl, rfl⟩

/-! ### The tuples before and behind -/

theorem Word.exists_parts {c : Word} {r : Nat} (h : r ≤ c.toNat) :
    ∃ before left : Word, ofNat? r = some before ∧ ofNat? (c.toNat - r) = some left ∧
      before.toNat + left.toNat = c.toNat := by
  obtain ⟨before, hr, hbefore⟩ := exists_ofNat?_of_le h
  obtain ⟨left, hleft', hleft⟩ := exists_ofNat?_of_le (Nat.sub_le c.toNat r)
  exact ⟨before, left, hr, hleft', by omega⟩

/-- A draw finds the tuple of the rank and goes one rank further, unless the tuple was the last one. -/
theorem Pass.exists_next_passAt {g : Grid α} {r : Nat} (h : r < g.count) :
    ∃ t q, (g.passAt r).next = .ok (some t, q) ∧ g.tuples[r]? = some t ∧
      if r + 1 = g.count then q.position = none ∧ q.rank = none
      else ∃ ds, q.position = some ds ∧ value (wheels ds g.radices) = r + 1 := by
  have hentry := List.getElem?_eq_getElem (g.length_tuples ▸ h)
  have hnext := next_passAt (Grid.not_isVoid_of_lt_count h) r
  rw [hentry] at hnext
  refine ⟨_, _, hnext, hentry, ?_⟩
  split
  · -- the tuple drawn was the last one
    rename_i hlast
    have hposition := position_passAt_of_le (Nat.le_of_eq hlast.symm)
    exact ⟨hposition, rank_of_position_eq_none hposition⟩
  · rename_i hmore
    exact hasRank_passAt (by omega)

/-- **Rank and number left share the number of tuples.** After any history, a pass without a position draws
nothing. Otherwise let the position have the value `r`, and let `n` be the product of the lengths. The rank
is `r`, the number left is `n - r` and the number of tuples is `n`, each if it is a word and each apart
from the others; so where `n` is a word the two others are words with this sum. A draw then finds the tuple
of rank `r` and moves the rank up by one, or, behind the last tuple, leaves neither position nor rank. -/
theorem rank_and_remaining_share_cardinality (g : Grid α) (calls : List Pass.Call) :
    ∃ answers p, g.pass.run calls = .ok (answers, p) ∧
      (p.position = none → ∃ q, p.next = .ok (none, q)) ∧ ∀ ds, p.position = some ds →
      let r := value (wheels ds g.radices)
      let n := volume g.radices
      r < n ∧ n = g.tuples.length ∧
      p.rank = Word.ofNat? r ∧
      p.remaining = .ok (Word.ofNat? (n - r)) ∧
      g.cardinality = (Word.ofNat? n).elim (.error .cardinalityOverflow) .ok ∧
      (∀ c : Word, g.cardinality = .ok c → ∃ before left : Word,
        p.rank = some before ∧ p.remaining = .ok (some left) ∧ before.toNat + left.toNat = c.toNat) ∧
      ∃ t q, p.next = .ok (some t, q) ∧ g.tuples[r]? = some t ∧
        if r + 1 = n then q.position = none ∧ q.rank = none
        else ∃ ds', q.position = some ds' ∧ value (wheels ds' g.radices) = r + 1 := by
  obtain ⟨answers, p, hrun, hp⟩ := Pass.exists_run_over (Pass.over_pass g) calls
  refine ⟨answers, p, hrun, ?_, ?_⟩
  · intro hnone
    exact (Pass.next_finds_none_iff hp.sound).2 (Pass.left_of_position_eq_none hnone)
  intro ds hds r n
  have hrank : p.HasRank r := ⟨ds, hds, by rw [hp.grid_eq]⟩
  obtain ⟨hlt, heq⟩ := hp.sound.eq_passAt_of_hasRank hrank
  rw [hp.grid_eq] at hlt heq
  have hn : n = g.count := (g.count_of_not_isVoid (Grid.not_isVoid_of_lt_count hlt)).symm
  have hbefore := Pass.rank_passAt hlt
  have hleft := Pass.remaining_eq hp.sound
  rw [heq, Pass.left_passAt] at hleft
  rw [hn, heq]
  refine ⟨hlt, g.length_tuples.symm, hbefore, hleft, g.cardinality_eq, ?_, Pass.exists_next_passAt hlt⟩
  intro c hc
  rw [g.cardinality_eq_ok_iff] at hc
  rw [hbefore, hleft, ← hc]
  obtain ⟨before, left, hr, hrest, hsum⟩ := Word.exists_parts (c := c) (r := r) (by omega)
  exact ⟨before, left, hr, congrArg Except.ok hrest, hsum⟩

/-- Of twice the greatest word of tuples, the greatest word on either side of the position. -/
example : (do
    let g := Grid.ofList [Dimension.replicate Word.maxValue (), Dimension.replicate 2 ()]
    match ← g.pass.seek Word.maxValue with
    | .ok p => return (p.rank, ← p.remaining)
    | .error _ => return (none, none) : Checked (Option Word × Option Word)) =
    .ok (some Word.maxValue, some Word.maxValue) := rfl

/-! ### No tuples -/

/-- **Whatever can tell that there are no tuples tells the same**: the grid, its number of tuples, access
by rank, a new pass by what it shows, by its draws and by its seeks, the ranks of indices, and the list
of tuples. -/
theorem emptiness_tfae (g : Grid α) : List.TFAE [
    g.isVoid = true,
    g.cardinality = .ok 0,
    g.get? 0 = .ok none,
    ∀ r, g.get? r = .ok none,
    g.pass.position = none,
    g.pass.rank = none,
    g.pass.remaining = .ok (some 0),
    ∃ q, g.pass.next = .ok (none, q),
    ∀ n, ∃ q, g.pass.nth n = .ok (none, q),
    ∀ r, g.pass.seek r = .ok (.error (.rankOutOfRange r 0)),
    ∀ indices, ∃ e, g.rankOf indices = .error e,
    g.tuples = []] := by
  have hsound := Pass.sound_pass g
  have hleft := Pass.left_pass g
  have hzero := g.isVoid_iff_count_eq_zero
  tfae_have 1 ↔ 2 := by
    rw [hzero, g.cardinality_eq_ok_iff]
    exact eq_comm
  tfae_have 1 ↔ 3 := by
    rw [hzero, g.get?_eq_none_iff]
    exact Nat.le_zero.symm
  tfae_have 1 → 4 := by
    intro hv r
    rw [g.get?_eq_none_iff, hzero.1 hv]
    exact Nat.zero_le _
  tfae_have 4 → 3 := fun h => h 0
  tfae_have 1 ↔ 5 := by
    rw [hzero, ← Option.not_isSome_iff_eq_none, Pass.position_isSome_iff hsound, hleft]
    omega
  tfae_have 5 → 6 := Pass.rank_of_position_eq_none
  tfae_have 6 → 1 := by
    intro h
    by_contra hv
    have hpos : 0 < g.count := Nat.pos_of_ne_zero (mt hzero.2 hv)
    rw [Grid.pass_eq_passAt (Bool.eq_false_iff.2 hv), Pass.rank_passAt hpos] at h
    exact nomatch h
  tfae_have 1 ↔ 7 := by
    rw [hzero, Pass.remaining_eq hsound, hleft, Except.ok.injEq, Word.ofNat?_eq_some_iff]
    exact eq_comm
  tfae_have 1 ↔ 8 := by rw [hzero, Pass.next_finds_none_iff hsound, hleft]
  tfae_have 1 → 9 := by
    intro hv n
    rw [Pass.nth_finds_none_iff hsound, hleft, hzero.1 hv]
    exact Nat.zero_le _
  tfae_have 9 → 8 := by
    intro h
    rw [Pass.next_finds_none_iff hsound]
    exact Nat.le_zero.1 ((Pass.nth_finds_none_iff hsound).1 (h 0))
  tfae_have 1 → 10 := by
    intro hv r
    rw [(Pass.over_pass g).seek_of_le (hzero.1 hv ▸ Nat.zero_le _), hzero.1 hv]
    rfl
  tfae_have 10 → 1 := by
    intro h
    by_contra hv
    have hseek := (Pass.over_pass g).seek_of_lt (r := 0) (Nat.pos_of_ne_zero (mt hzero.2 hv))
    rw [h 0] at hseek
    exact nomatch Except.ok.inj hseek
  tfae_have 1 ↔ 11 := Grid.rankOf_refuses_all_iff.symm
  tfae_have 1 ↔ 12 := by rw [hzero, ← g.length_tuples, List.length_eq_zero_iff]
  tfae_finish

end LexProduct
