import LexProduct.Proofs.MixedRadix.Count

/-!
# The order of the numerals

Of two numerals the one with the smaller digit at the first place where they differ shows the smaller
number, whatever stands behind that place: all places behind it together are worth less than one unit of
its digit. So numbers are in the order of their numerals, and the ranks, which are the numbers that are
words, come before all others:

* `mul_add_lt_mul_add_iff`: the first digit decides unless it is shared;
* `Writes.lt_iff_lex`: numbers compare as the digits that write them;
* `unrank?_eq_some_iff`: a word has the digits that write it;
* `rank_order_is_lexicographic`: the order of ranks, read from digits and to digits.
-/

namespace LexProduct.MixedRadix

/-! ### Numbers -/

/-- What is below one unit of the first digit decides only where that digit is shared. -/
theorem mul_add_lt_mul_add_iff {d e u v w : Nat} (hv : v < u) (hw : w < u) :
    d * u + v < e * u + w ↔ d < e ∨ d = e ∧ v < w := by
  -- a smaller first digit is smaller by a whole unit
  have hunit : ∀ {i j : Nat}, i < j → i * u + u ≤ j * u := by
    intro i j h
    rw [← Nat.succ_mul]
    exact Nat.mul_le_mul_right u h
  rcases Nat.lt_trichotomy d e with h | rfl | h
  · have := hunit h
    omega
  · omega
  · have := hunit h
    omega

variable {rs a b : List Word} {m n : Nat}

/-- **Numbers compare as the digits that write them.** -/
theorem Writes.lt_iff_lex (ha : Writes a rs m) (hb : Writes b rs n) :
    m < n ↔ List.Lex (· < ·) a b := by
  induction rs generalizing a b m n with
  | nil =>
    obtain rfl := List.length_eq_zero_iff.1 ha.length_eq
    obtain rfl := List.length_eq_zero_iff.1 hb.length_eq
    obtain rfl := ha.value_eq
    obtain rfl := hb.value_eq
    simp
  | cons r rs ih =>
    cases a with
    | nil => exact nomatch ha.length_eq
    | cons d ds =>
      cases b with
      | nil => exact nomatch hb.length_eq
      | cons e es =>
        obtain ⟨-, v, hv, rfl⟩ := writes_cons_iff.1 ha
        obtain ⟨-, w, hw, rfl⟩ := writes_cons_iff.1 hb
        rw [mul_add_lt_mul_add_iff hv.lt_volume hw.lt_volume, ih hv hw, List.cons_lex_cons_iff,
          UInt64.lt_iff_toNat_lt, UInt64.toNat_inj]

theorem Writes.eq_iff (ha : Writes a rs m) (hb : Writes b rs n) : m = n ↔ a = b := by
  constructor
  · rintro rfl
    rw [(writes_iff ha.lt_volume).1 ha, (writes_iff hb.lt_volume).1 hb]
  · rintro rfl
    rw [← ha.value_eq, ← hb.value_eq]

/-! ### Ranks -/

theorem Writes.rank?_eq_some_iff (h : Writes a rs m) {x : Word} :
    rank? a rs = some x ↔ x.toNat = m := by
  rw [h.rank?_eq, Word.ofNat?_eq_some_iff]

theorem Writes.rank?_isSome_iff (h : Writes a rs m) :
    (rank? a rs).isSome = true ↔ m < UInt64.size := by
  rw [h.rank?_eq, Word.ofNat?_isSome_iff]

theorem unrank?_eq_some_iff (hne : rs ≠ []) {r : Word} {ds : List Word} :
    unrank? r rs = .ok (some ds) ↔ Writes ds rs r.toNat := by
  rw [unrank?_eq]
  rcases Nat.lt_or_ge r.toNat (volume rs) with hlt | hge
  · have hv : isVoid rs = false := isVoid_eq_false_iff.2 ⟨hne, zero_notMem_of_lt_volume hlt⟩
    rw [hv, if_neg Bool.false_ne_true, numeral?_of_lt hlt, writes_iff hlt, Except.ok.injEq,
      Option.some.injEq, eq_comm]
  · -- past the last numeral there are no digits, whether the radices are void or not
    rw [numeral?_of_le hge, ite_self]
    constructor
    · intro h
      exact nomatch h
    · intro h
      exact absurd h.lt_volume (Nat.not_lt.2 hge)

theorem exists_unrank?_iff {r : Word} :
    (∃ ds, unrank? r rs = .ok (some ds)) ↔ rs ≠ [] ∧ r.toNat < volume rs := by
  by_cases hne : rs = []
  · subst hne
    rw [unrank?_eq]
    simp [isVoid]
  · simp only [unrank?_eq_some_iff hne, hne, ne_eq, not_false_iff, true_and]
    constructor
    · rintro ⟨ds, h⟩
      exact h.lt_volume
    · intro h
      exact ⟨_, writes_numeral h⟩

/-- **The order of ranks is the lexicographic order of digits.** Of two digit vectors, each digit below its
radix, those have a rank whose value is a word. Where both have one, the ranks are in the order of the
digits, and equal only for equal digits; and what has a rank leaves none without one before it.
Conversely, the words below the product of the radices have digits; what is below a word that has digits
has digits too, and they come first. -/
theorem rank_order_is_lexicographic (rs : List Word) :
    (∀ a b : List Word, a.length = rs.length → InRange (wheels a rs) →
      b.length = rs.length → InRange (wheels b rs) →
      ((rank? a rs).isSome = true ↔ value (wheels a rs) < UInt64.size) ∧
      (∀ x y, rank? a rs = some x → rank? b rs = some y →
        (x < y ↔ List.Lex (· < ·) a b) ∧ (x = y → a = b)) ∧
      (a = b ∨ List.Lex (· < ·) a b → (rank? b rs).isSome = true → (rank? a rs).isSome = true)) ∧
    ∀ s : Word, ((∃ e, unrank? s rs = .ok (some e)) ↔ rs ≠ [] ∧ s.toNat < volume rs) ∧
      ∀ r < s, ∀ e, unrank? s rs = .ok (some e) →
        ∃ d, unrank? r rs = .ok (some d) ∧ List.Lex (· < ·) d e := by
  constructor
  · intro a b halen hain hblen hbin
    have ha : Writes a rs (value (wheels a rs)) := ⟨halen, hain, rfl⟩
    have hb : Writes b rs (value (wheels b rs)) := ⟨hblen, hbin, rfl⟩
    refine ⟨ha.rank?_isSome_iff, ?_, ?_⟩
    · intro x y hx hy
      have hx' := ha.rank?_eq_some_iff.1 hx
      have hy' := hb.rank?_eq_some_iff.1 hy
      rw [← ha.lt_iff_lex hb, ← ha.eq_iff hb, ← hx', ← hy', UInt64.lt_iff_toNat_lt,
        UInt64.toNat_inj]
      exact ⟨Iff.rfl, id⟩
    · intro hle
      rw [← ha.lt_iff_lex hb, ← ha.eq_iff hb] at hle
      rw [ha.rank?_isSome_iff, hb.rank?_isSome_iff]
      intro hfits
      omega
  · intro s
    refine ⟨exists_unrank?_iff, ?_⟩
    intro r hrs e he
    obtain ⟨hne, -⟩ := exists_unrank?_iff.1 ⟨e, he⟩
    have hwrites := (unrank?_eq_some_iff hne).1 he
    have hlt := UInt64.lt_iff_toNat_lt.1 hrs
    have hr := writes_numeral (Nat.lt_trans hlt hwrites.lt_volume)
    exact ⟨_, (unrank?_eq_some_iff hne).2 hr, (hr.lt_iff_lex hwrites).1 hlt⟩

/-- Of more numerals than words, the last one that has a rank and the next, which has none. -/
example : rank? [0x7FFFFFFFFFFFFFFF, 1] [Word.maxValue, 2] = some Word.maxValue ∧
    rank? [0x8000000000000000, 0] [Word.maxValue, 2] = none := ⟨rfl, rfl⟩

end LexProduct.MixedRadix
