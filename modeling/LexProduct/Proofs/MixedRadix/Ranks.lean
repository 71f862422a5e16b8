import LexProduct.Proofs.MixedRadix.Count
import Mathlib.Logic.Equiv.Defs

/-!
# Ranks and numerals

Dividing a rank from the last place and reading digits from the first undo each other. `rankEquiv` is that
correspondence between the ranks that are words and the numerals whose value is one, said without either
computation:

* `unrank?_eq_rankEquiv`, `rank?_eq_rankEquiv`: the two computations find it;
* `ranks_biject_numerals`: together with all that they refuse.

More numerals than words leave no word without a numeral, but numerals without a rank. Void radices have
neither.
-/

namespace LexProduct.MixedRadix

/-- A word that is the rank of a numeral. -/
@[ext] structure Rank (rs : List Word) where
  rank : Word
  lt_volume : rank.toNat < volume rs

/-- A numeral whose value is a word. -/
@[ext] structure Numeral (rs : List Word) where
  digits : List Word
  length_eq : digits.length = rs.length
  inRange : InRange (wheels digits rs)
  value_lt : value (wheels digits rs) < UInt64.size

variable {rs : List Word}

def Rank.numeral (r : Rank rs) : Numeral rs where
  digits := MixedRadix.numeral rs r.rank.toNat
  length_eq := length_numeral rs _
  inRange := inRange_numeral (zero_notMem_of_lt_volume r.lt_volume) _
  value_lt := by
    rw [value_numeral_of_lt r.lt_volume]
    exact r.rank.toNat_lt

def Numeral.rank (d : Numeral rs) : Rank rs where
  rank := UInt64.ofNatLT (value (wheels d.digits rs)) d.value_lt
  lt_volume := value_wheels_lt d.length_eq d.inRange

def rankEquiv (rs : List Word) : Rank rs ≃ Numeral rs where
  toFun := Rank.numeral
  invFun := Numeral.rank
  left_inv r := by
    apply Rank.ext
    apply UInt64.toNat_inj.1
    exact value_numeral_of_lt r.lt_volume
  right_inv d := by
    apply Numeral.ext
    exact numeral_value_wheels d.length_eq d.inRange

/-! ### The two computations -/

theorem unrank?_of_not_void (h : ¬ (rs = [] ∨ 0 ∈ rs)) (r : Word) :
    unrank? r rs = .ok (numeral? rs r.toNat) := by
  rw [unrank?_eq, if_neg (mt isVoid_iff.1 h)]

theorem unrank?_eq_rankEquiv (h : ¬ (rs = [] ∨ 0 ∈ rs)) (r : Rank rs) :
    unrank? r.rank rs = .ok (some (rankEquiv rs r).digits) := by
  rw [unrank?_of_not_void h, numeral?_of_lt r.lt_volume]
  rfl

theorem rank?_eq_rankEquiv (d : Numeral rs) :
    rank? d.digits rs = some ((rankEquiv rs).symm d).rank := by
  rw [rank?_of_inRange d.inRange, Word.ofNat?_eq_some_iff]
  exact UInt64.toNat_ofNatLT ..

/-- **Ranks and numerals correspond one to one.** Without a zero among them, radices have a bijection
between the words below their product and the numerals whose value is a word; `unrank?` computes it and
`rank?` its inverse. A word past the last numeral has no digits, and digits in range whose value is no word
have no rank. Where there is no radix, or a zero among them, no word has digits, and none is divided by
zero. -/
theorem ranks_biject_numerals (rs : List Word) :
    if rs = [] ∨ 0 ∈ rs then
      ∀ r, unrank? r rs = .ok none
    else
      (∃ e : Rank rs ≃ Numeral rs,
        (∀ r : Rank rs, unrank? r.rank rs = .ok (some (e r).digits)) ∧
        ∀ d : Numeral rs, rank? d.digits rs = some (e.symm d).rank) ∧
      (∀ r : Word, volume rs ≤ r.toNat → unrank? r rs = .ok none) ∧
      ∀ ds : List Word, ds.length = rs.length → InRange (wheels ds rs) →
        UInt64.size ≤ value (wheels ds rs) → rank? ds rs = none := by
  split
  · rename_i hvoid
    intro r
    rw [unrank?_eq, if_pos (isVoid_iff.2 hvoid)]
  · rename_i hvoid
    refine ⟨⟨rankEquiv rs, unrank?_eq_rankEquiv hvoid, rank?_eq_rankEquiv⟩, ?_, ?_⟩
    · intro r hr
      rw [unrank?_of_not_void hvoid, numeral?_of_le hr]
    · intro ds _ hds hvalue
      rw [rank?_of_inRange hds, Word.ofNat?_eq_none_iff]
      exact hvalue

/-- Twice as many numerals as words, less two: the greatest word has digits, the last digits no rank. -/
example : unrank? Word.maxValue [Word.maxValue, 2] = .ok (some [0x7FFFFFFFFFFFFFFF, 1]) ∧
    rank? [Word.maxValue - 1, 1] [Word.maxValue, 2] = none := ⟨rfl, rfl⟩

end LexProduct.MixedRadix
