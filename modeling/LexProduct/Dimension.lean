import LexProduct.Word

/-!
# Dimensions

A dimension is a finite sequence whose length is a word. Its elements are given by a function of the
position, so a dimension of 2^64 - 1 equal elements costs nothing.
-/

namespace LexProduct

/-- A finite sequence that words can index. -/
structure Dimension (α : Type) where
  length : Word
  get : Fin length.toNat → α

namespace Dimension

variable {α : Type}

/-- The elements of an array. Of an array longer than any word, the first 2^64 - 1. -/
def ofArray (xs : Array α) : Dimension α where
  length := Word.clamp xs.size
  get i :=
    have : i.val < xs.size := Nat.lt_of_lt_of_le i.isLt (Word.toNat_clamp_le _)
    xs[i.val]

/-- The elements of a list. Of a list longer than any word, the first 2^64 - 1. -/
def ofList (xs : List α) : Dimension α := ofArray xs.toArray

def replicate (n : Word) (a : α) : Dimension α := ⟨n, fun _ => a⟩

def toList (d : Dimension α) : List α := List.ofFn d.get

/-- The element at a position, which must lie inside the dimension. -/
def read (d : Dimension α) (i : Word) : Checked α :=
  if h : i.toNat < d.length.toNat then .ok (d.get ⟨i.toNat, h⟩)
  else .error (.indexOutOfBounds d.length.toNat i.toNat)

/-! ### The elements of the constructions -/

@[simp] theorem length_toList (d : Dimension α) : d.toList.length = d.length.toNat := List.length_ofFn

theorem toList_ofList {xs : List α} (h : xs.length < UInt64.size) : (ofList xs).toList = xs := by
  apply List.ext_getElem
  · rw [length_toList]
    exact (Word.toNat_clamp _).trans (Nat.min_eq_left (Nat.le_pred_of_lt h))
  · intro i _ _
    exact List.getElem_ofFn ..

theorem read_of_lt {d : Dimension α} {i : Word} (h : i < d.length) :
    d.read i = .ok (d.get ⟨i.toNat, UInt64.lt_iff_toNat_lt.1 h⟩) :=
  dif_pos (UInt64.lt_iff_toNat_lt.1 h)

end Dimension

end LexProduct
