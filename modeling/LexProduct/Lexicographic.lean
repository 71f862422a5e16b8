/-!
# The lexicographic product of lists

The tuples that nested loops visit, one loop per list, the last list in the innermost loop. This is
what the counters of this library are meant to enumerate; it is defined without them.
-/

namespace LexProduct

variable {α : Type}

/-- All ways to take one element of each list, the last list varying fastest. -/
def nestedLoops : List (List α) → List (List α)
  | [] => [[]]
  | xs :: rest => xs.flatMap fun x => (nestedLoops rest).map (x :: ·)

/-- The product as an enumeration sees it: without any list there is no tuple, not even the empty
one. -/
def lexProduct (lists : List (List α)) : List (List α) :=
  if lists.isEmpty then [] else nestedLoops lists

theorem length_nestedLoops (lists : List (List α)) :
    (nestedLoops lists).length = lists.foldr (fun xs n => xs.length * n) 1 := by
  induction lists with
  | nil => rfl
  | cons xs rest ih =>
    rw [nestedLoops, List.length_flatMap, List.foldr_cons, ← ih]
    simp only [List.length_map, List.map_const', List.sum_replicate_nat]

end LexProduct
