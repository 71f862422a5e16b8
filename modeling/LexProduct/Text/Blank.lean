/-!
# White space

The characters with the Unicode property `White_Space`, and lists of characters without them at either
end.
-/

namespace LexProduct.Text

/-- The code points of white space, as ranges with their first and last member. -/
def blankRanges : List (Nat × Nat) :=
  [(0x0009, 0x000D), (0x0020, 0x0020), (0x0085, 0x0085), (0x00A0, 0x00A0), (0x1680, 0x1680),
    (0x2000, 0x200A), (0x2028, 0x2029), (0x202F, 0x202F), (0x205F, 0x205F), (0x3000, 0x3000)]

def isBlank (c : Char) : Bool :=
  blankRanges.any fun (first, last) => first ≤ c.toNat && c.toNat ≤ last

/-- The characters without the white space after the last other one. -/
def trimEnd (cs : List Char) : List Char := (cs.reverse.dropWhile isBlank).reverse

/-- The characters without the white space before the first and after the last other one. -/
def trim (cs : List Char) : List Char := trimEnd (cs.dropWhile isBlank)

/-- There is no white space at either end. -/
def isTrimmed (cs : List Char) : Bool :=
  cs.head?.all (fun c => !isBlank c) && cs.getLast?.all (fun c => !isBlank c)

end LexProduct.Text
