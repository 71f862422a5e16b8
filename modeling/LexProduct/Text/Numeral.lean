import LexProduct.Word

/-!
# Words in decimal

A word is written with ASCII digits, and may have a plus sign before them. Leading zeros are harmless;
a minus sign, blanks and digits of other scripts are refused, as is a number that fits no word.
-/

namespace LexProduct.Text

/-- The number that decimal digits show. -/
def decimalValue (digits : List Char) : Nat :=
  digits.foldl (fun n c => 10 * n + (c.toNat - '0'.toNat)) 0

def dropPlus : List Char → List Char
  | '+' :: cs => cs
  | cs => cs

def parseWord? (text : String) : Option Word :=
  let digits := dropPlus text.toList
  if digits.isEmpty || !digits.all Char.isDigit then none else Word.ofNat? (decimalValue digits)

end LexProduct.Text
