import LexProduct.Text.Blank

/-!
# Lists of values

A dimension is written as its values with commas between them, and the white space around a value does
not belong to it. The empty text stands for no value at all, so a list of one empty value has no written
form. A tuple is written in parentheses.
-/

namespace LexProduct.Text

/-- The values that a text lists. -/
def parseValues (text : String) : List String :=
  if text = "" then [] else (text.toList.splitOn ',').map fun value => String.ofList (trim value)

def joinValues (separator : String) (values : List String) : String := separator.intercalate values

def renderTuple (separator : String) (values : List String) : String :=
  "(" ++ joinValues separator values ++ ")"

def renderTuples (separator : String) (tuples : List (List String)) : String :=
  String.join (tuples.map fun values => renderTuple separator values ++ "\n")

end LexProduct.Text
