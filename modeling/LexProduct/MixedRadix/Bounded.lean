import LexProduct.MixedRadix.Exact

/-!
# Mixed-radix numerals on words

Counting, ranking and adding with 64-bit words only. An answer too large for a word is `none`, never a
wrapped number. The functions accept lists that do not fit together; then the order in which they look
at the wheels decides whether they answer or stop with a fault.
-/

namespace LexProduct.MixedRadix

/-- No tuple has these radices: there is none at all, or one of them is zero. -/
def isVoid (radices : List Word) : Bool := radices.isEmpty || radices.contains 0

/-- The number of numerals with these radices; void radices have none. -/
def cardinality? (radices : List Word) : Option Word :=
  if isVoid radices then some 0 else radices.foldlM Word.mul? 1

/-- The number that the digits show. -/
def rank? (digits radices : List Word) : Option Word :=
  (wheels digits radices).foldlM (fun acc w => do Word.add? (← Word.mul? acc w.radix) w.digit) 0

/-! ### From a rank to digits -/

/-- The digits of `rank`, and what is left of it above the first place. -/
def split (rank : Word) : List Word → Checked (Word × List Word)
  | [] => .ok (rank, [])
  | r :: rs => do
    let (above, digits) ← split rank rs
    let (above, digit) ← Word.divMod above r
    return (above, digit :: digits)

/-- The digits that show `rank`, unless it is past the last numeral. More numerals than words means
that every rank has digits. -/
def unrank? (rank : Word) (radices : List Word) : Checked (Option (List Word)) :=
  if (cardinality? radices).all (rank < ·) then do
    let (_, digits) ← split rank radices
    return some digits
  else
    return none

/-! ### Counting to the end -/

/-- The number of numerals after `ws`, read on top of `acc`: its digits are the complements
`radix - 1 - digit`. -/
def countAfter (acc : Word) : List Wheel → Checked (Option Word)
  | [] => .ok (some acc)
  | w :: ws =>
    match Word.mul? acc w.radix with
    | none => .ok none
    | some scaled => do
      let complement ← Word.checkedSub (← Word.checkedSub w.radix 1) w.digit
      match Word.add? scaled complement with
      | none => return none
      | some acc => countAfter acc ws

/-- The number of numerals from these digits to the last, the present one included. It is exact
whenever it fits, also where the number of all numerals does not. -/
def remaining? (digits radices : List Word) : Checked (Option Word) :=
  if isVoid radices then
    return some 0
  else do
    let after ← countAfter 0 (wheels digits radices)
    return after.bind (Word.add? · 1)

/-! ### Moving forward -/

/-- The digits of the next numeral; `none` after the last one. -/
def next? : List Wheel → Checked (Option (List Word))
  | [] => .ok none
  | w :: ws => do
    match ← next? ws with
    | some digits => return some (w.digit :: digits)
    | none =>
      let digit ← Word.checkedAdd w.digit 1
      return if digit < w.radix then some (digit :: ws.map fun _ => 0) else none

/-- One wheel turned by `amount`: the turns carried to the wheel before it, and the new digit. An
amount of zero leaves the wheel alone, whatever it shows. The sum of digit and step may be no word, so
the step is compared with the room left on the wheel. -/
def turn (w : Wheel) (amount : Word) : Checked (Option (Word × Word)) :=
  if amount = 0 then
    return some (0, w.digit)
  else do
    let (carry, step) ← Word.divMod amount w.radix
    let room ← Word.checkedSub w.radix w.digit
    if room ≤ step then
      return (Word.add? carry 1).map (·, step - room)
    else
      return some (carry, ← Word.checkedAdd w.digit step)

/-- All wheels turned, the last one by `amount`: the carry out of the first wheel and the new digits;
`none` when a carry is no word. -/
def turnAll (amount : Word) : List Wheel → Checked (Option (Word × List Word))
  | [] => .ok (some (amount, []))
  | w :: ws => do
    match ← turnAll amount ws with
    | none => return none
    | some (carry, digits) =>
      return (← turn w carry).map fun (carry, digit) => (carry, digit :: digits)

/-- The digits `amount` numerals later, unless that is past the last one. Digits that have no radix
stay as they are. -/
def add? (digits radices : List Word) (amount : Word) : Checked (Option (List Word)) := do
  match ← turnAll amount (wheels digits radices) with
  | none => return none
  | some (carry, turned) =>
    return if carry = 0 then some (turned ++ digits.drop radices.length) else none

end LexProduct.MixedRadix
