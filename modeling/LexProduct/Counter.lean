import LexProduct.MixedRadix.Bounded

/-!
# Counters

A counter shows one digit per dimension and remembers whether it has run past its last numeral. It
does not know its radices: every operation that needs them is told them, and stops with a fault when
there are not as many as digits.
-/

namespace LexProduct

/-- Digits, most significant first, and a mark that the last numeral has been passed. -/
structure Counter where
  digits : List Word := []
  exhausted : Bool := false
  deriving DecidableEq

namespace Counter

def empty : Counter := {}

def zeroed (n : Nat) : Counter := { digits := List.replicate n 0 }

def size (c : Counter) : Nat := c.digits.length

def isEmpty (c : Counter) : Bool := c.digits.isEmpty

/-- One more digit, a zero, after the others. -/
def pushDigit (c : Counter) : Counter := { c with digits := c.digits ++ [0] }

def exhaust (c : Counter) : Counter := { c with exhausted := true }

/-- A list that goes with the digits must be as long as they are. -/
def requireSize (c : Counter) (n : Nat) : Checked Unit :=
  if c.size = n then .ok () else .error (.lengthMismatch c.size n)

/-- The counter after a move: on the digits reached, or past the end with all digits zero. The answer
says whether digits were reached. -/
def moveTo (c : Counter) : Option (List Word) → Bool × Counter
  | some digits => (true, { c with digits })
  | none => (false, { digits := c.digits.map fun _ => 0, exhausted := true })

def advance (c : Counter) (radices : List Word) : Checked (Bool × Counter) := do
  c.requireSize radices.length
  return c.moveTo (← MixedRadix.next? (MixedRadix.wheels c.digits radices))

def advanceBy (c : Counter) (amount : Word) (radices : List Word) : Checked (Bool × Counter) := do
  c.requireSize radices.length
  return c.moveTo (← MixedRadix.add? c.digits radices amount)

/-- The counter on the given digits, and no longer past the end. -/
def setDigits (c : Counter) (digits : List Word) : Checked Counter := do
  c.requireSize digits.length
  return { digits }

/-- The number of numerals from the present one to the last; past the end there are none. -/
def remaining? (c : Counter) (radices : List Word) : Checked (Option Word) :=
  if c.exhausted then return some 0 else MixedRadix.remaining? c.digits radices

end Counter

end LexProduct
