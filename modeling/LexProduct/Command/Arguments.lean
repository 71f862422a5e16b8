import LexProduct.Command.Options

/-!
# Commands

What the command line can be asked for, and how its arguments say so. Requests for help (`--help`, `-h`,
`help`) and the texts that answer them are left out: here they are refused as an unknown option or command.
-/

namespace LexProduct

/-- What the tuples of a product are printed from, and which of them. -/
structure ProductRequest where
  dimensions : List String
  start : Option Word := none
  limit : Option Word := none
  separator : String := ", "
  strict : Bool := false
  deriving DecidableEq

inductive Command where
  /-- Prints a fixed small product. -/
  | demo
  /-- Prints tuples. -/
  | product (request : ProductRequest)
  /-- Prints the number of tuples. -/
  | count (dimensions : List String) (strict : Bool)
  deriving DecidableEq

namespace Command

def parseNamed (name : String) (args : List String) : Except UsageError Command := do
  match name with
  | "demo" =>
    let r ← Reading.ofArguments { flags := ["--verbose"] } args
    r.noOperands
    return .demo
  | "product" =>
    let known : Options :=
      { flags := ["--verbose", "--strict"], valued := ["--start", "--limit", "--separator"] }
    let r ← Reading.ofArguments known args
    return .product
      { dimensions := ← r.dimensions
        start := ← r.number "--start"
        limit := ← r.number "--limit"
        separator := (r.values.lookup "--separator").getD ", "
        strict := r.flags.contains "--strict" }
  | "count" =>
    let r ← Reading.ofArguments { flags := ["--verbose", "--strict"] } args
    return .count (← r.dimensions) (r.flags.contains "--strict")
  | _ => throw (.unknownCommand name)

/-- The command that the arguments ask for. One `--verbose` may stand before the name and one after it;
nothing that is printed depends on them. -/
def parse (args : List String) : Except UsageError Command :=
  match args with
  | [] => .error .missingCommand
  | first :: rest =>
    if fullName first = "--verbose" then
      match rest with
      | [] => .error .missingCommand
      | name :: args => parseNamed name args
    else
      parseNamed first rest

end Command

end LexProduct
