import LexProduct.Text.Numeral

/-!
# Options and operands

Options and operands may be mixed. An option is any argument that starts with a hyphen and is longer
than that; its value follows as the next argument or after an equals sign. After `--` there are
operands only. No option may be given twice.
-/

namespace LexProduct

inductive UsageError where
  | missingCommand
  | unknownCommand (name : String)
  | unknownOption (name : String)
  | repeatedOption (name : String)
  | missingValue (name : String)
  | unexpectedValue (name : String)
  | invalidNumber (name value : String)
  | missingDimensions
  | unexpectedOperand (operand : String)
  deriving DecidableEq

def UsageError.message : UsageError → String
  | missingCommand => "no command is given"
  | unknownCommand name => s!"unknown command {name}"
  | unknownOption name => s!"unknown option {name}"
  | repeatedOption name => s!"option {name} is given twice"
  | missingValue name => s!"option {name} needs a value"
  | unexpectedValue name => s!"option {name} takes no value"
  | invalidNumber name value => s!"option {name} needs a number, not {value}"
  | missingDimensions => "no dimension is given"
  | unexpectedOperand operand => s!"unexpected argument {operand}"

/-! ### Options -/

/-- The options that a command knows: those without and those with a value. -/
structure Options where
  flags : List String := []
  valued : List String := []

/-- What has been read of the arguments, in the order in which it was given. -/
structure Reading where
  flags : List String := []
  values : List (String × String) := []
  operands : List String := []
  /-- An option whose value must come next. -/
  awaiting : Option String := none
  /-- Only operands follow. -/
  operandsOnly : Bool := false

def isOption (arg : String) : Bool :=
  match arg.toList with
  | '-' :: _ :: _ => true
  | _ => false

/-- The name of an option and the value behind its equals sign. -/
def nameAndValue (arg : String) : String × Option String :=
  let cs := arg.toList
  match cs.dropWhile (· != '=') with
  | [] => (arg, none)
  | _ :: value => (String.ofList (cs.takeWhile (· != '=')), some (String.ofList value))

def fullName (name : String) : String := if name = "-v" then "--verbose" else name

namespace Reading

def addFlag (r : Reading) (name : String) : Except UsageError Reading :=
  if r.flags.contains name then .error (.repeatedOption name)
  else .ok { r with flags := r.flags ++ [name] }

def addValue (r : Reading) (name value : String) : Except UsageError Reading :=
  if (r.values.lookup name).isSome then .error (.repeatedOption name)
  else .ok { r with values := r.values ++ [(name, value)], awaiting := none }

/-- One more option, with the value behind its equals sign if there is one. -/
def addOption (known : Options) (r : Reading) (name : String) (value : Option String) :
    Except UsageError Reading :=
  if known.flags.contains name then
    match value with
    | none => r.addFlag name
    | some _ => .error (.unexpectedValue name)
  else if known.valued.contains name then
    match value with
    | none => .ok { r with awaiting := some name }
    | some value => r.addValue name value
  else
    .error (.unknownOption name)

def step (known : Options) (r : Reading) (arg : String) : Except UsageError Reading :=
  if r.operandsOnly then
    .ok { r with operands := r.operands ++ [arg] }
  else
    match r.awaiting with
    | some name => if isOption arg then .error (.missingValue name) else r.addValue name arg
    | none =>
      if arg = "--" then
        .ok { r with operandsOnly := true }
      else if isOption arg then
        let (name, value) := nameAndValue arg
        addOption known r (fullName name) value
      else
        .ok { r with operands := r.operands ++ [arg] }

def ofArguments (known : Options) (args : List String) : Except UsageError Reading := do
  let r ← args.foldlM (step known) {}
  match r.awaiting with
  | none => return r
  | some name => throw (.missingValue name)

def number (r : Reading) (name : String) : Except UsageError (Option Word) :=
  match r.values.lookup name with
  | none => .ok none
  | some value =>
    match Text.parseWord? value with
    | some n => .ok (some n)
    | none => .error (.invalidNumber name value)

/-- The dimensions given, of which there must be one. -/
def dimensions (r : Reading) : Except UsageError (List String) :=
  if r.operands.isEmpty then .error .missingDimensions else .ok r.operands

def noOperands (r : Reading) : Except UsageError Unit :=
  match r.operands with
  | [] => .ok ()
  | operand :: _ => .error (.unexpectedOperand operand)

end Reading

end LexProduct
