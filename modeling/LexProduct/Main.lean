import LexProduct.Command.Run

/-!
# The command line

Prints what a command prints. The exit status is 0 if it succeeded, 1 if it failed, 2 if the arguments
are refused, and 101 after a fault.
-/

open LexProduct

/-- Runs the command that the arguments ask for. -/
def main (args : List String) : IO UInt32 := do
  match Command.parse args with
  | .error e =>
    IO.eprintln ("error: " ++ e.message)
    return 2
  | .ok command =>
    match command.run with
    | .error fault =>
      IO.eprintln fault.message
      return 101
    | .ok outcome =>
      IO.print outcome.stdout
      match outcome.failure with
      | none => return 0
      | some failure =>
        IO.eprintln failure.message
        return 1
