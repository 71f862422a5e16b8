import LexProduct.Command.Arguments
import LexProduct.OpenPass
import LexProduct.Text.Values

/-!
# Running commands

A command answers with the text it prints and, if it failed, with what it was doing and why that was
refused.
-/

namespace LexProduct

/-- What a command was doing when it failed. -/
inductive Stage where
  /-- Registering the dimension at this place, counted from one. -/
  | registering (place : Nat)
  /-- Going to the first rank to print. -/
  | starting (rank : Word)
  /-- Counting the tuples. -/
  | counting
  deriving DecidableEq

def Stage.description : Stage → String
  | registering place => s!"invalid dimension {place}"
  | starting rank => s!"cannot start at rank {rank}"
  | counting => "failed to count tuples"

structure Failure where
  stage : Stage
  cause : ProductError
  deriving DecidableEq

def Failure.message (f : Failure) : String :=
  "Error: " ++ f.stage.description ++ "\n\nCaused by:\n    " ++ f.cause.message

/-- What a command printed, and how it failed if it did. -/
structure Outcome where
  stdout : String := ""
  failure : Option Failure := none
  deriving DecidableEq

namespace Command

/-- The grid with more dimensions, the first of them at `place`. -/
def registerFrom (place : Nat) (g : Grid String) : List (List String) → Except Failure (Grid String)
  | [] => .ok g
  | values :: rest =>
    match g.tryRegister (Dimension.ofList values) with
    | .ok g => registerFrom (place + 1) g rest
    | .error cause => .error ⟨.registering place, cause⟩

/-- The grid of the dimensions that the texts list. -/
def gridOf (texts : List String) (strict : Bool) : Except Failure (Grid String) :=
  registerFrom 1 (Grid.empty (if strict then .strict else .lenient)) (texts.map Text.parseValues)

/-- A pass on the tuple of rank `start`, or on the first tuple. -/
def passFrom (g : Grid String) : Option Word → Checked (Except Failure (Pass String))
  | none => return .ok g.pass
  | some rank => return (← g.pass.seek rank).mapError (⟨.starting rank, ·⟩)

/-- The product of 1, 2, 3 and 4, 5, 6. -/
def runDemo : Checked Outcome := do
  let pass := OpenPass.ofList [Dimension.ofList ["1", "2", "3"], Dimension.ofList ["4", "5", "6"]]
  let (tuples, _) ← pass.drive Pass.collect
  return { stdout := Text.renderTuples ", " tuples }

def runProduct (request : ProductRequest) : Checked Outcome := do
  match gridOf request.dimensions request.strict with
  | .error f => return { failure := some f }
  | .ok g =>
    match ← passFrom g request.start with
    | .error f => return { failure := some f }
    | .ok pass =>
      let (tuples, _) ← pass.take (request.limit.getD Word.maxValue).toNat
      return { stdout := Text.renderTuples request.separator tuples }

def runCount (dimensions : List String) (strict : Bool) : Outcome :=
  match gridOf dimensions strict with
  | .error f => { failure := some f }
  | .ok g =>
    match g.cardinality with
    | .ok n => { stdout := toString n.toNat ++ "\n" }
    | .error cause => { failure := some ⟨.counting, cause⟩ }

def run : Command → Checked Outcome
  | demo => runDemo
  | product request => runProduct request
  | count dimensions strict => return runCount dimensions strict

end Command

end LexProduct
