import ArithScript.Line.Json
import ArithScript.Script

/-!
# Commands

The three commands of the program, as functions from a store and a source to a
`Report`: what is printed, and the exit code. Results go to the output and
failures, with their line numbers, to the error output. The exit code is 65 if a
statement is badly written, else 70 if one fails to evaluate, else 0.
-/

namespace ArithScript

/-- What a run of the program prints and exits with. -/
structure Report where
  code : Nat
  output : String
  errors : String
  deriving DecidableEq, Repr

/-- What the program is asked to do with a source. -/
inductive Command where
  | run
  | evaluate
  /-- Parse every statement and print it, perhaps as JSON. -/
  | tokenize (json : Bool)
  deriving DecidableEq, Repr

namespace Command

/-- The exit code for a badly written statement. -/
def syntaxCode : Nat := 65

/-- The exit code for a statement that fails to evaluate. -/
def evaluationCode : Nat := 70

def failureLine (number : Nat) (e : Error) : String :=
  "[line " ++ toString number ++ "] Error: " ++ e.message ++ "\n"

/-! ## The commands -/

/-- Results, each with the number of its line. -/
abbrev Numbered (α : Type) := List (Nat × Except Error α)

/-- The lines printed for the results that are no errors. -/
def outputLines {α : Type} (render : α → String) (results : Numbered α) : List String :=
  results.filterMap fun
    | (_, .ok value) => some (render value ++ "\n")
    | (_, .error _) => none

def failureLines {α : Type} (results : Numbered α) : List String :=
  results.filterMap fun
    | (_, .ok _) => none
    | (number, .error e) => some (failureLine number e)

def errors {α : Type} (results : Numbered α) : List Error :=
  results.filterMap fun
    | (_, .ok _) => none
    | (_, .error e) => some e

/-- The exit code after one more error: bad writing sets it, whatever it was, and
any other error only where there was none before. -/
def worsen (code : Nat) (e : Error) : Nat :=
  if e.isSyntactic then syntaxCode
  else if code = 0 then evaluationCode
  else code

/-- The exit code for the errors of a script, in their order. -/
def exitCode (errors : List Error) : Nat := errors.foldl worsen 0

def runSource (store : Store) (source : String) : Report :=
  let results : Numbered Value := (Script.run reduce store source).1.map fun outcome =>
    (outcome.statement.number, outcome.result)
  { code := exitCode (errors results)
    output := String.join (outputLines Value.render results)
    errors := String.join (failureLines results) }

/-- Evaluates the first statement of the source. Only an error of the parser
counts as bad writing here. -/
def evaluateSource (store : Store) (source : String) : Report :=
  match Script.statements source with
  | [] => ⟨0, "No statement was provided. Exiting...\n", ""⟩
  | statement :: _ =>
    match Line.parse statement.text with
    | .error e => ⟨syntaxCode, "", failureLine statement.number e⟩
    | .ok line =>
      match (line.evaluate reduce store).result with
      | .error e => ⟨evaluationCode, "", failureLine statement.number e⟩
      | .ok value => ⟨0, value.render ++ "\n", ""⟩

/-- A line as its kind, its target and its payload or symbols. -/
def describe (line : Line) : String :=
  line.form.kind ++ " " ++ line.form.target?.getD "-" ++ " " ++
    line.form.payload?.getD (Form.sources line.form.symbols)

def tokenizeSource (json : Bool) (source : String) : Report :=
  let results : Numbered Line := (Script.statements source).map fun statement =>
    (statement.number, Line.parse statement.text)
  { code := if (errors results).isEmpty then 0 else syntaxCode
    output := String.join (outputLines (if json then Line.json else describe) results)
    errors := String.join (failureLines results) }

def perform (command : Command) (store : Store) (source : String) : Report :=
  match command with
  | run => runSource store source
  | evaluate => evaluateSource store source
  | tokenize json => tokenizeSource json source

end Command

end ArithScript
