import ArithScript.Builtin
import ArithScript.Command.Basic
import ArithScript.Text.Utf8
import ArithScript.Text.Visible

/-!
# Stages before a command

A run of the program registers the definitions it is given, reads the source,
decodes it, and only then carries out the command. The first of these stages
that fails ends the run with exit code 1 and a report that names the failure
and, on lines of its own, the cause behind it.
-/

namespace ArithScript

/-! ## Failures -/

/-- Why a command is not begun. -/
inductive StartError where
  /-- A definition has no equals sign. -/
  | noEquals (definition : String)
  /-- The store refuses a definition. -/
  | badDefinition (definition : String) (cause : Error)
  /-- There is no file of this name to read the source from. -/
  | missingFile (path : String)
  /-- The file of the source cannot be opened, for a reason in the words of the
  system. -/
  | unopenedFile (path reason : String)
  /-- The file is open, and reading it fails. -/
  | unreadFile (path reason : String)
  /-- Reading the standard input fails. -/
  | unreadInput (reason : String)
  /-- The source is not UTF-8. -/
  | notUtf8 (fault : Text.Utf8.Fault)
  deriving DecidableEq

/-- The wording of a place that is not UTF-8. -/
def Text.Utf8.Fault.message (fault : Fault) : String :=
  match fault.width with
  | some width =>
    "invalid utf-8 sequence of " ++ toString width ++ " bytes from index " ++ toString fault.offset
  | none => "incomplete utf-8 byte sequence from index " ++ toString fault.offset

namespace StartError

def headline : StartError → String
  | noEquals definition => "Expected NAME=VALUE, got '" ++ definition ++ "'"
  | badDefinition definition _ => "Invalid --define '" ++ definition ++ "'"
  | missingFile path | unopenedFile path _ => "Failed to open file " ++ Text.visiblyQuoted path
  | unreadFile path _ => "Failed to read file " ++ Text.visiblyQuoted path
  | unreadInput _ => "Failed to read stdin"
  | notUtf8 _ => "Input is not valid UTF-8"

/-- What lies behind the failure, where there is more to say. -/
def cause? : StartError → Option String
  | noEquals _ => none
  | badDefinition _ cause => some cause.message
  | missingFile _ => some "No such file or directory (os error 2)"
  | unopenedFile _ reason | unreadFile _ reason | unreadInput reason => some reason
  | notUtf8 fault => some fault.message

/-- The text with each of its lines indented by four spaces. -/
def indented (text : String) : String :=
  "\n".intercalate ((Text.pieces '\n' text).map fun line => "    " ++ line)

def report (e : StartError) : Report :=
  let cause := (e.cause?.map fun cause => "\n\nCaused by:\n" ++ indented cause).getD ""
  ⟨1, "", "Error: " ++ e.headline ++ cause ++ "\n"⟩

end StartError

/-! ## The stages -/

namespace Command

/-- Name and value of a definition: the trimmed texts before and after the first
equals sign. -/
def splitDefinition? (definition : String) : Option (String × String) :=
  let cs := definition.toList
  match cs.dropWhile (· != '=') with
  | _ :: value =>
    some (Text.trim (String.ofList (cs.takeWhile (· != '='))), Text.trim (String.ofList value))
  | [] => none

def define (store : Store) (definition : String) : Except StartError Store :=
  match splitDefinition? definition with
  | none => .error (.noEquals definition)
  | some (name, value) =>
    match store.register name value with
    | .error e => .error (.badDefinition definition e)
    | .ok store => .ok store

/-- The store that a session starts with. -/
def initialStore (builtins : Bool) (definitions : List String) : Except StartError Store :=
  definitions.foldlM define (if builtins then .withBuiltins else .empty)

/-- Carries out the command on a source given as bytes, if it could be read and
is UTF-8. -/
def onBytes (command : Command) (store : Store) (source : Except StartError (List UInt8)) :
    Report :=
  match source with
  | .error e => e.report
  | .ok bytes =>
    match Text.Utf8.decode bytes with
    | .error fault => (StartError.notUtf8 fault).report
    | .ok text => command.perform store text

/-- A whole run of the program: first the definitions are registered, then the
source is read and decoded, then the command is carried out. The source is read
in any way that has effects, and only behind definitions that the store takes. -/
def startWith {m : Type → Type} [Applicative m] (command : Command) (builtins : Bool)
    (definitions : List String) (read : m (Except StartError (List UInt8))) : m Report :=
  match initialStore builtins definitions with
  | .error e => pure e.report
  | .ok store => command.onBytes store <$> read

/-- The run with a source that is at hand, which has no effects. -/
def start (command : Command) (builtins : Bool) (definitions : List String)
    (source : Except StartError (List UInt8)) : Report :=
  Id.run (command.startWith builtins definitions (pure source))

end Command

end ArithScript
