import ArithScript.Command.Basic

/-!
# Command lines

    run      [FILE]  [--define NAME=VALUE]... [--no-prelude]
    evaluate [FILE]  [--define NAME=VALUE]... [--no-prelude]
    tokenize [FILE]  [--define NAME=VALUE]... [--no-prelude] [--json]

Options may stand anywhere. `--define=DEFINITION`, `-D DEFINITION` and
`-DDEFINITION` are other spellings of `--define DEFINITION`. Without a file the
source is the standard input.
-/

namespace ArithScript

structure Arguments where
  command : Command
  file : Option String
  definitions : List String
  builtins : Bool
  deriving DecidableEq, Repr

namespace Arguments

/-- The options and words of a command line. -/
structure Scanned where
  words : List String := []
  definitions : List String := []
  json : Bool := false
  noPrelude : Bool := false

/-- What follows `start` in a text that starts so. -/
def after? (start text : String) : Option String :=
  (start.toList.isPrefixOf? text.toList).map String.ofList

/-- Sorts the arguments into options and words. -/
def scan : List String → Except String Scanned
  | [] => .ok {}
  | ["--define"] | ["-D"] => .error "a value is required for '--define <NAME=VALUE>'"
  | "--define" :: definition :: rest | "-D" :: definition :: rest =>
    (scan rest).map fun s => { s with definitions := definition :: s.definitions }
  | "--json" :: rest => (scan rest).map fun s => { s with json := true }
  | "--no-prelude" :: rest => (scan rest).map fun s => { s with noPrelude := true }
  | argument :: rest =>
    match after? "--define=" argument, after? "-D" argument with
    | some definition, _ | none, some definition =>
      (scan rest).map fun s => { s with definitions := definition :: s.definitions }
    | none, none =>
      if (after? "-" argument).isSome then .error ("unexpected argument '" ++ argument ++ "' found")
      else (scan rest).map fun s => { s with words := argument :: s.words }

def command? (name : String) (json : Bool) : Option Command :=
  match name, json with
  | "run", false => some .run
  | "evaluate", false => some .evaluate
  | "tokenize", json => some (.tokenize json)
  | _, _ => none

/-- The meaning of a command line, or what is wrong with it. -/
def read (arguments : List String) : Except String Arguments :=
  match scan arguments with
  | .error reason => .error reason
  | .ok scanned =>
    match scanned.words with
    | name :: file =>
      match command? name scanned.json, file with
      | some command, [] => .ok ⟨command, none, scanned.definitions, !scanned.noPrelude⟩
      | some command, [path] => .ok ⟨command, some path, scanned.definitions, !scanned.noPrelude⟩
      | some _, _ :: argument :: _ => .error ("unexpected argument '" ++ argument ++ "' found")
      | none, _ => .error ("unrecognized subcommand '" ++ name ++ "'")
    | [] => .error "a subcommand is required"

end Arguments

end ArithScript
