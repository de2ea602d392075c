import Std.Data.ExtTreeMap.Basic
import ArithScript.Error
import ArithScript.Name
import ArithScript.Text.Pieces

/-!
# The store

A store holds the variables and the functions of a session, each under its full
name. A name is registered at most once, until it is unregistered; the shape of
the name decides what may be registered under it and how it is read. Both tables
are extensional maps, so two stores are equal when every name reads the same in
both.
-/

namespace ArithScript

inductive Entry where
  | scalar (value : String)
  | array (values : List String)
  deriving DecidableEq, Repr

/-- A function of the language: from the texts of its arguments to the text of
its result, or to the words with which it refuses them. -/
abbrev Routine := List String → Except String String

/-- The variables and functions of a session. -/
@[ext]
structure Store where
  entries : Std.ExtTreeMap String Entry
  functions : Std.ExtTreeMap String Routine

namespace Store

def empty : Store := ⟨∅, ∅⟩

/-- The store of the given functions, under their names. -/
def ofFunctions (functions : List (String × Routine)) : Store :=
  ⟨∅, Std.ExtTreeMap.ofList functions⟩

/-! ## Variables -/

/-- What a name of this shape would hold, given the text registered under it.
The text of an array lists its elements, none of them empty, with commas
between. -/
def entryFor (name value : String) : Except Error Entry :=
  match Name.shape? name with
  | some .scalar => .ok (.scalar value)
  | some .array =>
    let values := Text.pieces ',' value
    if "" ∈ values then .error (.malformedSeparator value) else .ok (.array values)
  | _ => .error (.invalidName name)

/-- Registers a variable under a name that is free. -/
def register (store : Store) (name value : String) : Except Error Store :=
  match entryFor name value with
  | .error e => .error e
  | .ok entry =>
    if name ∈ store.entries then .error (.duplicateName name)
    else .ok { store with entries := store.entries.insert name entry }

/-- Frees the name of a variable; it need not be registered. -/
def unregister (store : Store) (name : String) : Except Error Store :=
  match Name.shape? name with
  | some .scalar | some .array => .ok { store with entries := store.entries.erase name }
  | _ => .error (.invalidName name)

def arrayValues (store : Store) (name : String) : Except Error (List String) :=
  if Name.shape? name = some .array then
    match store.entries[name]? with
    | some (.array values) => .ok values
    | some (.scalar _) => .error (.invalidName name)
    | none => .error (.notFound name)
  else .error (.invalidName name)

/-- The number that the digits of a position write. Only ASCII digits write
one. -/
def position? (digits : String) : Option Nat :=
  if digits.toList.all Char.isDigit then some (Nat.ofDigitChars 10 digits.toList 0) else none

/-- The value of a scalar, or of the element of an array; positions count
from 0. -/
def value (store : Store) (name : String) : Except Error String :=
  match Name.shape? name with
  | some .scalar =>
    match store.entries[name]? with
    | some (.scalar value) => .ok value
    | some (.array _) => .error (.invalidName name)
    | none => .error (.notFound name)
  | some (.element array position) =>
    match store.arrayValues array with
    | .error e => .error e
    | .ok values =>
      match (position? position).bind fun i => values[i]? with
      | some value => .ok value
      | none => .error (.indexOutOfRange array position values.length)
  | _ => .error (.invalidName name)

/-- The arguments that a name stands for: all elements of an array, or the one
value of anything else. -/
def arguments (store : Store) (name : String) : Except Error (List String) :=
  if name.toList.head? = some '@' then store.arrayValues name
  else (store.value name).map fun value => [value]

def contains (store : Store) (name : String) : Bool := store.entries.contains name

def size (store : Store) : Nat := store.entries.size

def isEmpty (store : Store) : Bool := store.entries.isEmpty

/-! ## Functions -/

/-- Registers a function under a name that is free. -/
def registerFunction (store : Store) (name : String) (routine : Routine) : Except Error Store :=
  if Name.shape? name = some .function then
    if name ∈ store.functions then .error (.duplicateName name)
    else .ok { store with functions := store.functions.insert name routine }
  else .error (.invalidName name)

/-- Frees the name of a function; it need not be registered. -/
def unregisterFunction (store : Store) (name : String) : Except Error Store :=
  if Name.shape? name = some .function then
    .ok { store with functions := store.functions.erase name }
  else .error (.invalidName name)

def hasFunction (store : Store) (name : String) : Bool := store.functions.contains name

def call (store : Store) (name : String) (arguments : List String) : Except Error String :=
  if Name.shape? name = some .function then
    match store.functions[name]? with
    | none => .error (.notFound name)
    | some routine =>
      match routine arguments with
      | .ok result => .ok result
      | .error reason => .error (.functionFailed name reason)
  else .error (.invalidName name)

end Store

end ArithScript
