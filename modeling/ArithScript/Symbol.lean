import ArithScript.Store
import ArithScript.Text.Blank

/-!
# Symbols

A symbol is one token of a line: a number, an operator, or a reference to a
scalar or to an array element. References have two phases. `Symbol.classify`
makes them with a name only, and `Symbol.resolve` adds the value that the name
has in a store; the name stays. So a symbol has two texts, its source with the
names and its rendering with the values.
-/

namespace ArithScript

/-- A name, with its value once it is resolved. -/
structure Reference where
  name : String
  value : Option String
  deriving DecidableEq, Repr

/-- The text that stands for a reference without a value. -/
def Reference.placeholder : String := "0"

inductive Symbol where
  | number (value : Binary64)
  /-- A token with an operator character in it, whole. Whether it is just an
  operator shows when the line is reduced. -/
  | operator (token : String)
  | scalar (reference : Reference)
  | element (reference : Reference)
  deriving DecidableEq

namespace Symbol

/-! ## Classification -/

/-- The number that a token writes as a literal: an unsigned numeral with a
finite value and no sign in its exponent. -/
def literal? (token : List Char) : Option Binary64 :=
  if token.all fun c => c.isDigit || c == '.' || c == 'e' || c == 'E' then
    ((Decimal.read? token).map (Decimal.toBinary64 false)).filter Binary64.isFinite
  else none

/-- The symbol that a token is, blanks around it aside. An operator character
anywhere makes it an operator, scalar names apart. -/
def classify (token : String) : Except Error Symbol :=
  let token := Text.trim token
  match Name.shape? token with
  | some .scalar => .ok (.scalar ⟨token, none⟩)
  | shape =>
    if token.toList.any fun c => (Operator.ofChar? c).isSome then .ok (.operator token)
    else
      match literal? token.toList, shape with
      | some value, _ => .ok (.number value)
      | none, some (.element _ _) => .ok (.element ⟨token, none⟩)
      | none, _ => .error (.invalidSymbol token)

/-! ## Resolution -/

def reference? : Symbol → Option Reference
  | scalar reference | element reference => some reference
  | number _ | operator _ => none

/-- The symbol with the value that its reference has in the store. -/
def resolve (store : Store) : Symbol → Except Error Symbol
  | scalar reference =>
    (store.value reference.name).map fun value => scalar { reference with value := some value }
  | element reference =>
    (store.value reference.name).map fun value => element { reference with value := some value }
  | symbol => .ok symbol

/-! ## Texts -/

/-- The text of the symbol in a statement: references by name. -/
def source : Symbol → String
  | number value => value.text
  | operator token => token
  | scalar reference | element reference => reference.name

/-- The text of the symbol in an expression: references by value. -/
def rendered : Symbol → String
  | number value => value.text
  | operator token => token
  | scalar reference | element reference => reference.value.getD Reference.placeholder

end Symbol

end ArithScript
