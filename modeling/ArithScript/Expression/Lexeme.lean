import ArithScript.Error
import ArithScript.Expression.Cut
import ArithScript.Number.Decimal

/-!
# Lexemes of an expression

An expression is a text without separators, such as `2*-3.5+1e3`. `Lexeme.lex`
cuts it into numbers and operators from left to right, always taking the longest
numeral. A sign belongs to the numeral after it unless a number stands before
it; there it is an operator. Every lexeme keeps the text it was cut from, and
the whole text is cut before anything is computed. A scanner finds the same
lexemes in the bytes of the text.
-/

namespace ArithScript

/-- A number, with the text it was cut from, or an operator. -/
inductive Lexeme where
  | number (source : List Char) (value : Binary64)
  | operator (op : Operator)
  deriving DecidableEq

namespace Lexeme

def source : Lexeme → List Char
  | number source _ => source
  | operator op => [op.toChar]

def isNumber : Lexeme → Bool
  | number _ _ => true
  | operator _ => false

/-- A number starts at `c`: a digit or a point does, and so does a sign with one
of these after it, unless a number stands before it. -/
def startsNumber (afterNumber : Bool) (c : Char) (cs : List Char) : Bool :=
  Cut.startsNumeral c || (Cut.isSign c && !afterNumber && cs.head?.any Cut.startsNumeral)

/-- The first lexeme of the text `c :: cs`, and the rest. -/
def next (afterNumber : Bool) (c : Char) (cs : List Char) :
    Except Malformation (Lexeme × List Char) :=
  if startsNumber afterNumber c cs then
    let (source, rest) := Cut.numeral (c :: cs)
    match Binary64.read? source with
    | some value => .ok (.number source value, rest)
    | none => .error (.invalidNumber (String.ofList source))
  else
    match Operator.ofChar? c with
    | some op => .ok (.operator op, cs)
    | none =>
      .error (if c = '(' ∨ c = ')' then .parenthesis else .unexpectedCharacter c)

theorem next_length_lt {afterNumber : Bool} {c : Char} {cs rest : List Char} {lexeme : Lexeme}
    (h : next afterNumber c cs = .ok (lexeme, rest)) : rest.length < (c :: cs).length := by
  unfold next at h
  split at h
  · rename_i hstart
    have hlt : (Cut.numeral (c :: cs)).2.length < (c :: cs).length := by
      apply Cut.length_numeral_lt
      simp only [startsNumber, Bool.or_eq_true, Bool.and_eq_true] at hstart
      rcases hstart with hstart | hstart
      · exact .inr hstart
      · exact .inl hstart.1.1
    dsimp only at h
    split at h <;> cases h
    exact hlt
  · split at h <;> cases h
    simp

/-- The lexemes of a text; `afterNumber` says whether a number stands before
it. -/
def lexFrom (afterNumber : Bool) : List Char → Except Malformation (List Lexeme)
  | [] => .ok []
  | c :: cs =>
    match _h : next afterNumber c cs with
    | .error reason => .error reason
    | .ok (lexeme, rest) => (lexFrom lexeme.isNumber rest).map (lexeme :: ·)
termination_by cs => cs.length
decreasing_by exact next_length_lt _h

def lex (text : List Char) : Except Malformation (List Lexeme) := lexFrom false text

end Lexeme

end ArithScript
