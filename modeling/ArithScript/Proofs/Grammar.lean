import ArithScript.Expression.Reduction

/-!
# The grammar of expressions

Derivations of the grammar that `reduce` is documented to accept, as trees down
to the single characters:

    expression = term { ( "+" | "-" ) term }
    term       = operand { ( "*" | "/" ) operand }
    operand    = [ "+" | "-" ] numeral
    numeral    = mantissa [ ( "e" | "E" ) [ "+" | "-" ] digits ]
    mantissa   = digits [ "." [ digits ] ] | "." digits

A tree has a text and a value, and neither is defined by reading the text. The
trees of terms and expressions leave open what their operands are, so that the
same two folds give a value to a text and to a list of symbols.
-/

namespace ArithScript.Grammar

/-! ## Numerals -/

@[ext]
structure Digits where
  chars : List Char
  nonempty : chars ≠ []
  isDigit : ∀ c ∈ chars, c.isDigit = true

inductive Sign where
  | plus
  | minus
  deriving DecidableEq, Repr

def Sign.toChar : Sign → Char
  | plus => '+'
  | minus => '-'

def Sign.text : Option Sign → List Char
  | none => []
  | some sign => [sign.toChar]

/-- A mantissa: digits and perhaps a point, with or without digits after it, or
a point and digits. -/
inductive Mantissa where
  | whole (digits : Digits) (fraction : Option (Option Digits))
  | bare (fraction : Digits)

namespace Mantissa

def text : Mantissa → List Char
  | whole digits none => digits.chars
  | whole digits (some none) => digits.chars ++ ['.']
  | whole digits (some (some fraction)) => digits.chars ++ '.' :: fraction.chars
  | bare fraction => '.' :: fraction.chars

def wholeDigits : Mantissa → List Char
  | whole digits _ => digits.chars
  | bare _ => []

/-- The digits after the point, if there is a point. -/
def fraction? : Mantissa → Option (List Char)
  | whole _ none => none
  | whole _ (some none) => some []
  | whole _ (some (some fraction)) => some fraction.chars
  | bare fraction => some fraction.chars

end Mantissa

/-- An exponent: its mark, in either case, a sign or none, and digits. -/
structure Exponent where
  capital : Bool
  sign : Option Sign
  digits : Digits

namespace Exponent

def mark (exponent : Exponent) : Char := if exponent.capital then 'E' else 'e'

def text (exponent : Exponent) : List Char :=
  exponent.mark :: (Sign.text exponent.sign ++ exponent.digits.chars)

def value (exponent : Exponent) : Int :=
  if exponent.sign = some .minus then -(Decimal.ofDigits exponent.digits.chars)
  else Decimal.ofDigits exponent.digits.chars

end Exponent

structure Numeral where
  mantissa : Mantissa
  exponent : Option Exponent

namespace Numeral

def exponentText : Option Exponent → List Char
  | none => []
  | some exponent => exponent.text

def text (numeral : Numeral) : List Char := numeral.mantissa.text ++ exponentText numeral.exponent

/-- The decimal that the numeral denotes: the digits on both sides of the point
are its coefficient, and each digit after the point lowers the exponent by 1. -/
def decimal (numeral : Numeral) : Decimal :=
  let fraction := numeral.mantissa.fraction?.getD []
  ⟨Decimal.ofDigits (numeral.mantissa.wholeDigits ++ fraction),
    (numeral.exponent.elim 0 Exponent.value) - fraction.length⟩

end Numeral

structure Operand where
  sign : Option Sign
  numeral : Numeral

namespace Operand

def text (operand : Operand) : List Char := Sign.text operand.sign ++ operand.numeral.text

/-- The number nearest to the decimal that the operand denotes. -/
def value (operand : Operand) : Binary64 :=
  operand.numeral.decimal.toBinary64 (operand.sign == some .minus)

def lexeme (operand : Operand) : Lexeme := .number operand.text operand.value

end Operand

/-! ## Terms and expressions -/

inductive Factoring where
  | mul
  | div
  deriving DecidableEq, Repr

inductive Summing where
  | add
  | sub
  deriving DecidableEq, Repr

def Factoring.operator : Factoring → Operator
  | mul => .mul
  | div => .div

def Summing.operator : Summing → Operator
  | add => .add
  | sub => .sub

/-- A term: operands, joined from the left. -/
structure Term (α : Type) where
  first : α
  rest : List (Factoring × α)

/-- An expression: terms, joined from the left. -/
structure Expression (α : Type) where
  first : Term α
  rest : List (Summing × Term α)

section Trees

variable {α β γ : Type}

/-- The term written out from left to right, given how operands and operators
are written. -/
def Term.spell (operand : α → List β) (operator : Operator → List β) (term : Term α) : List β :=
  operand term.first ++ term.rest.flatMap fun (op, x) => operator op.operator ++ operand x

/-- The expression written out from left to right, given how operands and
operators are written. -/
def Expression.spell (operand : α → List β) (operator : Operator → List β)
    (expression : Expression α) : List β :=
  expression.first.spell operand operator ++
    expression.rest.flatMap fun (op, term) => operator op.operator ++ term.spell operand operator

/-- The value of the term: products and quotients from the left. -/
def Term.value (value : α → Binary64) (term : Term α) : Binary64 :=
  term.rest.foldl (fun acc (op, x) => op.operator.apply acc (value x)) (value term.first)

/-- The value of the expression: sums and differences of its terms, from the
left. -/
def Expression.value (value : α → Binary64) (expression : Expression α) : Binary64 :=
  expression.rest.foldl (fun acc (op, term) => op.operator.apply acc (term.value value))
    (expression.first.value value)

/-- An operand in divisor position is 0. -/
def Term.dividesByZero (value : α → Binary64) (term : Term α) : Bool :=
  term.rest.any fun (op, x) => op == .div && (value x).isZero

/-- An operand in divisor position is 0. -/
def Expression.dividesByZero (value : α → Binary64) (expression : Expression α) : Bool :=
  expression.first.dividesByZero value ||
    expression.rest.any fun (_, term) => term.dividesByZero value

def Term.map (f : α → β) (term : Term α) : Term β :=
  ⟨f term.first, term.rest.map fun (op, x) => (op, f x)⟩

def Expression.map (f : α → β) (expression : Expression α) : Expression β :=
  ⟨expression.first.map f, expression.rest.map fun (op, term) => (op, term.map f)⟩

end Trees

namespace Expression

variable {α β γ : Type}

def operands (expression : Expression α) : List α := expression.spell (fun x => [x]) fun _ => []

def text (expression : Expression Operand) : List Char :=
  expression.spell Operand.text fun op => [op.toChar]

def lexemes (expression : Expression Operand) : List Lexeme :=
  expression.spell (fun operand => [operand.lexeme]) fun op => [.operator op]

end Expression

/-! ## Chains

Written out, an expression is a chain: an operand, and then operators and
operands in turn. Which operands belong to one term is no part of the chain, but
the operators tell it, so chains and expressions correspond one to one. -/

/-- Operands with an operator between any two neighbours. -/
structure Chain (α : Type) where
  first : α
  rest : List (Operator × α)

section Chains

variable {α β : Type}

def Chain.spell (operand : α → List β) (operator : Operator → List β) (chain : Chain α) : List β :=
  operand chain.first ++ chain.rest.flatMap fun (op, x) => operator op ++ operand x

/-- The operators and operands of a term after its first operand. -/
def Term.tail (term : Term α) : List (Operator × α) :=
  term.rest.map fun (op, x) => (op.operator, x)

/-- The chain of an expression. -/
def Expression.chain (expression : Expression α) : Chain α :=
  ⟨expression.first.first, expression.first.tail ++
    expression.rest.flatMap fun (op, term) => (op.operator, term.first) :: term.tail⟩

/-- The expression with one more operand at the front of its first term. -/
def Expression.multiply (x : α) (op : Factoring) (expression : Expression α) : Expression α :=
  ⟨⟨x, (op, expression.first.first) :: expression.first.rest⟩, expression.rest⟩

/-- The expression with one more term of a single operand at its front. -/
def Expression.sum (x : α) (op : Summing) (expression : Expression α) : Expression α :=
  ⟨⟨x, []⟩, (op, expression.first) :: expression.rest⟩

def group (x : α) : List (Operator × α) → Expression α
  | [] => ⟨⟨x, []⟩, []⟩
  | (.mul, y) :: rest => (group y rest).multiply x .mul
  | (.div, y) :: rest => (group y rest).multiply x .div
  | (.add, y) :: rest => (group y rest).sum x .add
  | (.sub, y) :: rest => (group y rest).sum x .sub

theorem Expression.chain_multiply (x : α) (op : Factoring) (e : Expression α) :
    (e.multiply x op).chain = ⟨x, (op.operator, e.chain.first) :: e.chain.rest⟩ := rfl

theorem Expression.chain_sum (x : α) (op : Summing) (e : Expression α) :
    (e.sum x op).chain = ⟨x, (op.operator, e.chain.first) :: e.chain.rest⟩ := rfl

theorem group_factor (x y : α) (op : Factoring) (rest : List (Operator × α)) :
    group x ((op.operator, y) :: rest) = (group y rest).multiply x op := by
  cases op <;> rfl

theorem group_sum (x y : α) (op : Summing) (rest : List (Operator × α)) :
    group x ((op.operator, y) :: rest) = (group y rest).sum x op := by
  cases op <;> rfl

theorem chain_group (x : α) (rest : List (Operator × α)) : (group x rest).chain = ⟨x, rest⟩ := by
  induction rest generalizing x with
  | nil => rfl
  | cons step rest ih =>
    obtain ⟨op, y⟩ := step
    cases op <;> simp [group, Expression.chain_multiply, Expression.chain_sum, ih,
      Factoring.operator, Summing.operator]

/-- Grouping finds the terms that a chain was written from. -/
theorem group_chain (e : Expression α) : group e.chain.first e.chain.rest = e := by
  obtain ⟨⟨x, factors⟩, terms⟩ := e
  induction terms generalizing x factors with
  | nil =>
    induction factors generalizing x with
    | nil => rfl
    | cons step factors ih =>
      obtain ⟨op, y⟩ := step
      have := ih y
      simp only [Expression.chain, Term.tail, List.flatMap_nil, List.append_nil] at this
      simp only [Expression.chain, Term.tail, List.flatMap_nil, List.append_nil, List.map_cons]
      rw [group_factor, this]
      rfl
  | cons step terms ih =>
    obtain ⟨op, ⟨y, more⟩⟩ := step
    induction factors generalizing x with
    | nil =>
      have := ih y more
      simp only [Expression.chain, Term.tail] at this
      simp only [Expression.chain, Term.tail, List.flatMap_cons, List.map_nil, List.nil_append,
        List.cons_append]
      rw [group_sum, this]
      rfl
    | cons step factors ihf =>
      obtain ⟨op', z⟩ := step
      have := ihf z
      simp only [Expression.chain, Term.tail] at this
      simp only [Expression.chain, Term.tail, List.map_cons, List.cons_append]
      rw [group_factor, this]
      rfl

theorem Term.spell_eq (operand : α → List β) (operator : Operator → List β) (t : Term α) :
    t.spell operand operator =
      operand t.first ++ t.tail.flatMap fun (op, x) => operator op ++ operand x := by
  simp [Term.spell, Term.tail, List.flatMap_map]

theorem Expression.spell_chain (operand : α → List β) (operator : Operator → List β)
    (e : Expression α) : e.chain.spell operand operator = e.spell operand operator := by
  obtain ⟨t, terms⟩ := e
  simp only [Chain.spell, Expression.spell, Expression.chain, Term.spell_eq, List.flatMap_append,
    List.append_assoc, List.flatMap_assoc, List.flatMap_cons]

/-- Rewriting every piece of what is written rewrites the operands and the
operators. -/
theorem Expression.spell_flatMap {γ : Type} (operand : α → List β) (operator : Operator → List β)
    (f : β → List γ) (e : Expression α) : (e.spell operand operator).flatMap f =
      e.spell (fun x => (operand x).flatMap f) fun op => (operator op).flatMap f := by
  simp only [← spell_chain, Chain.spell, List.flatMap_append, List.flatMap_assoc]

end Chains

end ArithScript.Grammar
