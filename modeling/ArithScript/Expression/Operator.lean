import ArithScript.Number.Arithmetic

/-!
# Operators

The four operations that an expression is built from, and the characters that
write them.
-/

namespace ArithScript

inductive Operator where
  | add
  | sub
  | mul
  | div
  deriving DecidableEq, Repr

namespace Operator

def toChar : Operator → Char
  | add => '+'
  | sub => '-'
  | mul => '*'
  | div => '/'

def ofChar? : Char → Option Operator
  | '+' => some add
  | '-' => some sub
  | '*' => some mul
  | '/' => some div
  | _ => none

def apply : Operator → Binary64 → Binary64 → Binary64
  | add => (· + ·)
  | sub => (· - ·)
  | mul => (· * ·)
  | div => (· / ·)

end Operator

end ArithScript
