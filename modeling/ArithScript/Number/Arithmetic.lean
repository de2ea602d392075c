import ArithScript.Number.Binary64

/-!
# Arithmetic on binary64 numbers

The four operations compute the exact result in units and round it once
(`Binary64.ofRatio`). What is left are the cases without an exact result:
infinities and NaN, and the sign of a zero. The order ranks the numbers by
value, so the two zeros are equal and NaN is unordered.
-/

namespace ArithScript.Binary64

/-! ## Operations -/

def neg : Binary64 → Binary64
  | .nan => .nan
  | .infinite negative => .infinite !negative
  | .finite negative m => .finite (!negative) m

/-- The units of a finite number, with its sign. -/
def signedUnits (negative : Bool) (m : Magnitude) : Int :=
  if negative then -m.units else m.units

/-- The sum. A sum of 0 is negative only if both operands are. -/
def add : Binary64 → Binary64 → Binary64
  | .nan, _ | _, .nan => .nan
  | .infinite a, .infinite b => if a = b then .infinite a else .nan
  | .infinite a, .finite _ _ => .infinite a
  | .finite _ _, .infinite b => .infinite b
  | .finite a m, .finite b n =>
    let sum := signedUnits a m + signedUnits b n
    ofRatio (if sum = 0 then a && b else decide (sum < 0)) sum.natAbs 1

def sub (x y : Binary64) : Binary64 := add x y.neg

def mul : Binary64 → Binary64 → Binary64
  | .nan, _ | _, .nan => .nan
  | .infinite a, .infinite b => .infinite (a ^^ b)
  | .infinite a, .finite b n => if n.units = 0 then .nan else .infinite (a ^^ b)
  | .finite a m, .infinite b => if m.units = 0 then .nan else .infinite (a ^^ b)
  | .finite a m, .finite b n => ofRatio (a ^^ b) (m.units * n.units) unitsPerOne

def div : Binary64 → Binary64 → Binary64
  | .nan, _ | _, .nan => .nan
  | .infinite _, .infinite _ => .nan
  | .infinite a, .finite b _ => .infinite (a ^^ b)
  | .finite a _, .infinite b => zero (a ^^ b)
  | .finite a m, .finite b n =>
    if n.units = 0 then if m.units = 0 then .nan else .infinite (a ^^ b)
    else ofRatio (a ^^ b) (m.units * unitsPerOne) n.units

instance : Neg Binary64 := ⟨neg⟩
instance : Add Binary64 := ⟨add⟩
instance : Sub Binary64 := ⟨sub⟩
instance : Mul Binary64 := ⟨mul⟩
instance : Div Binary64 := ⟨div⟩

/-! ## Order -/

def lt : Binary64 → Binary64 → Bool
  | .nan, _ | _, .nan => false
  | .infinite a, .infinite b => a && !b
  | .infinite a, .finite _ _ => a
  | .finite _ _, .infinite b => !b
  | .finite a m, .finite b n => signedUnits a m < signedUnits b n

/-- The lesser of two numbers; NaN yields to the other operand. -/
def min : Binary64 → Binary64 → Binary64
  | .nan, y => y
  | x, .nan => x
  | x, y => if y.lt x then y else x

/-- The greater of two numbers; NaN yields to the other operand. -/
def max : Binary64 → Binary64 → Binary64
  | .nan, y => y
  | x, .nan => x
  | x, y => if x.lt y then y else x

end ArithScript.Binary64
