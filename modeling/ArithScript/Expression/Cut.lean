/-!
# Cutting off a numeral

A `Cut` takes a stretch from the start of a text. Cuts are put together from
small ones, and none loses a character, so what `Cut.numeral` takes and what it
leaves always make up the text. It takes as much as can be part of one number,
even where that is no number yet.
-/

namespace ArithScript

/-- A way to cut a text in two: what is taken from its start, and the rest. -/
abbrev Cut := List Char → List Char × List Char

namespace Cut

def nothing : Cut := fun cs => ([], cs)

def digits : Cut := fun cs => (cs.takeWhile Char.isDigit, cs.dropWhile Char.isDigit)

/-- Takes what the first cut takes, then from the rest what the second takes. -/
def andThen (first second : Cut) : Cut := fun cs =>
  let (taken, rest) := first cs
  let (more, rest) := second rest
  (taken ++ more, rest)

/-- Takes a first character that is a mark, and what `tail` takes after it;
without the mark it takes nothing. -/
def marked (mark : Char → Bool) (tail : Cut) : Cut
  | c :: cs => if mark c then (c :: (tail cs).1, (tail cs).2) else ([], c :: cs)
  | [] => ([], [])

def isSign (c : Char) : Bool := c == '+' || c == '-'

def sign : Cut := marked isSign nothing

def fraction : Cut := marked (· == '.') digits

def exponent : Cut := marked (fun c => c == 'e' || c == 'E') (sign.andThen digits)

/-- Takes whatever can be part of one number. What it takes need not be a number
yet: it may lack digits. -/
def numeral : Cut := ((sign.andThen digits).andThen fraction).andThen exponent

/-- The cut loses nothing: the two parts make up the text. -/
def Lossless (cut : Cut) : Prop := ∀ cs, (cut cs).1 ++ (cut cs).2 = cs

theorem lossless_nothing : Lossless nothing := fun _ => rfl

theorem lossless_digits : Lossless digits := fun _ => List.takeWhile_append_dropWhile

theorem Lossless.andThen {first second : Cut} (hfirst : Lossless first)
    (hsecond : Lossless second) : Lossless (first.andThen second) := by
  intro cs
  simp only [Cut.andThen, List.append_assoc]
  rw [hsecond, hfirst]

theorem Lossless.marked {mark : Char → Bool} {tail : Cut} (htail : Lossless tail) :
    Lossless (Cut.marked mark tail) := by
  intro cs
  cases cs with
  | nil => rfl
  | cons c cs => by_cases h : mark c = true <;> simp [Cut.marked, h, htail cs]

theorem lossless_sign : Lossless sign := lossless_nothing.marked

theorem lossless_numeral : Lossless numeral :=
  ((lossless_sign.andThen lossless_digits).andThen lossless_digits.marked).andThen
    (lossless_sign.andThen lossless_digits).marked

/-- The character can be the first of an unsigned numeral. -/
def startsNumeral (c : Char) : Bool := c.isDigit || c == '.'

/-- A numeral takes a first character that is a sign or starts a numeral. -/
theorem numeral_ne_nil {c : Char} (cs : List Char) (h : isSign c = true ∨ startsNumeral c = true) :
    (numeral (c :: cs)).1 ≠ [] := by
  by_cases hsign : isSign c = true
  · simp [numeral, Cut.andThen, sign, Cut.marked, hsign]
  · by_cases hdigit : c.isDigit = true
    · simp [numeral, Cut.andThen, sign, Cut.marked, hsign, digits, hdigit]
    · have hpoint : c = '.' := by simpa [startsNumeral, hsign, hdigit] using h
      subst hpoint
      simp [numeral, Cut.andThen, sign, Cut.marked, isSign, digits, fraction]

theorem length_numeral_lt {c : Char} (cs : List Char)
    (h : isSign c = true ∨ startsNumeral c = true) :
    (numeral (c :: cs)).2.length < (c :: cs).length := by
  have hlength := congrArg List.length (lossless_numeral (c :: cs))
  have := List.length_pos_iff.mpr (numeral_ne_nil cs h)
  rw [List.length_append] at hlength
  omega

end Cut

end ArithScript
