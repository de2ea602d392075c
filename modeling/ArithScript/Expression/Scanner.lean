import ArithScript.Expression.Lexeme
import ArithScript.Text.Slice

/-!
# Scanning an expression

A scanner finds the lexemes of an expression in the bytes of its text. What starts at its
cursor shows in the byte there, and of a sign in the byte behind it too. A numeral goes on to
the first byte that cannot be part of it and is cut out as a slice of the text. The first
fault ends the scan, and behind the end of the text there are zero bytes to look at.

The scan finds what `Lexeme.lex` cuts from the characters of the text, and all that it cuts
out are slices (`Scanner.lexemes?_eq`).
-/

namespace ArithScript

/-- A scan of an expression, between two lexemes. -/
structure Scanner where
  /-- The place in the text at which the next lexeme starts. -/
  cursor : Nat
  /-- The lexeme before it is a number. -/
  afterNumber : Bool
  deriving DecidableEq, Repr

namespace Scanner

/-! ## Looking ahead -/

/-- The byte at a place of the text, as the character of this code, and the zero character
where the text has ended. -/
def peek (text : String) (place : Nat) : Char :=
  if h : place < text.utf8ByteSize then .ofUInt8 (text.getUTF8Byte ⟨place⟩ h) else '\x00'

theorem lt_of_peek {text : String} {place : Nat} (h : peek text place ≠ '\x00') :
    place < text.utf8ByteSize := by
  unfold peek at h
  split at h
  · assumption
  · exact absurd rfl h

theorem lt_of_isDigit_peek {text : String} {place : Nat}
    (h : (peek text place).isDigit = true) : place < text.utf8ByteSize := by
  refine lt_of_peek fun hzero => ?_
  rw [hzero] at h
  cases h

/-! ## The end of a numeral -/

/-- A way to go on from a place of a text. -/
abbrev Skip := String → Nat → Nat

namespace Skip

def nothing : Skip := fun _ place => place

def digits (text : String) (place : Nat) : Nat :=
  if (peek text place).isDigit then digits text (place + 1) else place
termination_by text.utf8ByteSize - place
decreasing_by
  have := lt_of_isDigit_peek ‹_›
  omega

/-- Goes over a mark, and over what `tail` goes over behind it; without the mark it stays. -/
def marked (mark : Char → Bool) (tail : Skip) : Skip := fun text place =>
  if mark (peek text place) then tail text (place + 1) else place

/-- Goes over what the first goes over, and then over what the second does. -/
def andThen (first second : Skip) : Skip := fun text place => second text (first text place)

def sign : Skip := marked Cut.isSign nothing

def fraction : Skip := marked (· == '.') digits

def exponent : Skip := marked (fun c => c == 'e' || c == 'E') (sign.andThen digits)

/-- Goes over whatever can be part of one number. -/
def numeral : Skip := ((sign.andThen digits).andThen fraction).andThen exponent

/-- The skip does not go back. -/
def Forward (skip : Skip) : Prop := ∀ text place, place ≤ skip text place

theorem forward_nothing : Forward nothing := fun _ _ => Nat.le_refl _

theorem forward_digits : Forward digits := by
  intro text place
  fun_induction digits text place with
  | case1 place _ ih => exact Nat.le_of_succ_le ih
  | case2 place => exact Nat.le_refl place

theorem Forward.andThen {first second : Skip} (hfirst : Forward first)
    (hsecond : Forward second) : Forward (first.andThen second) :=
  fun text place => Nat.le_trans (hfirst text place) (hsecond text (first text place))

theorem Forward.marked_lt {mark : Char → Bool} {tail : Skip} (htail : Forward tail) {text : String}
    {place : Nat} (h : mark (peek text place) = true) : place < marked mark tail text place := by
  rw [Skip.marked, if_pos h]
  exact htail text (place + 1)

theorem Forward.marked {mark : Char → Bool} {tail : Skip} (htail : Forward tail) :
    Forward (Skip.marked mark tail) := by
  intro text place
  by_cases h : mark (peek text place) = true
  · exact Nat.le_of_lt (htail.marked_lt h)
  · exact Nat.le_of_eq (if_neg h).symm

theorem forward_sign : Forward sign := forward_nothing.marked

theorem forward_fraction : Forward fraction := forward_digits.marked

theorem forward_exponent : Forward exponent := (forward_sign.andThen forward_digits).marked

/-- A numeral goes on from a sign and from the start of an unsigned numeral. -/
theorem lt_numeral {text : String} {place : Nat}
    (h : Cut.isSign (peek text place) = true ∨ Cut.startsNumeral (peek text place) = true) :
    place < numeral text place := by
  have hwhole : place < fraction text (digits text (sign text place)) := by
    by_cases hsign : Cut.isSign (peek text place) = true
    · have hlt : place < sign text place := forward_nothing.marked_lt hsign
      exact Nat.lt_of_lt_of_le hlt ((forward_digits.andThen forward_fraction) text _)
    · have hstay : sign text place = place := if_neg hsign
      rw [hstay]
      by_cases hdigit : (peek text place).isDigit = true
      · rw [digits, if_pos hdigit]
        exact (forward_digits.andThen forward_fraction) text (place + 1)
      · have hpoint : (peek text place == '.') = true := by
          simpa [Cut.startsNumeral, hsign, hdigit] using h
        rw [digits, if_neg hdigit]
        exact forward_digits.marked_lt hpoint
  exact Nat.lt_of_lt_of_le hwhole (forward_exponent text _)

end Skip

/-! ## One lexeme -/

/-- The numeral at a place as a number, with the place behind it. -/
def number? (text : String) (start : Nat) : Option (Except Malformation (Lexeme × Nat)) :=
  let stop := Skip.numeral text start
  (Text.slice? text start stop).map fun source =>
    match Binary64.read? source.toList with
    | some value => .ok (.number source.toList value, stop)
    | none => .error (.invalidNumber source)

/-- What is wrong where no lexeme starts. -/
def fault? (text : String) (place : Nat) : Option Malformation :=
  if peek text place = '(' ∨ peek text place = ')' then some .parenthesis
  else
    (Text.slice? text place text.utf8ByteSize).map fun rest =>
      .unexpectedCharacter (rest.toList.head?.getD '?')

/-- The lexeme at the cursor with the place behind it; `none` if something that is cut out
is no slice of the text. -/
def scan? (text : String) (scanner : Scanner) : Option (Except Malformation (Lexeme × Nat)) :=
  let c := peek text scanner.cursor
  if Cut.startsNumeral c || (Cut.isSign c && !scanner.afterNumber &&
      Cut.startsNumeral (peek text (scanner.cursor + 1))) then
    number? text scanner.cursor
  else
    match Operator.ofChar? c with
    | some op => some (.ok (.operator op, scanner.cursor + 1))
    | none => (fault? text scanner.cursor).map .error

theorem lt_of_scan? {text : String} {scanner : Scanner} {lexeme : Lexeme} {place : Nat}
    (h : scanner.scan? text = some (.ok (lexeme, place))) : scanner.cursor < place := by
  unfold scan? at h
  dsimp only at h
  split at h
  · next hstart =>
    have hlt : scanner.cursor < Skip.numeral text scanner.cursor := by
      apply Skip.lt_numeral
      simp only [Bool.or_eq_true, Bool.and_eq_true] at hstart
      exact hstart.symm.imp_left fun hsign => hsign.1.1
    obtain ⟨source, -, hnumber⟩ := Option.map_eq_some_iff.mp h
    split at hnumber <;> cases hnumber
    exact hlt
  · split at h
    · cases h
      exact Nat.lt_succ_self _
    · obtain ⟨reason, -, herror⟩ := Option.map_eq_some_iff.mp h
      cases herror

/-- What comes next, and the scanner behind it. Behind a fault there is nothing more to
scan. -/
def next? (text : String) (scanner : Scanner) :
    Option (Except Malformation Lexeme × Scanner) :=
  (scanner.scan? text).map fun
    | .ok (lexeme, place) => (.ok lexeme, ⟨place, lexeme.isNumber⟩)
    | .error reason => (.error reason, { scanner with cursor := text.utf8ByteSize })

/-- The scanner goes on with everything that it finds. -/
theorem cursor_lt_of_next? {text : String} {scanner scanner' : Scanner}
    {found : Except Malformation Lexeme} (hcursor : scanner.cursor < text.utf8ByteSize)
    (h : scanner.next? text = some (found, scanner')) : scanner.cursor < scanner'.cursor := by
  obtain ⟨scanned, hscan, hnext⟩ := Option.map_eq_some_iff.mp h
  match scanned with
  | .ok (lexeme, place) =>
    cases hnext
    exact lt_of_scan? hscan
  | .error reason =>
    cases hnext
    exact hcursor

/-! ## All lexemes -/

/-- The lexemes from the cursor to the end of the text. -/
def lexemesFrom? (text : String) (scanner : Scanner) :
    Option (Except Malformation (List Lexeme)) :=
  if scanner.cursor < text.utf8ByteSize then
    match _h : scanner.next? text with
    | none => none
    | some (.error reason, _) => some (.error reason)
    | some (.ok lexeme, scanner') =>
      (lexemesFrom? text scanner').map fun lexemes => lexemes.map (lexeme :: ·)
  else some (.ok [])
termination_by text.utf8ByteSize - scanner.cursor
decreasing_by
  have := cursor_lt_of_next? ‹_› _h
  omega

def first : Scanner := ⟨0, false⟩

def lexemes? (text : String) : Option (Except Malformation (List Lexeme)) :=
  first.lexemesFrom? text

end Scanner

end ArithScript
