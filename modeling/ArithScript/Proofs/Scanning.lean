import ArithScript.Expression.Scanner
import ArithScript.Proofs.Computations
import ArithScript.Proofs.Lexing
import ArithScript.Proofs.Slices

/-!
# A scan stays between characters

A scanner looks at single bytes, and yet it cuts an expression where `Lexeme.lex` cuts its
characters. The byte at a place between two characters is the next character, or it is one of
a longer form, which is like no character that the scanner asks for (`RestAt.apply_peek`). So
the scanner goes over characters of single bytes only, and the place where it stops is again
between two characters (`Agrees`). This is the invariant of the scan (`Reached.restAt`), and
from it the scan finds the lexemes of the text (`lexemes?_eq`).
-/

namespace ArithScript.Scanner

open Grammar Text

/-! ## What a byte shows -/

section Peek

variable {text : String} {place : Nat} {c : Char} {cs rest : List Char}

theorem exists_byte_of_peek (h : RestAt text place (c :: cs)) :
    ∃ byte ∈ String.utf8EncodeChar c, peek text place = .ofUInt8 byte := by
  have hlt := h.lt_utf8ByteSize
  obtain ⟨front, rfl, rfl⟩ := h
  have hbyte := getUTF8Byte_append front (String.ofList (c :: cs)) hlt
  rw [String.toByteArray_ofList, List.utf8Encode, List.data_toByteArray, List.flatMap_cons,
    List.head?_append_of_ne_nil _ String.utf8EncodeChar_ne_nil] at hbyte
  exact ⟨_, List.mem_of_mem_head? hbyte, dif_pos hlt⟩

/-- The byte is the character, or both are beyond the characters of a single byte. -/
theorem peek_cases (h : RestAt text place (c :: cs)) :
    (c.toNat < 128 ∧ peek text place = c) ∨
      (128 ≤ c.toNat ∧ 128 ≤ (peek text place).toNat) := by
  obtain ⟨byte, hmem, hpeek⟩ := exists_byte_of_peek h
  have hcode : (peek text place).toNat = byte.toNat := congrArg Char.toNat hpeek
  rcases Nat.lt_or_ge c.toNat 128 with hascii | hlarge
  · have hbyte := toNat_of_mem_utf8EncodeChar hascii hmem
    exact .inl ⟨hascii, Char.toNat_inj.mp (hcode.trans hbyte)⟩
  · refine .inr ⟨hlarge, Nat.not_lt.mp fun hlt => ?_⟩
    rw [hcode] at hlt
    exact absurd (toNat_eq_of_mem_utf8EncodeChar hlt hmem) (by omega)

/-- The function treats the zero character and all that take several bytes alike. -/
def OnBytes {α : Type} (f : Char → α) (other : α) : Prop :=
  ∀ c : Char, c.toNat = 0 ∨ 128 ≤ c.toNat → f c = other

/-- What is asked of the byte at a place is asked of the next character, if there is one. -/
theorem OnBytes.peek {α : Type} {f : Char → α} {other : α} (hf : OnBytes f other)
    (h : RestAt text place rest) : f (peek text place) = (rest.head?.map f).getD other := by
  cases rest with
  | nil =>
    have hend : Scanner.peek text place = '\x00' :=
      dif_neg (Nat.not_lt.mpr (Nat.le_of_eq h.eq_utf8ByteSize.symm))
    rw [hend]
    exact hf _ (.inl rfl)
  | cons c cs =>
    rcases peek_cases h with ⟨-, hsame⟩ | ⟨hc, hbyte⟩
    · rw [hsame]
      rfl
    · rw [hf _ (.inr hbyte)]
      exact (hf c (.inr hc)).symm

/-- What the function tells from the others is a character of a single byte. -/
theorem OnBytes.toNat_lt_of_ne {α : Type} {f : Char → α} {other : α} (hf : OnBytes f other)
    (h : f c ≠ other) : c.toNat < 128 :=
  Nat.not_le.mp fun hc => h (hf c (.inr hc))

theorem OnBytes.toNat_lt {kind : Char → Bool} (hkind : OnBytes kind false) (h : kind c = true) :
    c.toNat < 128 :=
  hkind.toNat_lt_of_ne (Bool.eq_false_iff.not.mpr (not_not.mpr h))

/-- A test that only these characters pass is passed by no other byte. -/
theorem onBytes_of_mem {kind : Char → Bool} (chars : List Char)
    (hchars : ∀ c ∈ chars, 0 < c.toNat ∧ c.toNat < 128) (hkind : ∀ c, kind c = true → c ∈ chars) :
    OnBytes kind false := by
  intro c hc
  rw [Bool.eq_false_iff]
  intro htrue
  have := hchars c (hkind c htrue)
  omega

theorem onBytes_isDigit : OnBytes Char.isDigit false := by
  intro c hc
  rw [Bool.eq_false_iff]
  intro hdigit
  simp only [Char.isDigit, ge_iff_le, Bool.and_eq_true, decide_eq_true_eq,
    UInt32.le_iff_toNat_le] at hdigit
  change 48 ≤ c.toNat ∧ c.toNat ≤ 57 at hdigit
  omega

theorem onBytes_isSign : OnBytes Cut.isSign false :=
  onBytes_of_mem ['+', '-'] (by simp) fun c hc => by
    simpa [Cut.isSign] using hc

theorem onBytes_point : OnBytes (· == '.') false :=
  onBytes_of_mem ['.'] (by simp) fun c hc => by simpa using hc

theorem onBytes_exponentMark : OnBytes (fun c => c == 'e' || c == 'E') false :=
  onBytes_of_mem ['e', 'E'] (by simp) fun c hc => by simpa using hc

theorem onBytes_startsNumeral : OnBytes Cut.startsNumeral false := by
  intro c hc
  rw [Cut.startsNumeral, onBytes_isDigit c hc]
  exact onBytes_point c hc

theorem onBytes_ofChar? : OnBytes Operator.ofChar? none := by
  intro c hc
  unfold Operator.ofChar?
  split <;> first | rfl | simp at hc

end Peek

/-! ## The end of a numeral -/

/-- The skip goes over the characters that the cut takes. -/
def Skip.Agrees (skip : Skip) (cut : Cut) : Prop :=
  ∀ (text : String) (place : Nat) (cs : List Char), RestAt text place cs →
    RestAt text (skip text place) (cut cs).2

namespace Skip

theorem agrees_nothing : Agrees nothing Cut.nothing := fun _ _ _ h => h

/-- By induction on the bytes that are left. -/
theorem agrees_digits : Agrees digits Cut.digits := by
  intro text place cs h
  fun_induction digits text place generalizing cs with
  | case1 place hdigit ih =>
    rw [onBytes_isDigit.peek h] at hdigit
    cases cs with
    | nil => cases hdigit
    | cons c cs =>
      have hc : c.isDigit = true := hdigit
      have hrest : (Cut.digits (c :: cs)).2 = (Cut.digits cs).2 := List.dropWhile_cons_of_pos hc
      rw [hrest]
      exact ih cs (h.tail (onBytes_isDigit.toNat_lt hc))
  | case2 place hdigit =>
    rw [onBytes_isDigit.peek h] at hdigit
    have hstop : NotStarting Char.isDigit cs := by
      intro c hc
      rw [Option.mem_def.mp hc] at hdigit
      exact Bool.eq_false_iff.mpr hdigit
    have hnone : (Cut.digits cs).2 = cs := hstop.dropWhile_eq
    rwa [hnone]

theorem Agrees.andThen {first second : Skip} {cut cut' : Cut} (hfirst : first.Agrees cut)
    (hsecond : second.Agrees cut') : (first.andThen second).Agrees (cut.andThen cut') :=
  fun text place cs h => hsecond text _ _ (hfirst text place cs h)

theorem Agrees.marked {mark : Char → Bool} {tail : Skip} {cut : Cut} (hmark : OnBytes mark false)
    (htail : tail.Agrees cut) : (Skip.marked mark tail).Agrees (Cut.marked mark cut) := by
  intro text place cs h
  rw [Skip.marked, hmark.peek h]
  cases cs with
  | nil => exact h
  | cons c cs =>
    change RestAt text (if mark c then _ else _) (if mark c then _ else _ : List Char × List Char).2
    by_cases hc : mark c = true
    · rw [if_pos hc, if_pos hc]
      exact htail text _ _ (h.tail (hmark.toNat_lt hc))
    · rw [if_neg hc, if_neg hc]
      exact h

theorem agrees_sign : sign.Agrees Cut.sign := agrees_nothing.marked onBytes_isSign

theorem agrees_numeral : numeral.Agrees Cut.numeral :=
  ((agrees_sign.andThen agrees_digits).andThen (agrees_digits.marked onBytes_point)).andThen
    ((agrees_sign.andThen agrees_digits).marked onBytes_exponentMark)

end Skip

/-! ## One lexeme -/

section Scan

variable {text : String} {scanner : Scanner} {c : Char} {cs rest : List Char}

/-- The bytes show whether a number starts as the characters do. -/
theorem startsNumber_eq (h : RestAt text scanner.cursor (c :: cs)) :
    (Cut.startsNumeral (peek text scanner.cursor) ||
      (Cut.isSign (peek text scanner.cursor) && !scanner.afterNumber &&
        Cut.startsNumeral (peek text (scanner.cursor + 1)))) =
      Lexeme.startsNumber scanner.afterNumber c cs := by
  have hfirst : Cut.startsNumeral (peek text scanner.cursor) = Cut.startsNumeral c :=
    onBytes_startsNumeral.peek h
  have hsign : Cut.isSign (peek text scanner.cursor) = Cut.isSign c := onBytes_isSign.peek h
  rw [Lexeme.startsNumber, hfirst, hsign]
  by_cases hc : Cut.isSign c = true
  · have hnext := onBytes_startsNumeral.peek (h.tail (onBytes_isSign.toNat_lt hc))
    rw [hnext]
    cases cs <;> rfl
  · rw [Bool.eq_false_iff.mpr hc]
    rfl

theorem number?_eq (h : RestAt text scanner.cursor (c :: cs)) :
    number? text scanner.cursor = some
      (match Binary64.read? (Cut.numeral (c :: cs)).1 with
        | some value =>
          .ok (.number (Cut.numeral (c :: cs)).1 value, placeBefore text (Cut.numeral (c :: cs)).2)
        | none => .error (.invalidNumber (String.ofList (Cut.numeral (c :: cs)).1))) := by
  have hstop := Skip.agrees_numeral text _ _ h
  rw [← Cut.lossless_numeral (c :: cs)] at h
  rw [number?, h.slice? hstop, hstop.eq_placeBefore]
  cases hread : Binary64.read? (Cut.numeral (c :: cs)).1 <;>
    simp only [Option.map_some, String.toList_ofList, hread]

theorem fault?_eq (h : RestAt text scanner.cursor (c :: cs)) :
    fault? text scanner.cursor =
      some (if c = '(' ∨ c = ')' then .parenthesis else .unexpectedCharacter c) := by
  have hslice : slice? text scanner.cursor text.utf8ByteSize = some (String.ofList (c :: cs)) :=
    RestAt.slice? (by rwa [List.append_nil]) (.stop text)
  rw [fault?, hslice, Option.map_some, String.toList_ofList]
  rcases peek_cases h with ⟨-, hsame⟩ | ⟨hc, hbyte⟩
  · rw [hsame]
    split <;> rfl
  · have hnone (d : Char) (hd : 128 ≤ d.toNat) : ¬ (d = '(' ∨ d = ')') := by
      rintro (rfl | rfl) <;> exact absurd hd (by decide)
    rw [if_neg (hnone _ hbyte), if_neg (hnone _ hc)]
    rfl

/-- At a place with characters behind it the scanner finds their first lexeme. -/
theorem scan?_eq (h : RestAt text scanner.cursor (c :: cs)) :
    scanner.scan? text = some ((Lexeme.next scanner.afterNumber c cs).map fun (lexeme, rest) =>
      (lexeme, placeBefore text rest)) := by
  have hop := onBytes_ofChar?.peek h
  unfold scan? Lexeme.next
  dsimp only
  rw [startsNumber_eq h]
  split
  · rw [number?_eq h]
    cases Binary64.read? (Cut.numeral (c :: cs)).1 <;> rfl
  · rw [hop, List.head?_cons, Option.map_some, Option.getD_some]
    cases hc : Operator.ofChar? c with
    | none =>
      rw [fault?_eq h]
      rfl
    | some op =>
      have hascii := onBytes_ofChar?.toNat_lt_of_ne (hc ▸ Option.some_ne_none op)
      rw [(h.tail hascii).eq_placeBefore]
      rfl

theorem next?_eq (h : RestAt text scanner.cursor (c :: cs)) : scanner.next? text = some
    (match Lexeme.next scanner.afterNumber c cs with
      | .ok (lexeme, rest) => (.ok lexeme, ⟨placeBefore text rest, lexeme.isNumber⟩)
      | .error reason => (.error reason, { scanner with cursor := text.utf8ByteSize })) := by
  rw [next?, scan?_eq h, Option.map_some]
  cases Lexeme.next scanner.afterNumber c cs <;> rfl

end Scan

/-! ## The scan -/

section Lexemes

variable {text : String} {scanner scanner' : Scanner} {cs : List Char}

theorem lexemesFrom?_of_lexeme {lexeme : Lexeme} (hcursor : scanner.cursor < text.utf8ByteSize)
    (hnext : scanner.next? text = some (.ok lexeme, scanner')) : scanner.lexemesFrom? text =
      (scanner'.lexemesFrom? text).map fun lexemes => lexemes.map (lexeme :: ·) := by
  rw [lexemesFrom?, if_pos hcursor]
  split
  · next hnone =>
    rw [hnext] at hnone
    cases hnone
  · next herror =>
    rw [hnext] at herror
    cases herror
  · next hfound =>
    rw [hnext] at hfound
    cases hfound
    rfl

theorem lexemesFrom?_of_fault {reason : Malformation}
    (hcursor : scanner.cursor < text.utf8ByteSize)
    (hnext : scanner.next? text = some (.error reason, scanner')) :
    scanner.lexemesFrom? text = some (.error reason) := by
  rw [lexemesFrom?, if_pos hcursor]
  split
  · next hnone =>
    rw [hnext] at hnone
    cases hnone
  · next herror =>
    rw [hnext] at herror
    cases herror
    rfl
  · next hfound =>
    rw [hnext] at hfound
    cases hfound

theorem lexemesFrom?_of_end (hcursor : text.utf8ByteSize ≤ scanner.cursor) :
    scanner.lexemesFrom? text = some (.ok []) := by
  rw [lexemesFrom?, if_neg (Nat.not_lt.mpr hcursor)]

/-- From a place between two characters the scan finds the lexemes of the rest, by induction
on these lexemes. -/
theorem lexemesFrom?_eq (h : RestAt text scanner.cursor cs) :
    scanner.lexemesFrom? text = some (Lexeme.lexFrom scanner.afterNumber cs) := by
  generalize hafter : scanner.afterNumber = afterNumber
  fun_induction Lexeme.lexFrom afterNumber cs generalizing scanner with
  | case1 afterNumber => exact lexemesFrom?_of_end (Nat.le_of_eq h.eq_utf8ByteSize.symm)
  | case2 afterNumber c cs reason hnext =>
    have hfault := next?_eq h
    rw [hafter, hnext] at hfault
    exact lexemesFrom?_of_fault h.lt_utf8ByteSize hfault
  | case3 afterNumber c cs lexeme rest hnext ih =>
    have hfound := next?_eq h
    rw [hafter, hnext] at hfound
    have hrest : RestAt text (placeBefore text rest) rest := by
      rw [← source_of_next hnext] at h
      exact h.behind
    rw [lexemesFrom?_of_lexeme h.lt_utf8ByteSize hfound, ih hrest rfl]
    rfl

/-- The scan of an expression finds the lexemes of its characters. -/
theorem lexemes?_eq (text : String) : lexemes? text = some (Lexeme.lex text.toList) :=
  lexemesFrom?_eq (.start text)

/-- There are at most as many lexemes as bytes, by induction on the bytes that are left. -/
theorem length_lexemesFrom? {lexemes : List Lexeme}
    (h : scanner.lexemesFrom? text = some (.ok lexemes)) :
    lexemes.length ≤ text.utf8ByteSize - scanner.cursor := by
  fun_induction lexemesFrom? text scanner generalizing lexemes with
  | case1 | case2 => cases h
  | case3 scanner hcursor lexeme scanner' hnext ih =>
    obtain ⟨found, hfound, hlexemes⟩ := Option.map_eq_some_iff.mp h
    obtain ⟨more, rfl, rfl⟩ := map_eq_ok.mp hlexemes
    have hmore := ih hfound
    have hlt := cursor_lt_of_next? hcursor hnext
    rw [List.length_cons]
    omega
  | case4 scanner =>
    cases h
    exact Nat.zero_le _

end Lexemes

/-! ## Scanners of a text -/

/-- The scanners that a scan of the text comes to. -/
inductive Reached (text : String) : Scanner → Prop
  | first : Reached text .first
  | next {scanner scanner' : Scanner} {found : Except Malformation Lexeme}
    (hscanner : Reached text scanner) (hcursor : scanner.cursor < text.utf8ByteSize)
    (hnext : scanner.next? text = some (found, scanner')) : Reached text scanner'

section Reached

variable {text : String} {scanner scanner' : Scanner} {found : Except Malformation Lexeme}
  {cs : List Char}

/-- One step of a scan: it ends between two characters if it starts there, and what it goes
over is the source of the lexeme. -/
theorem restAt_of_next? (h : RestAt text scanner.cursor cs)
    (hcursor : scanner.cursor < text.utf8ByteSize)
    (hnext : scanner.next? text = some (found, scanner')) :
    ∃ rest, RestAt text scanner'.cursor rest ∧
      ∀ lexeme, found = .ok lexeme → lexeme.source ++ rest = cs := by
  cases cs with
  | nil => exact absurd h.eq_utf8ByteSize (Nat.ne_of_lt hcursor)
  | cons c cs =>
    rw [next?_eq h] at hnext
    cases hlexeme : Lexeme.next scanner.afterNumber c cs with
    | error reason =>
      rw [hlexeme] at hnext
      cases hnext
      exact ⟨[], .stop text, fun _ hok => nomatch hok⟩
    | ok next =>
      obtain ⟨lexeme, rest⟩ := next
      have hsource := source_of_next hlexeme
      rw [hlexeme] at hnext
      cases hnext
      rw [← hsource] at h
      refine ⟨rest, h.behind, fun lexeme' hok => ?_⟩
      cases hok
      exact hsource

/-- A scan stays between the characters of the text. -/
theorem Reached.restAt (h : Reached text scanner) : ∃ rest, RestAt text scanner.cursor rest := by
  induction h with
  | first => exact ⟨_, .start text⟩
  | next _ hcursor hnext ih =>
    obtain ⟨cs, hcs⟩ := ih
    obtain ⟨rest, hrest, -⟩ := restAt_of_next? hcs hcursor hnext
    exact ⟨rest, hrest⟩

theorem Reached.le_utf8ByteSize (h : Reached text scanner) :
    scanner.cursor ≤ text.utf8ByteSize := by
  obtain ⟨cs, hcs⟩ := h.restAt
  rw [hcs.utf8ByteSize]
  exact Nat.le_add_right _ _

/-- Before the end of the text there is always something to find. -/
theorem Reached.exists_next (h : Reached text scanner)
    (hcursor : scanner.cursor < text.utf8ByteSize) :
    ∃ found scanner', scanner.next? text = some (found, scanner') := by
  obtain ⟨cs, hcs⟩ := h.restAt
  cases cs with
  | nil => exact absurd hcs.eq_utf8ByteSize (Nat.ne_of_lt hcursor)
  | cons c cs => exact ⟨_, _, next?_eq hcs⟩

/-- What a scan goes over to find a lexeme is the slice that the lexeme comes from. -/
theorem Reached.slice? (h : Reached text scanner) (hcursor : scanner.cursor < text.utf8ByteSize)
    {lexeme : Lexeme} (hnext : scanner.next? text = some (.ok lexeme, scanner')) :
    slice? text scanner.cursor scanner'.cursor = some (String.ofList lexeme.source) := by
  obtain ⟨cs, hcs⟩ := h.restAt
  obtain ⟨rest, hrest, hsource⟩ := restAt_of_next? hcs hcursor hnext
  rw [← hsource lexeme rfl] at hcs
  exact hcs.slice? hrest

/-- The text of a number is cut out up to the end of the numeral. -/
theorem Reached.exists_slice_numeral (h : Reached text scanner) :
    ∃ numeral, Text.slice? text scanner.cursor (Skip.numeral text scanner.cursor) =
      some numeral := by
  obtain ⟨cs, hcs⟩ := h.restAt
  have hstop := Skip.agrees_numeral text _ _ hcs
  rw [← Cut.lossless_numeral cs] at hcs
  exact ⟨_, hcs.slice? hstop⟩

/-- For a character that is out of place, the whole rest of the text is cut out. -/
theorem Reached.exists_slice_rest (h : Reached text scanner) :
    ∃ rest, Text.slice? text scanner.cursor text.utf8ByteSize = some rest := by
  obtain ⟨cs, hcs⟩ := h.restAt
  rw [← List.append_nil cs] at hcs
  exact ⟨_, hcs.slice? (.stop text)⟩

theorem onBytes_isNumeralChar : OnBytes isNumeralChar false := by
  intro c hc
  rw [isNumeralChar, onBytes_startsNumeral c hc, onBytes_isSign c hc, Bool.false_or, Bool.false_or]
  exact onBytes_exponentMark c hc

/-- On the way to the end of a numeral every place is between two characters. -/
theorem Reached.isValid_numeral (h : Reached text scanner) {place : Nat}
    (hstart : scanner.cursor ≤ place) (hstop : place ≤ Skip.numeral text scanner.cursor) :
    String.Pos.Raw.IsValid text ⟨place⟩ := by
  obtain ⟨cs, hcs⟩ := h.restAt
  have hascii : ∀ c ∈ (Cut.numeral cs).1, c.toNat < 128 := fun c hc =>
    onBytes_isNumeralChar.toNat_lt (takes_numeral cs c hc)
  have hend := Skip.agrees_numeral text _ _ hcs
  rw [← Cut.lossless_numeral cs] at hcs
  have hlength : Skip.numeral text scanner.cursor =
      scanner.cursor + (Cut.numeral cs).1.length := by
    rw [hend.eq_placeBefore, ← (hcs.append hascii).eq_placeBefore]
  obtain ⟨n, rfl⟩ := Nat.exists_eq_add_of_le hstart
  -- The place is behind the first `n` of the characters that the numeral takes.
  have hsplit : (Cut.numeral cs).1 ++ (Cut.numeral cs).2 =
      (Cut.numeral cs).1.take n ++ ((Cut.numeral cs).1.drop n ++ (Cut.numeral cs).2) := by
    rw [← List.append_assoc, List.take_append_drop]
  rw [hsplit] at hcs
  have hplace := hcs.append fun c hc => hascii c (List.mem_of_mem_take hc)
  rw [List.length_take_of_le (by omega)] at hplace
  exact hplace.isValid

end Reached

end ArithScript.Scanner
