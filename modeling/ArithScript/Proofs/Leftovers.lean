import ArithScript.Proofs.ReductionErrors
import ArithScript.Proofs.Texts
import ArithScript.Proofs.Totals

/-!
# What scanning and reading leave over

A numeral is cut as long as it can be, so no digit is left behind it, and a number that comes
next can start with a point only (`point_of_neighbours`). What a tier of an expression leaves
over starts with no operator of the tier or of those inside it (`Reader.StopsAt.tier`), so
behind a sum that is read there is the end or a number. Together with the scan, which stays
between characters and goes on with every step, this says how far the two phases of the
reducer can come (`Scanner.scan_lossless`).
-/

namespace ArithScript

open Grammar

/-! ## Numbers in a row -/

namespace Cut

/-- The cut leaves no digit at the start of the rest. -/
def TakesDigits (cut : Cut) : Prop := ∀ cs, NotStarting Char.isDigit (cut cs).2

/-- The cut leaves no digit at the start of the rest where there was none before. -/
def BaresNoDigit (cut : Cut) : Prop :=
  ∀ cs, NotStarting Char.isDigit cs → NotStarting Char.isDigit (cut cs).2

theorem takesDigits_digits : TakesDigits digits := notStarting_dropWhile Char.isDigit

theorem TakesDigits.andThen {first second : Cut} (hsecond : TakesDigits second) :
    TakesDigits (first.andThen second) := fun cs => hsecond (first cs).2

theorem TakesDigits.andThen_bares {first second : Cut} (hfirst : TakesDigits first)
    (hsecond : BaresNoDigit second) : TakesDigits (first.andThen second) :=
  fun cs => hsecond (first cs).2 (hfirst cs)

theorem TakesDigits.marked {mark : Char → Bool} {tail : Cut} (htail : TakesDigits tail) :
    BaresNoDigit (Cut.marked mark tail) := by
  intro cs hcs
  cases cs with
  | nil => exact hcs
  | cons c cs =>
    change NotStarting _ (if mark c then _ else _ : List Char × List Char).2
    split
    · exact htail cs
    · exact hcs

theorem takesDigits_numeral : TakesDigits numeral :=
  (takesDigits_digits.andThen.andThen_bares takesDigits_digits.marked).andThen_bares
    takesDigits_digits.andThen.marked

end Cut

namespace Lexeme

variable {afterNumber : Bool} {c : Char} {cs rest source source' : List Char} {x y : Binary64}
  {lexeme : Lexeme} {lexemes more before after : List Lexeme}

theorem cut_of_next (h : next afterNumber c cs = .ok (.number source x, rest)) :
    startsNumber afterNumber c cs = true ∧ Cut.numeral (c :: cs) = (source, rest) := by
  unfold next at h
  split at h
  · next hstart =>
    dsimp only at h
    split at h <;> cases h
    exact ⟨hstart, rfl⟩
  · split at h <;> cases h

/-- Behind a number and no digit, a number starts with a point. -/
theorem point_of_next (hdigit : c.isDigit = false)
    (h : next true c cs = .ok (.number source x, rest)) : source.head? = some '.' := by
  obtain ⟨hstart, hcut⟩ := cut_of_next h
  have hpoint : c = '.' := by
    simpa [startsNumber, Cut.startsNumeral, hdigit] using hstart
  have hlossless := Cut.lossless_numeral (c :: cs)
  have hne := Cut.numeral_ne_nil cs (.inr (by rw [hpoint]; rfl) : _ ∨ Cut.startsNumeral c = true)
  rw [hcut] at hlossless hne
  obtain ⟨d, ds, rfl⟩ := List.exists_cons_of_ne_nil hne
  rw [← hpoint]
  exact congrArg some (List.cons.inj hlossless).1

theorem exists_next (h : lexFrom afterNumber cs = .ok (lexeme :: more)) :
    ∃ c tail rest, cs = c :: tail ∧ next afterNumber c tail = .ok (lexeme, rest) ∧
      lexFrom lexeme.isNumber rest = .ok more := by
  cases cs with
  | nil =>
    rw [lexFrom_nil] at h
    cases h
  | cons c tail =>
    cases hnext : next afterNumber c tail with
    | error reason =>
      rw [lexFrom_of_next_error hnext] at h
      cases h
    | ok found =>
      obtain ⟨lexeme', rest⟩ := found
      rw [lexFrom_of_next hnext] at h
      obtain ⟨more', hmore, hlexemes⟩ := map_eq_ok.mp h
      cases hlexemes
      exact ⟨c, tail, rest, rfl, hnext, hmore⟩

/-- Of two numbers in a row the second starts with a point. -/
theorem point_of_neighbours
    (h : lexFrom afterNumber cs = .ok (before ++ .number source x :: .number source' y :: after)) :
    source'.head? = some '.' := by
  induction before generalizing afterNumber cs with
  | nil =>
    obtain ⟨c, tail, rest, rfl, hnext, hrest⟩ := exists_next h
    obtain ⟨d, tail', rest', rfl, hnext', -⟩ := exists_next hrest
    have hdigit := Cut.takesDigits_numeral (c :: tail)
    rw [(cut_of_next hnext).2] at hdigit
    exact point_of_next (notStarting_cons.mp hdigit) hnext'
  | cons lexeme before ih =>
    obtain ⟨c, tail, rest, -, -, hrest⟩ := exists_next h
    exact ih hrest

/-- A number whose source starts with a point has no sign. -/
theorem unsigned_of_point (hnumber : Genuine (.number source x))
    (hpoint : source.head? = some '.') : x.Unsigned := by
  obtain ⟨⟨sign, n⟩, rfl, rfl⟩ := hnumber
  have hvalue (sign : Option Sign) : sign ≠ some .minus →
      Operand.value ⟨sign, n⟩ = n.decimal.toBinary64 false := by
    intro hsign
    match sign, hsign with
    | none, _ | some .plus, _ => rfl
    | some .minus, hsign => exact absurd rfl hsign
  rw [hvalue sign, Decimal.toBinary64_eq_ofRatio]
  · exact Binary64.unsigned_ofRatio _ _
  · rintro rfl
    cases hpoint

/-- What cannot be cut is wrong in one of three ways. -/
theorem lexFrom_error {reason : Malformation} (h : lexFrom afterNumber cs = .error reason) :
    (∃ text, reason = .invalidNumber text) ∨ reason = .parenthesis ∨
      ∃ c, reason = .unexpectedCharacter c := by
  fun_induction lexFrom afterNumber cs with
  | case1 afterNumber => cases h
  | case2 afterNumber c cs found hnext =>
    cases h
    unfold next at hnext
    split at hnext
    · dsimp only at hnext
      split at hnext <;> cases hnext
      exact .inl ⟨_, rfl⟩
    · split at hnext <;> cases hnext
      split
      · exact .inr (.inl rfl)
      · exact .inr (.inr ⟨_, rfl⟩)
  | case3 afterNumber c cs lexeme rest hnext ih => exact ih (map_eq_error.mp h)

end Lexeme

/-! ## What a reader leaves over -/

namespace Reader

variable {expression : String} {reader : Reader} {kind joins : Operator → Bool}
  {combine : Operator → Binary64 → Binary64 → Except Error Binary64} {acc value : Binary64}
  {lexemes rest : List Lexeme} {op : Operator} {e : Error}

/-- The errors of the readers of an expression. -/
inductive Refusal (expression : String) : Error → Prop
  | divisionByZero : Refusal expression .divisionByZero
  | trailingOperator : Refusal expression (.malformedExpression expression .trailingOperator)
  | expectedNumber (found : Operator) :
    Refusal expression (.malformedExpression expression (.expectedNumber found))

/-- Where a reader of an expression stops: behind a number, and before an operator only if it
is of this kind. -/
structure StopsAt (reader : Reader) (expression : String) (kind : Operator → Bool) : Prop where
  operator {lexemes rest : List Lexeme} {value : Binary64} {op : Operator} :
    reader.read lexemes = .ok (value, .operator op :: rest) → kind op = true
  number {lexemes rest : List Lexeme} {value : Binary64} :
    reader.read lexemes = .ok (value, rest) →
      ∃ before source x, lexemes = before ++ .number source x :: rest
  refusal {lexemes : List Lexeme} {e : Error} :
    reader.read lexemes = .error e → Refusal expression e

theorem stopsAt_operand : (operand expression).StopsAt expression fun _ => true where
  operator _ := rfl
  number {lexemes rest value} h := by
    match lexemes with
    | .number source x :: more =>
      cases h
      exact ⟨[], source, value, rfl⟩
    | .operator found :: more => cases h
    | [] => cases h
  refusal {lexemes e} h := by
    match lexemes with
    | .number source x :: more => cases h
    | .operator found :: more =>
      cases h
      exact .expectedNumber found
    | [] =>
      cases h
      exact .trailingOperator

/-- The loop of a tier stops before no operator of the tier, nor before one that the reader
inside it would not leave. -/
theorem StopsAt.operator_continueFrom (hreader : reader.StopsAt expression kind)
    (hstart : ∀ op rest, lexemes = .operator op :: rest → kind op = true)
    (h : reader.continueFrom joins combine acc lexemes = .ok (value, .operator op :: rest)) :
    kind op = true ∧ joins op = false := by
  fun_induction continueFrom reader joins combine acc lexemes with
  | case1 | case2 => cases h
  | case3 acc op' more hjoins operand more' hread acc' hcombine ih =>
    refine ih (fun op rest hmore => ?_) h
    rw [hmore] at hread
    exact hreader.operator hread
  | case4 acc op' more hjoins =>
    cases h
    exact ⟨hstart op rest rfl, Bool.eq_false_iff.mpr hjoins⟩
  | case5 acc lexemes hother =>
    cases h
    exact absurd rfl (hother op rest)

theorem StopsAt.number_continueFrom (hreader : reader.StopsAt expression kind)
    (h : reader.continueFrom joins combine acc lexemes = .ok (value, rest)) :
    lexemes = rest ∨ ∃ before source x, lexemes = before ++ .number source x :: rest := by
  fun_induction continueFrom reader joins combine acc lexemes with
  | case1 | case2 => cases h
  | case3 acc op' more hjoins operand more' hread acc' hcombine ih =>
    obtain ⟨before, source, x, hmore⟩ := hreader.number hread
    right
    rcases ih h with rfl | ⟨before', source', x', rfl⟩
    · exact ⟨.operator op' :: before, source, x, by rw [hmore, List.cons_append]⟩
    · refine ⟨.operator op' :: before ++ .number source x :: before', source', x', ?_⟩
      rw [hmore, List.append_assoc, List.cons_append, List.cons_append]
  | case4 | case5 =>
    cases h
    exact .inl rfl

theorem StopsAt.refusal_continueFrom (hreader : reader.StopsAt expression kind)
    (hcombine : ∀ {op x y e}, combine op x y = .error e → Refusal expression e)
    (h : reader.continueFrom joins combine acc lexemes = .error e) : Refusal expression e := by
  fun_induction continueFrom reader joins combine acc lexemes with
  | case1 acc op' more hjoins e' hread =>
    cases h
    exact hreader.refusal hread
  | case2 acc op' more hjoins operand more' hread e' hfail =>
    cases h
    exact hcombine hfail
  | case3 acc op' more hjoins operand more' hread acc' _ ih => exact ih h
  | case4 | case5 => cases h

/-- A tier leaves what the reader inside it leaves, less the operators of the tier. -/
theorem StopsAt.tier (hreader : reader.StopsAt expression kind)
    (hcombine : ∀ {op x y e}, combine op x y = .error e → Refusal expression e) :
    (reader.tier joins combine).StopsAt expression fun op => kind op && !joins op where
  operator {lexemes rest value op} h := by
    dsimp only [Reader.tier] at h
    split at h
    · cases h
    · next first more hread =>
      obtain ⟨hkind, hjoins⟩ := hreader.operator_continueFrom
        (fun op rest hmore => hreader.operator (hmore ▸ hread)) h
      rw [hkind, hjoins]
      rfl
  number {lexemes rest value} h := by
    dsimp only [Reader.tier] at h
    split at h
    · cases h
    · next first more hread =>
      obtain ⟨before, source, x, rfl⟩ := hreader.number hread
      rcases hreader.number_continueFrom h with rfl | ⟨before', source', x', rfl⟩
      · exact ⟨before, source, x, rfl⟩
      · exact ⟨before ++ .number source x :: before', source', x', by simp⟩
  refusal {lexemes e} h := by
    dsimp only [Reader.tier] at h
    split at h
    · next e' hread =>
      cases h
      exact hreader.refusal hread
    · exact hreader.refusal_continueFrom hcombine h

theorem refusal_of_combineFactors {x y : Binary64} (h : combineFactors op x y = .error e) :
    Refusal expression e := by
  unfold combineFactors at h
  split at h <;> cases h
  exact .divisionByZero

/-- Every operator is of one of the two tiers, so a sum stops before none. -/
theorem stopsAt_sum : (sum expression).StopsAt expression fun _ => false := by
  have htiers : (fun op => (true && !joinsFactors op) && !joinsTerms op) = fun _ => false := by
    funext op
    cases op <;> rfl
  rw [← htiers]
  exact (stopsAt_operand.tier refusal_of_combineFactors).tier fun h => by cases h

end Reader

/-! ## Reports of what is left over -/

section Reports

variable {text : String} {lexemes : List Lexeme} {e : Error}

/-- Behind a sum that is read there is the end or a number, and then it is the second of two
numbers in a row. -/
theorem reduceLexemes_error (h : reduceLexemes text lexemes = .error e) :
    Reader.Refusal text e ∨
      (∃ reason, e = .malformedExpression text reason ∧ (reason = .empty ∨ reason = .notFinite)) ∨
      ∃ before source x source' y after, e = .malformedExpression text (.missingOperator y) ∧
        lexemes = before ++ .number source x :: .number source' y :: after := by
  unfold reduceLexemes at h
  split at h
  · cases h
    exact .inr (.inl ⟨_, rfl, .inl rfl⟩)
  · unfold conclude at h
    split at h
    · next hread =>
      cases h
      exact .inl (Reader.stopsAt_sum.refusal hread)
    · split at h <;> cases h
      exact .inr (.inl ⟨_, rfl, .inr rfl⟩)
    · next value source' y after hread =>
      cases h
      obtain ⟨before, source, x, hlexemes⟩ := Reader.stopsAt_sum.number hread
      exact .inr (.inr ⟨before, source, x, source', y, after, rfl, hlexemes⟩)
    · next hread => exact absurd (Reader.stopsAt_sum.operator hread) Bool.false_ne_true

/-- Of the reports of the reducer only one is about a lexeme that is left over, and the number
that it names has no sign. None is in the words of another reducer. -/
theorem reduce_leftover {named : String} {reason : Malformation}
    (h : reduce text = .error (.malformedExpression named reason)) :
    (∀ op, reason ≠ .unexpectedOperator op) ∧ (∀ n, reason = .missingOperator n → n.Unsigned) ∧
      ∀ words, reason ≠ .other words := by
  cases hlex : Lexeme.lex text.toList with
  | error fault =>
    rw [reduce_of_lex_error hlex] at h
    cases h
    rcases Lexeme.lexFrom_error hlex with ⟨source, rfl⟩ | rfl | ⟨c, rfl⟩ <;> simp
  | ok lexemes =>
    rw [reduce_of_lex hlex] at h
    rcases reduceLexemes_error h with hrefusal | ⟨reason, hreason, rfl | rfl⟩ |
      ⟨before, source, x, source', y, after, hreason, rfl⟩
    · cases hrefusal <;> simp
    · cases hreason
      simp
    · cases hreason
      simp
    · cases hreason
      have hnumber := (lexFrom_sound hlex).1 (.number source' y) (by simp)
      have hunsigned := Lexeme.unsigned_of_point hnumber (Lexeme.point_of_neighbours hlex)
      refine ⟨nofun, fun n hn => ?_, nofun⟩
      cases hn
      exact hunsigned

end Reports

/-! ## Scanning loses nothing -/

namespace Scanner

open Text

/-- What the scan finds in a text, if there is no fault in it. -/
theorem sound_of_lexemes? {text : String} {lexemes : List Lexeme}
    (h : lexemes? text = some (.ok lexemes)) : lexemes.length ≤ text.utf8ByteSize ∧
      String.ofList (lexemes.flatMap Lexeme.source) = text ∧
      ∀ source x source' y, [.number source x, .number source' y] <:+: lexemes →
        source'.head? = some '.' := by
  have hlex : Lexeme.lex text.toList = .ok lexemes := Option.some.inj (lexemes?_eq text ▸ h)
  refine ⟨length_lexemesFrom? h, ?_, ?_⟩
  · rw [(lexFrom_sound hlex).2, String.ofList_toList]
  · rintro source x source' y ⟨before, after, rfl⟩
    rw [List.append_assoc] at hlex
    exact Lexeme.point_of_neighbours hlex

/-- **Scanning and reading of any text**: the scan comes to an end, and the sources of the
lexemes are the text. Of two numbers in a row the second starts with a point. A scanner that
is come to is within the text, and so is every place up to the end of a numeral there; all of
them are between two characters, so both slices from the cursor exist. Before the end there is
something to find, the scanner goes on with it, and what it goes over is the source of the
lexeme. Behind a sum that is read there is no operator; so an operator is never left over, and
a number that is left over has no sign. -/
theorem scan_lossless (text : String) :
    (∃ outcome, lexemes? text = some outcome ∧ ∀ lexemes, outcome = .ok lexemes →
      lexemes.length ≤ text.utf8ByteSize ∧
      String.ofList (lexemes.flatMap Lexeme.source) = text ∧
      ∀ source x source' y, [.number source x, .number source' y] <:+: lexemes →
        source'.head? = some '.') ∧
    (∀ scanner, Reached text scanner →
      scanner.cursor ≤ text.utf8ByteSize ∧
      (∀ place, scanner.cursor ≤ place → place ≤ Skip.numeral text scanner.cursor →
        String.Pos.Raw.IsValid text ⟨place⟩) ∧
      (∃ numeral, slice? text scanner.cursor (Skip.numeral text scanner.cursor) = some numeral) ∧
      (∃ rest, slice? text scanner.cursor text.utf8ByteSize = some rest) ∧
      (scanner.cursor < text.utf8ByteSize → ∃ found scanner',
        scanner.next? text = some (found, scanner') ∧ scanner.cursor < scanner'.cursor ∧
        ∀ lexeme, found = .ok lexeme →
          slice? text scanner.cursor scanner'.cursor = some (String.ofList lexeme.source))) ∧
    (∀ lexemes value op rest,
      (Reader.sum text).read lexemes ≠ .ok (value, .operator op :: rest)) ∧
    (∀ named op, reduce text ≠ .error (.malformedExpression named (.unexpectedOperator op))) ∧
    ∀ named n, reduce text = .error (.malformedExpression named (.missingOperator n)) →
      n.Unsigned := by
  refine ⟨⟨_, lexemes?_eq text, fun lexemes hlexemes => ?_⟩, fun scanner hscanner => ?_, ?_, ?_, ?_⟩
  · exact sound_of_lexemes? ((lexemes?_eq text).trans (congrArg some hlexemes))
  · refine ⟨hscanner.le_utf8ByteSize, fun place => hscanner.isValid_numeral,
      hscanner.exists_slice_numeral, hscanner.exists_slice_rest, fun hcursor => ?_⟩
    obtain ⟨found, scanner', hnext⟩ := hscanner.exists_next hcursor
    refine ⟨found, scanner', hnext, cursor_lt_of_next? hcursor hnext, ?_⟩
    rintro lexeme rfl
    exact hscanner.slice? hcursor hnext
  · intro lexemes value op rest hread
    exact Bool.false_ne_true (Reader.stopsAt_sum.operator hread)
  · intro named op hreduce
    exact (reduce_leftover hreduce).1 op rfl
  · intro named n hreduce
    exact (reduce_leftover hreduce).2.1 n rfl

/-- Behind the first number of `2.5.5` the scanner is in front of a second one, and an operator
is missing there. -/
theorem scan_lossless_adjacent :
    (Reached "2.5.5" ⟨3, true⟩ ∧ slice? "2.5.5" 3 5 = some ".5") ∧
    reduce "2.5.5" =
      .error (.malformedExpression "2.5.5" (.missingOperator (.ofNat 1 / .ofNat 2))) ∧
    (Binary64.ofNat 1 / .ofNat 2).Unsigned := by
  have hfirst : next? "2.5.5" first =
      some (.ok (.number ['2', '.', '5'] (.ofNat 5 / .ofNat 2)), ⟨3, true⟩) := by
    decide +kernel
  have hsecond : next? "2.5.5" ⟨3, true⟩ =
      some (.ok (.number ['.', '5'] (.ofNat 1 / .ofNat 2)), ⟨5, true⟩) := by
    decide +kernel
  have hreduce : reduce "2.5.5" =
      .error (.malformedExpression "2.5.5" (.missingOperator (.ofNat 1 / .ofNat 2))) := by
    decide +kernel
  have hreached : Reached "2.5.5" ⟨3, true⟩ := .next .first (by decide) hfirst
  obtain ⟨-, hscanner, -, -, hmissing⟩ := scan_lossless "2.5.5"
  obtain ⟨-, -, -, -, hnext⟩ := hscanner _ hreached
  obtain ⟨found, scanner', hfound, -, hslice⟩ := hnext (by decide)
  cases hsecond.symm.trans hfound
  exact ⟨⟨hreached, hslice _ rfl⟩, hreduce, hmissing _ _ hreduce⟩

end Scanner
end ArithScript
