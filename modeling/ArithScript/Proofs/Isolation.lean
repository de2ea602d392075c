import Mathlib.Data.List.Infix
import Mathlib.Data.List.TakeWhile
import ArithScript.Proofs.LineOffsets
import ArithScript.Proofs.Sessions

/-!
# Statements without effect

A statement that fails, and one that registers nothing, leaves the store as it
was, so no other statement of a script can tell whether it was there. Its line can
be blanked out (`Script.blankOut`): the lines around it keep their numbers and
texts, all other outcomes are the same, and so is the store at the end
(`Script.run_blankOut`).
-/

namespace ArithScript

/-! ## Blank lines -/

/-- The text of a line that has nothing but blanks in it. -/
structure Text.BlankLine where
  text : String
  isBlank : ∀ c ∈ text.toList, Text.isBlank c = true
  oneLine : '\n' ∉ text.toList

theorem Text.trim_eq_empty {text : String} (h : ∀ c ∈ text.toList, isBlank c = true) :
    trim text = "" := by
  rw [trim, trimStart, List.dropWhile_eq_nil_iff.mpr h]
  rfl

namespace Script

theorem isStatement_blankLine (blank : Text.BlankLine) :
    isStatement (dropReturn blank.text) = false := by
  have htrim : Text.trim (dropReturn blank.text) = "" :=
    Text.trim_eq_empty fun c hc => blank.isBlank c (mem_of_mem_dropReturn hc)
  rw [isStatement, htrim]
  rfl

/-! ## Lines that are blanked out -/

/-- The line as it is, or the blank line for its number. -/
def lineOr (blanks : Nat → Option Text.BlankLine) (line : String) (number : Nat) : String :=
  (blanks number).elim line Text.BlankLine.text

/-- The source with blank lines in place of those lines for whose numbers there is
one. -/
def blankOut (blanks : Nat → Option Text.BlankLine) (source : String) : String :=
  "\n".intercalate (((Text.pieces '\n' source).zipIdx 1).map fun (line, number) =>
    lineOr blanks line number)

variable (blanks : Nat → Option Text.BlankLine)

theorem oneLine_lineOr {line : String} (hline : '\n' ∉ line.toList) (number : Nat) :
    '\n' ∉ (lineOr blanks line number).toList := by
  unfold lineOr
  cases blanks number with
  | none => exact hline
  | some blank => exact blank.oneLine

theorem pieces_blankOut (source : String) : Text.pieces '\n' (blankOut blanks source) =
    ((Text.pieces '\n' source).zipIdx 1).map fun (line, number) => lineOr blanks line number := by
  obtain ⟨hne, hlines, -⟩ := Text.pieces_eq_iff.mp (rfl : Text.pieces '\n' source = _)
  refine Text.pieces_eq_iff.mpr ⟨?_, ?_, ?_⟩
  · simpa using hne
  · intro line hline
    obtain ⟨⟨old, number⟩, hold, rfl⟩ := List.mem_map.mp hline
    exact oneLine_lineOr blanks (hlines old (List.fst_mem_of_mem_zipIdx hold)) number
  · rw [blankOut, String.toList_intercalate]
    rfl

theorem zipIdx_zipIdx {α : Type} (xs : List α) (k : Nat) :
    (xs.zipIdx k).zipIdx k = (xs.zipIdx k).map fun x => (x, x.2) := by
  induction xs generalizing k with
  | nil => rfl
  | cons x xs ih => simp [ih]

/-- Blanking out changes no number. -/
theorem numberedLines_blankOut (source : String) : numberedLines (blankOut blanks source) =
    ((Text.pieces '\n' source).zipIdx 1).map fun (line, number) =>
      ⟨number, dropReturn (lineOr blanks line number)⟩ := by
  rw [numberedLines, pieces_blankOut, List.zipIdx_map, zipIdx_zipIdx, List.map_map, List.map_map]
  rfl

/-- A blank line holds no statement, and any other line holds the one it held. -/
theorem isStatement_lineOr (line : String) (number : Nat) :
    isStatement (dropReturn (lineOr blanks line number)) =
      ((blanks number).isNone && isStatement (dropReturn line)) := by
  unfold lineOr
  cases blanks number with
  | none => rw [Option.elim_none, Option.isNone_none, Bool.true_and]
  | some blank => rw [Option.elim_some, Option.isNone_some, Bool.false_and, isStatement_blankLine]

/-- The statements that are left are the ones whose lines are not blanked out. -/
theorem statements_blankOut (source : String) : statements (blankOut blanks source) =
    (statements source).filter fun statement => (blanks statement.number).isNone := by
  rw [statements_eq, numberedLines_blankOut, statements_eq, numberedLines]
  simp only [List.filter_map, Function.comp_def, isStatement_lineOr, List.filter_filter]
  refine List.map_congr_left fun line hline => ?_
  have hkept := (List.mem_filter.mp hline).2
  rw [Bool.and_eq_true, Option.isNone_iff_eq_none] at hkept
  simp only [lineOr, hkept.1, Option.elim_none]

end Script

/-! ## Statements that leave the store alone -/

/-- The statement failed, or it is one that registers nothing: a plain expression or a
call. -/
def Outcome.Inert (outcome : Outcome) : Prop :=
  (∃ error, outcome.result = .error error) ∨ assignedBy outcome.statement.text = none

variable {reducer : Reducer} {store : Store}

theorem evaluateStatement_inert {statement : Statement}
    (h : Outcome.Inert ⟨statement, (evaluateStatement reducer store statement.text).1⟩) :
    (evaluateStatement reducer store statement.text).2 = store := by
  unfold Outcome.Inert at h
  unfold evaluateStatement at h ⊢
  cases hparse : Line.parse statement.text with
  | error e => rfl
  | ok line =>
    rw [hparse, assignedBy_eq hparse] at h
    dsimp only at h ⊢
    rw [(Line.evaluate_store_eq (Line.parse_wellFormed hparse).target).1,
      Form.added_eq_none h.symm]
    rfl

namespace Script

/-- Statements that are inert can be left out of a run. -/
theorem runStatements_filter {statements : List Statement} {keeps : Statement → Bool}
    (h : ∀ outcome ∈ (runStatements reducer store statements).1,
      keeps outcome.statement = false → outcome.Inert) :
    runStatements reducer store (statements.filter keeps) =
      ((runStatements reducer store statements).1.filter fun outcome => keeps outcome.statement,
        (runStatements reducer store statements).2) := by
  induction statements generalizing store with
  | nil => rfl
  | cons statement rest ih =>
    rw [runStatements_cons] at h ⊢
    dsimp only at h ⊢
    obtain ⟨hfirst, hrest⟩ := List.forall_mem_cons.mp h
    cases hkeeps : keeps statement with
    | true =>
      simp only [List.filter_cons, hkeeps, ↓reduceIte]
      rw [runStatements_cons, ih hrest]
    | false =>
      have hstore := evaluateStatement_inert (hfirst hkeeps)
      simp only [List.filter_cons, hkeeps, Bool.false_eq_true, ↓reduceIte]
      rw [hstore] at hrest ⊢
      exact ih hrest

/-- **Failures are isolated**: when lines of statements that failed or register nothing
are blanked out, all other statements come to the same, under the same numbers, and
the store at the end is the same. -/
theorem run_blankOut {blanks : Nat → Option Text.BlankLine} {source : String}
    (h : ∀ outcome ∈ (run reducer store source).1,
      (blanks outcome.statement.number).isSome = true → outcome.Inert) :
    run reducer store (blankOut blanks source) =
      ((run reducer store source).1.filter fun outcome =>
        (blanks outcome.statement.number).isNone, (run reducer store source).2) := by
  unfold run at h ⊢
  rw [statements_blankOut]
  refine runStatements_filter fun outcome hmem hblank => h outcome hmem ?_
  rw [← Option.not_isNone, hblank]
  rfl

/-- A division by zero, a name that is taken and a plain expression between two
assignments. -/
theorem run_blankOut_failures :
    let source := "$X=( 2 )\n1 / 0\n$X=( 3 )\n$X * 4\r\n$Y=( $X )"
    let blanks : Nat → Option Text.BlankLine := fun number =>
      if 2 ≤ number ∧ number ≤ 4 then some ⟨" ", List.forall_mem_singleton.mpr rfl, by decide⟩
      else none
    blankOut blanks source = "$X=( 2 )\n \n \n \n$Y=( $X )" ∧
      run reduce .empty (blankOut blanks source) =
        ((run reduce .empty source).1.filter fun outcome =>
          (blanks outcome.statement.number).isNone, (run reduce .empty source).2) ∧
      (run reduce .empty (blankOut blanks source)).1.map (fun outcome => outcome.statement) =
        [⟨1, "$X=( 2 )"⟩, ⟨5, "$Y=( $X )"⟩] := by
  intro source blanks
  have hinert : (run reduce .empty source).1.all fun outcome =>
      (blanks outcome.statement.number).isNone || outcome.result.toOption.isNone ||
        (assignedBy outcome.statement.text).isNone := by decide +kernel
  refine ⟨by decide +kernel, run_blankOut fun outcome hmem hblank => ?_, by decide +kernel⟩
  have hcases := List.all_eq_true.mp hinert outcome hmem
  rw [Bool.or_eq_true, Bool.or_eq_true] at hcases
  rcases hcases with (hnone | hfailed) | hassigned
  · rw [← Option.not_isSome, hblank] at hnone
    cases hnone
  · cases hresult : outcome.result with
    | error e => exact .inl ⟨e, hresult⟩
    | ok value =>
      rw [hresult] at hfailed
      cases hfailed
  · exact .inr (Option.isNone_iff_eq_none.mp hassigned)

end Script

end ArithScript
