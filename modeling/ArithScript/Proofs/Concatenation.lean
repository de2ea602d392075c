import ArithScript.Proofs.LineOffsets
import ArithScript.Proofs.Sessions

/-!
# Scripts in a row

A script may be cut at any line break. The part behind the cut is a script of its own,
which starts in the store that the part before it left, and only the numbers of its lines
are different: they go on from where the first part ends (`Script.run_append_lines`).
-/

namespace ArithScript

/-- The statement, a number of lines further down. -/
def Statement.shift (lines : Nat) (statement : Statement) : Statement :=
  { statement with number := statement.number + lines }

/-- The outcome of the statement, a number of lines further down. -/
def Outcome.shift (lines : Nat) (outcome : Outcome) : Outcome :=
  { outcome with statement := outcome.statement.shift lines }

namespace Script

/-- The lines of a source: one more than it has line breaks. -/
def lineCount (source : String) : Nat := 1 + source.toList.count '\n'

/-! ## Statements -/

theorem numberedLines_append (first second : String) :
    numberedLines (first ++ "\n" ++ second) =
      numberedLines first ++ (numberedLines second).map (Statement.shift (lineCount first)) := by
  have hlines : 1 + (Text.pieces '\n' first).length = lineCount first + 1 := by
    rw [Text.length_pieces, lineCount]
    omega
  have hpieces : Text.pieces '\n' (first ++ "\n" ++ second) =
      Text.pieces '\n' first ++ Text.pieces '\n' second := Text.pieces_append '\n' first second
  rw [numberedLines, hpieces, List.zipIdx_append, List.map_append, hlines,
    ← List.map_snd_add_zipIdx_eq_zipIdx, List.map_map, numberedLines, numberedLines, List.map_map]
  simp only [Function.comp_def, Prod.map, Statement.shift, id]

/-- Whether a line holds a statement does not depend on its number. -/
theorem statements_append (first second : String) :
    statements (first ++ "\n" ++ second) =
      statements first ++ (statements second).map (Statement.shift (lineCount first)) := by
  rw [statements_eq, numberedLines_append, List.filter_append, List.filter_map, statements_eq,
    statements_eq]
  simp only [Function.comp_def, Statement.shift]

/-! ## Runs -/

variable {reducer : Reducer} {store : Store}

theorem runStatements_append (first second : List Statement) :
    runStatements reducer store (first ++ second) =
      ((runStatements reducer store first).1 ++
          (runStatements reducer (runStatements reducer store first).2 second).1,
        (runStatements reducer (runStatements reducer store first).2 second).2) := by
  induction first generalizing store with
  | nil => rfl
  | cons statement rest ih => rw [List.cons_append, runStatements_cons, ih, runStatements_cons]; rfl

/-- The numbers of the statements play no part in a run. -/
theorem runStatements_shift (lines : Nat) (statements : List Statement) :
    runStatements reducer store (statements.map (Statement.shift lines)) =
      ((runStatements reducer store statements).1.map (Outcome.shift lines),
        (runStatements reducer store statements).2) := by
  induction statements generalizing store with
  | nil => rfl
  | cons statement rest ih =>
    rw [List.map_cons, runStatements_cons, runStatements_cons, ih, List.map_cons, Outcome.shift,
      Statement.shift]

/-- **Scripts in a row**: a script that is two scripts with a line break between them
comes to what the first comes to, and then the second in the store that the first left,
with its lines counted on. -/
theorem run_append_lines (reducer : Reducer) (store : Store) (first second : String) :
    let earlier := run reducer store first
    let later := run reducer earlier.2 second
    run reducer store (first ++ "\n" ++ second) =
      (earlier.1 ++ later.1.map (Outcome.shift (1 + first.toList.count '\n')), later.2) := by
  intro earlier later
  rw [run, statements_append, runStatements_append, runStatements_shift]
  rfl

end Script

end ArithScript
