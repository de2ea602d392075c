import ArithScript.Proofs.Reports

/-!
# Sources with one statement

On a source with one statement, evaluating it and running it as a script print the same.
Evaluating tells by the stage that failed which exit code to take, and running by the error.
The parser fails with syntactic errors only, so the two agree wherever it is the parser that
fails; they differ on a list with a stray comma, which is parsed and then refused by the
store with a syntactic error (`Command.start_evaluate_run`).
-/

namespace ArithScript.Command

variable {store : Store} {source : String} {statement : Statement}

/-! ## Running one statement -/

theorem runSource_of_single (hone : Script.statements source = [statement]) :
    let results : Numbered Value :=
      [(statement.number, (evaluateStatement reduce store statement.text).1)]
    runSource store source = ⟨exitCode (errors results),
      String.join (outputLines Value.render results), String.join (failureLines results)⟩ := by
  rw [runSource, Script.run, hone]
  simp only [Script.runStatements, List.map_cons, List.map_nil]

theorem runSource_of_ok (hone : Script.statements source = [statement]) {value : Value}
    (h : (evaluateStatement reduce store statement.text).1 = .ok value) :
    runSource store source = ⟨0, value.render ++ "\n", ""⟩ := by
  rw [runSource_of_single hone, h]
  simp [errors, exitCode, outputLines, failureLines]

theorem runSource_of_error (hone : Script.statements source = [statement]) {e : Error}
    (h : (evaluateStatement reduce store statement.text).1 = .error e) :
    runSource store source = ⟨if e.isSyntactic then syntaxCode else evaluationCode, "",
      failureLine statement.number e⟩ := by
  rw [runSource_of_single hone, h]
  simp [errors, exitCode, outputLines, failureLines, worsen]

/-! ## Evaluating one statement -/

section Evaluating

variable {line : Line} (hone : Script.statements source = [statement])
include hone

theorem evaluateSource_of_unparsed {e : Error} (hparse : Line.parse statement.text = .error e) :
    evaluateSource store source = ⟨syntaxCode, "", failureLine statement.number e⟩ := by
  rw [evaluateSource, hone]
  dsimp only
  rw [hparse]

theorem evaluateSource_of_error (hparse : Line.parse statement.text = .ok line) {e : Error}
    (h : (line.evaluate reduce store).result = .error e) :
    evaluateSource store source = ⟨evaluationCode, "", failureLine statement.number e⟩ := by
  rw [evaluateSource, hone]
  dsimp only
  rw [hparse]
  dsimp only
  rw [h]

theorem evaluateSource_of_ok (hparse : Line.parse statement.text = .ok line) {value : Value}
    (h : (line.evaluate reduce store).result = .ok value) :
    evaluateSource store source = ⟨0, value.render ++ "\n", ""⟩ := by
  rw [evaluateSource, hone]
  dsimp only
  rw [hparse]
  dsimp only
  rw [h]

end Evaluating

/-! ## The two reports -/

/-- **Evaluating and running agree on one statement**: with the same options, and whatever
blank lines and comments are around the statement, both print the same. Evaluating exits with
65 just where the parser fails, with 70 where the evaluation fails, and with 0 otherwise.
Running exits with the same code, except that a list with a stray comma, which is parsed and
not registered, makes it exit with 65. -/
theorem start_evaluate_run {builtins : Bool} {definitions : List String} {bytes : List UInt8}
    (hstore : initialStore builtins definitions = .ok store)
    (hsource : Text.Utf8.decode bytes = .ok source)
    (hone : Script.statements source = [statement]) :
    let evaluating := Command.evaluate.start builtins definitions (.ok bytes)
    let running := Command.run.start builtins definitions (.ok bytes)
    running.output = evaluating.output ∧ running.errors = evaluating.errors ∧
      (evaluating.code = 65 ↔ Unparsed statement.text) ∧
      (evaluating.code = 70 ↔ ∃ line e, Line.parse statement.text = .ok line ∧
        (line.evaluate reduce store).result = .error e) ∧
      (evaluating.code = 0 ↔ ∃ line value, Line.parse statement.text = .ok line ∧
        (line.evaluate reduce store).result = .ok value) ∧
      (¬ ListsStrayComma statement.text → running.code = evaluating.code) ∧
      (ListsStrayComma statement.text → running.code = 65 ∧ evaluating.code = 70) := by
  intro evaluating running
  have hevaluating : evaluating = evaluateSource store source :=
    start_eq_perform .evaluate hstore hsource
  have hrunning : running = runSource store source := start_eq_perform .run hstore hsource
  have hsyntactic := evaluateStatement_syntactic_iff (initialStore_wellFormed hstore) statement.text
  rw [hevaluating, hrunning]
  cases hparse : Line.parse statement.text with
  | error e =>
    have hresult : (evaluateStatement reduce store statement.text).1 = .error e :=
      evaluateStatement_of_unparsed hparse
    have he : e.isSyntactic = true := by
      rcases Line.parse_fails hparse with ⟨token, rfl⟩ | ⟨body, rfl⟩ <;> rfl
    have hlist : ¬ ListsStrayComma statement.text := by
      rintro ⟨line, -, -, hline, -⟩
      cases hparse.symm.trans hline
    rw [evaluateSource_of_unparsed hone hparse, runSource_of_error hone hresult, if_pos he]
    simp [Unparsed, hparse, hlist, syntaxCode]
  | ok line =>
    have hstage : (evaluateStatement reduce store statement.text).1 =
        (line.evaluate reduce store).result := evaluateStatement_of_parsed hparse
    have hparsed : ¬ Unparsed statement.text := by
      rintro ⟨e, he⟩
      cases hparse.symm.trans he
    rw [hstage, or_iff_right hparsed] at hsyntactic
    cases hresult : (line.evaluate reduce store).result with
    | ok value =>
      have hlist : ¬ ListsStrayComma statement.text := by
        rw [← hsyntactic, hresult]
        simp
      rw [evaluateSource_of_ok hone hparse hresult, runSource_of_ok hone (hstage.trans hresult)]
      simp [hparsed, hlist, hresult]
    | error e =>
      have hlist : ListsStrayComma statement.text ↔ e.isSyntactic = true := by
        rw [← hsyntactic, hresult]
        simp
      rw [evaluateSource_of_error hone hparse hresult,
        runSource_of_error hone (hstage.trans hresult)]
      simp [hparsed, hlist, hresult, syntaxCode, evaluationCode]

/-- A division by zero between a comment and blank lines. -/
theorem start_evaluate_run_division :
    let bytes := "\n// a comment\n $R / 0\r\n\n".toList.map fun c => UInt8.ofNat c.toNat
    let evaluating := Command.evaluate.start false ["$R = 3"] (.ok bytes)
    let running := Command.run.start false ["$R = 3"] (.ok bytes)
    running.output = evaluating.output ∧ running.errors = evaluating.errors ∧
      running.code = evaluating.code ∧ evaluating.code = 70 ∧
      evaluating.errors = "[line 3] Error: Division by zero\n" := by
  intro bytes evaluating running
  have hsource : Text.Utf8.decode bytes = .ok "\n// a comment\n $R / 0\r\n\n" :=
    eq_ok_of_toOption (by decide +kernel)
  have hone : Script.statements "\n// a comment\n $R / 0\r\n\n" = [⟨3, " $R / 0"⟩] := by
    decide +kernel
  have hdefined : (initialStore false ["$R = 3"]).toOption.isSome = true := by decide +kernel
  obtain ⟨store, hstore⟩ := Option.isSome_iff_exists.mp hdefined
  obtain ⟨houtput, herrors, -, -, -, hcode, -⟩ :=
    start_evaluate_run (eq_ok_of_toOption hstore) hsource hone
  let line : Line :=
    ⟨.plain [.scalar ⟨"$R", none⟩, .operator "/", .number (.zero false)], false⟩
  have hparse : Line.parse " $R / 0" = .ok line := eq_ok_of_toOption (by decide +kernel)
  have hlist : ¬ ListsStrayComma " $R / 0" := by
    rintro ⟨line', target, payload, hline, hform, -⟩
    cases hparse.symm.trans hline
    cases hform
  exact ⟨houtput, herrors, hcode hlist, by decide +kernel, by decide +kernel⟩

/-- A list with a stray comma is parsed, and yet running takes it for badly written. -/
theorem start_evaluate_run_list : ¬ ∀ (builtins : Bool) (definitions : List String)
    (bytes : List UInt8) (store : Store) (source : String) (statement : Statement),
      initialStore builtins definitions = .ok store → Text.Utf8.decode bytes = .ok source →
      Script.statements source = [statement] →
      (Command.run.start builtins definitions (.ok bytes)).code =
        (Command.evaluate.start builtins definitions (.ok bytes)).code := by
  intro h
  let bytes := "@A=[ 1,,2 ]".toList.map fun c => UInt8.ofNat c.toNat
  have hsource : Text.Utf8.decode bytes = .ok "@A=[ 1,,2 ]" :=
    eq_ok_of_toOption (by decide +kernel)
  have hone : Script.statements "@A=[ 1,,2 ]" = [⟨1, "@A=[ 1,,2 ]"⟩] := by decide +kernel
  have hcodes := h true [] bytes .withBuiltins _ _ rfl hsource hone
  have hrunning : (Command.run.start true [] (.ok bytes)).code = 65 := by decide +kernel
  have hevaluating : (Command.evaluate.start true [] (.ok bytes)).code = 70 := by decide +kernel
  rw [hrunning, hevaluating] at hcodes
  cases hcodes

end ArithScript.Command
