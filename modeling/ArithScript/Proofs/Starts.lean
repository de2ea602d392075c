import ArithScript.Proofs.Reports

/-!
# Before a command is begun

A run reads its source with effects. They take place behind good definitions alone, and the
report is the one of the source that was read (`Command.startWith_of_ok`,
`Command.startWith_of_error`), so what is proved of a source at hand holds of every run. The exit
code tells the two parts of a run apart: it is 1 just where the command is not begun
(`Command.start_code_eq_one_iff`).
-/

namespace ArithScript

/-! ## Reading with effects -/

namespace Command

variable {m : Type → Type} [Applicative m] {command : Command} {builtins : Bool}
  {definitions : List String} {store : Store} {source : Except StartError (List UInt8)}

/-- Behind good definitions the source is read once, and the report is the one of what is read. -/
theorem startWith_of_ok (hstore : initialStore builtins definitions = .ok store)
    (read : m (Except StartError (List UInt8))) :
    command.startWith builtins definitions read =
      command.start builtins definitions <$> read := by
  have hstart : command.start builtins definitions = command.onBytes store :=
    funext (start_of_ok command hstore)
  rw [hstart, startWith, hstore]

/-- Behind a bad definition nothing is read, and the report is the one of every source. -/
theorem startWith_of_error {e : StartError}
    (hstore : initialStore builtins definitions = .error e)
    (read : m (Except StartError (List UInt8))) :
    command.startWith builtins definitions read =
      pure (command.start builtins definitions source) := by
  rw [start_of_error command hstore, startWith, hstore]

/-! ## Exit codes -/

theorem perform_code_cases (command : Command) (store : Store) (source : String) :
    (command.perform store source).code = 0 ∨
      (command.perform store source).code = syntaxCode ∨
      (command.perform store source).code = evaluationCode := by
  cases command with
  | run => exact exitCode_cases _
  | evaluate =>
    rw [perform, evaluateSource]
    split
    · exact .inl rfl
    split
    · exact .inr (.inl rfl)
    split
    · exact .inr (.inr rfl)
    · exact .inl rfl
  | tokenize json =>
    rw [perform, tokenizeSource]
    dsimp only
    split
    · exact .inl rfl
    · exact .inr (.inl rfl)

theorem perform_code_ne_one (command : Command) (store : Store) (source : String) :
    (command.perform store source).code ≠ 1 := by
  have hcases := command.perform_code_cases store source
  simp only [syntaxCode, evaluationCode] at hcases
  omega

/-- **The exit code is 1 just where the command is not begun**: a definition is bad, the source
cannot be read, or it is not UTF-8. -/
theorem start_code_eq_one_iff : (command.start builtins definitions source).code = 1 ↔
    (∃ e, initialStore builtins definitions = .error e) ∨ (∃ e, source = .error e) ∨
      ∃ bytes fault, source = .ok bytes ∧ Text.Utf8.decode bytes = .error fault := by
  cases hstore : initialStore builtins definitions with
  | error e =>
    rw [start_of_error command hstore]
    exact iff_of_true rfl (.inl ⟨e, rfl⟩)
  | ok store =>
    rw [start_of_ok command hstore]
    cases source with
    | error e => exact iff_of_true rfl (.inr (.inl ⟨e, rfl⟩))
    | ok bytes =>
      rw [onBytes]
      cases hdecode : Text.Utf8.decode bytes with
      | error fault => exact iff_of_true rfl (.inr (.inr ⟨bytes, fault, rfl, hdecode⟩))
      | ok text => simp [hdecode, perform_code_ne_one]

end Command

end ArithScript
