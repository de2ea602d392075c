import ArithScript.Evaluation
import ArithScript.Proofs.Rounding
import ArithScript.Proofs.Statements

/-!
# Lines in use

A line starts as a parsed statement, and from then on only resolution and
evaluation touch it (`Line.Reachable`). Two facts hold of it all the time
(`Line.WellFormed`): its target has the shape that its form asks for, and its
symbols are in phase with it, which means that literals are finite numbers
without a sign and that either all references have a value or none has.
-/

namespace ArithScript

/-! ## Symbols in phase -/

/-- What a symbol may be in a line that is resolved, or that is not: references
have a value in the one and no value in the other. -/
def Symbol.InPhase (resolved : Bool) : Symbol → Prop
  | .number x => ∃ m, x = .finite false m
  | .operator _ => True
  | .scalar r | .element r => r.value.isSome = resolved

theorem Decimal.toBinary64_unsigned {d : Decimal} (h : (d.toBinary64 false).isFinite = true) :
    ∃ m, d.toBinary64 false = .finite false m := by
  have hsign := d.toBinary64_sign false
  cases hx : d.toBinary64 false with
  | finite negative m =>
    rw [hx] at hsign
    exact ⟨m, hsign⟩
  | nan | infinite _ =>
    rw [hx] at h
    cases h

namespace Symbol

theorem literal?_unsigned {token : List Char} {x : Binary64} (h : literal? token = some x) :
    ∃ m, x = .finite false m := by
  unfold literal? at h
  split at h
  · obtain ⟨hread, hfinite⟩ := Option.filter_eq_some_iff.mp h
    obtain ⟨d, -, rfl⟩ := Option.map_eq_some_iff.mp hread
    exact Decimal.toBinary64_unsigned hfinite
  · cases h

theorem classify_inPhase {token : String} {s : Symbol} (h : classify token = .ok s) :
    s.InPhase false := by
  cases classified h with
  | scalar | element => rfl
  | operator => trivial
  | number literal => exact literal?_unsigned literal

/-- Resolution gives a reference the value of its name and leaves other symbols
alone. -/
theorem resolve_cases {store : Store} {s s' : Symbol} (h : s.resolve store = .ok s') :
    (s.reference? = none ∧ s' = s) ∨ ∃ r value, store.value r.name = .ok value ∧
      ((s = .scalar r ∧ s' = .scalar ⟨r.name, some value⟩) ∨
        (s = .element r ∧ s' = .element ⟨r.name, some value⟩)) := by
  cases s with
  | number x =>
    cases h
    exact .inl ⟨rfl, rfl⟩
  | operator token =>
    cases h
    exact .inl ⟨rfl, rfl⟩
  | scalar r =>
    obtain ⟨value, hvalue, hs'⟩ := map_eq_ok.mp h
    exact .inr ⟨r, value, hvalue, .inl ⟨rfl, hs'.symm⟩⟩
  | element r =>
    obtain ⟨value, hvalue, hs'⟩ := map_eq_ok.mp h
    exact .inr ⟨r, value, hvalue, .inr ⟨rfl, hs'.symm⟩⟩

theorem resolve_inPhase {store : Store} {s s' : Symbol} (hs : s.InPhase false)
    (h : s.resolve store = .ok s') : s'.InPhase true := by
  rcases resolve_cases h with ⟨hnone, rfl⟩ | ⟨r, value, -, ⟨-, rfl⟩ | ⟨-, rfl⟩⟩
  · cases s' with
    | number x => exact hs
    | operator token => trivial
    | scalar r => cases hnone
    | element r => cases hnone
  · rfl
  · rfl

end Symbol

/-! ## Targets -/

/-- The target has the shape that the form asks for. -/
def Form.TargetFits : Form → Prop
  | .plain _ => True
  | .scalarAssign target _ => Name.shape? target = some .scalar
  | .arrayAssign target _ => Name.shape? target = some .array
  | .call target _ => Name.shape? target = some .function

namespace Line

/-! ## Well-formed lines -/

/-- What holds of a line from its parsing on. -/
structure WellFormed (line : Line) : Prop where
  target : line.form.TargetFits
  symbols : ∀ s ∈ line.form.symbols, s.InPhase line.resolved

theorem Derives.wellFormed {statement : String} {form : Form} (h : Derives statement form) :
    WellFormed ⟨form, false⟩ := by
  refine ⟨?_, fun s hs => ?_⟩
  · cases h with
    | @scalarAssign name => exact Name.shape?_of_hasShape (.scalar name)
    | @arrayAssign name => exact Name.shape?_of_hasShape (.array name)
    | @call name => exact Name.shape?_of_hasShape (.function name)
    | plain => trivial
  · obtain ⟨token, htoken⟩ := h.exists_token hs
    exact Symbol.classify_inPhase htoken

theorem parse_wellFormed {statement : String} {line : Line} (h : parse statement = .ok line) :
    line.WellFormed := by
  obtain ⟨form, resolved⟩ := line
  obtain ⟨rfl, hderives⟩ := parse_eq_ok_iff.mp h
  exact hderives.wellFormed

end Line

/-! ## Resolution -/

namespace Form

/-- The form with other symbols, if it has any. -/
def withSymbols (symbols : List Symbol) : Form → Form
  | plain _ => plain symbols
  | scalarAssign target _ => scalarAssign target symbols
  | form => form

theorem withSymbols_targetFits {form : Form} {symbols : List Symbol} (h : form.TargetFits) :
    (form.withSymbols symbols).TargetFits := by
  cases form <;> exact h

theorem withSymbols_symbols {form : Form} {symbols : List Symbol} (h : form.symbols ≠ []) :
    (form.withSymbols symbols).symbols = symbols := by
  cases form with
  | plain | scalarAssign => rfl
  | arrayAssign | call => exact absurd rfl h

theorem payload?_eq_none {form : Form} (h : form.symbols ≠ []) : form.payload? = none := by
  cases form with
  | plain | scalarAssign => rfl
  | arrayAssign | call => exact absurd rfl h

/-- Only the symbols of a form are resolved. -/
theorem resolve_eq (store : Store) (form : Form) :
    form.resolve store = (form.symbols.mapM (Symbol.resolve store)).map form.withSymbols := by
  cases form <;> rfl

theorem resolve_eq_ok {store : Store} {form form' : Form} (h : form.resolve store = .ok form') :
    form.symbols.mapM (Symbol.resolve store) = .ok form'.symbols ∧
      form' = form.withSymbols form'.symbols := by
  rw [resolve_eq] at h
  obtain ⟨symbols, hsymbols, rfl⟩ := map_eq_ok.mp h
  cases form with
  | plain | scalarAssign => exact ⟨hsymbols, rfl⟩
  | arrayAssign | call => exact ⟨rfl, rfl⟩

end Form

namespace Line

theorem resolve_cases {store : Store} {line line' : Line} (h : line.resolve store = .ok line') :
    (line.resolved = true ∧ line' = line) ∨ (line.resolved = false ∧
      ∃ form, line.form.resolve store = .ok form ∧ line' = ⟨form, true⟩) := by
  unfold resolve at h
  cases hresolved : line.resolved with
  | true =>
    rw [hresolved, if_pos rfl] at h
    cases h
    exact .inl ⟨rfl, rfl⟩
  | false =>
    rw [hresolved, if_neg Bool.false_ne_true] at h
    obtain ⟨form, hform, rfl⟩ := map_eq_ok.mp h
    exact .inr ⟨rfl, form, hform, rfl⟩

theorem resolved_of_resolve {store : Store} {line line' : Line}
    (h : line.resolve store = .ok line') : line'.resolved = true := by
  rcases resolve_cases h with ⟨hresolved, rfl⟩ | ⟨-, form, -, rfl⟩
  · exact hresolved
  · rfl

theorem WellFormed.resolve {store : Store} {line line' : Line} (hline : line.WellFormed)
    (h : line.resolve store = .ok line') : line'.WellFormed := by
  rcases resolve_cases h with ⟨-, rfl⟩ | ⟨hresolved, form, hform, rfl⟩
  · exact hline
  · obtain ⟨hsymbols, hshape⟩ := Form.resolve_eq_ok hform
    refine ⟨?_, ?_⟩
    · rw [hshape]
      exact Form.withSymbols_targetFits hline.target
    · intro s' hs'
      obtain ⟨s, hs, hvalue⟩ := exists_of_mem_mapM hsymbols hs'
      have hphase := hline.symbols s hs
      rw [hresolved] at hphase
      exact Symbol.resolve_inPhase hphase hvalue

/-- The text of a resolved expression. -/
theorem evaluationText_of_resolved {line : Line} (hpayload : line.form.payload? = none)
    (h : line.resolved = true) :
    line.evaluationText = .ok (String.join (line.form.symbols.map Symbol.rendered)) := by
  unfold evaluationText
  cases hform : line.form with
  | plain | scalarAssign => exact if_pos h
  | arrayAssign | call =>
    rw [hform] at hpayload
    cases hpayload

/-! ## Uses -/

/-- What can be done with a parsed line. -/
inductive Use where
  | resolve (store : Store)
  | evaluate (reducer : Reducer) (store : Store)

/-- The line after a use; a resolution that fails leaves it as it was. -/
def use (line : Line) : Use → Line
  | .resolve store =>
    match line.resolve store with
    | .ok resolved => resolved
    | .error _ => line
  | .evaluate reducer store => (line.evaluate reducer store).line

theorem resolvedText_line (store : Store) (line : Line) :
    (line.resolvedText store).2 = line.use (.resolve store) := by
  rw [resolvedText, use]
  cases line.resolve store <;> rfl

theorem reduceWith_eq_resolvedText (reducer : Reducer) (store : Store) (line : Line) :
    line.reduceWith reducer store =
      ((line.resolvedText store).1.bind reducer, (line.resolvedText store).2) := by
  unfold reduceWith resolvedText
  cases line.resolve store <;> rfl

/-- Evaluation tries to resolve the line of an expression, whatever comes of it, and leaves
the lines of other forms. -/
theorem evaluate_line_eq (reducer : Reducer) (store : Store) (line : Line) :
    (line.evaluate reducer store).line =
      line.form.payload?.elim (line.use (.resolve store)) fun _ => line := by
  unfold evaluate
  rw [reduceWith_eq_resolvedText, resolvedText_line]
  cases line.form with
  | plain symbols => rfl
  | scalarAssign target symbols =>
    dsimp only
    split <;> rfl
  | arrayAssign target payload =>
    dsimp only
    split <;> rfl
  | call target argument => rfl

theorem use_resolve_cases (store : Store) (line : Line) :
    line.use (.resolve store) = line ∨ line.resolve store = .ok (line.use (.resolve store)) := by
  dsimp only [use]
  cases line.resolve store with
  | error e => exact .inl rfl
  | ok resolved => exact .inr rfl

/-- Evaluation does nothing to a line but to resolve it. -/
theorem evaluate_line (reducer : Reducer) (store : Store) (line : Line) :
    (line.evaluate reducer store).line = line ∨
      line.resolve store = .ok (line.evaluate reducer store).line := by
  rw [evaluate_line_eq]
  cases line.form.payload? with
  | none => exact use_resolve_cases store line
  | some payload => exact .inl rfl

/-- A use does nothing to a line but to resolve it. -/
theorem use_cases (line : Line) (u : Use) :
    line.use u = line ∨ ∃ store, line.resolve store = .ok (line.use u) := by
  cases u with
  | resolve store => exact (use_resolve_cases store line).imp_right fun h => ⟨store, h⟩
  | evaluate reducer store => exact (evaluate_line reducer store line).imp_right fun h => ⟨store, h⟩

/-! ## Reachable lines -/

/-- The lines that there are: parsed statements, and what resolutions and
evaluations make of them, in whatever stores and with whatever reducers. -/
inductive Reachable : Line → Prop
  | parse {statement : String} {line : Line} (h : Line.parse statement = .ok line) : Reachable line
  | resolve {line line' : Line} (store : Store) (hline : Reachable line)
    (h : line.resolve store = .ok line') : Reachable line'
  | evaluate {line : Line} (reducer : Reducer) (store : Store) (hline : Reachable line) :
    Reachable (line.evaluate reducer store).line

theorem Reachable.wellFormed {line : Line} (hline : line.Reachable) : line.WellFormed := by
  induction hline with
  | parse h => exact parse_wellFormed h
  | resolve store _ h ih => exact ih.resolve h
  | @evaluate line reducer store _ ih =>
    rcases evaluate_line reducer store line with h | h
    · rw [h]
      exact ih
    · exact ih.resolve h

/-- The line after the uses, one after the other. -/
def after (line : Line) (uses : List Use) : Line := uses.foldl use line

end Line

/-! ## Statements -/

section Statements

variable {reducer : Reducer} {store : Store} {statement : String}

theorem evaluateStatement_of_parsed {line : Line} (h : Line.parse statement = .ok line) :
    (evaluateStatement reducer store statement).1 = (line.evaluate reducer store).result := by
  unfold evaluateStatement
  rw [h]

theorem evaluateStatement_of_unparsed {error : Error} (h : Line.parse statement = .error error) :
    (evaluateStatement reducer store statement).1 = .error error := by
  unfold evaluateStatement
  rw [h]

end Statements

end ArithScript
