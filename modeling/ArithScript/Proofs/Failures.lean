import ArithScript.Proofs.Sessions

/-!
# Failures of statements

What can be wrong with a statement depends on its form, and `Form.Fails` lists it
form by form. The list is short because names are checked where a statement is
parsed and where a variable is registered: in the stores of sessions the lookups
and registrations of a parsed line never find a name at fault (`Line.Guarded`),
although each of them checks it again.
-/

namespace ArithScript

/-! ## What can fail -/

/-- A symbol has no value in the store, for the reason that the error gives. -/
inductive Symbol.Undefined (store : Store) : Symbol → Error → Prop
  | scalar {r : Reference} (absent : r.name ∉ store.entries) :
    Undefined store (.scalar r) (.notFound r.name)
  | array {r : Reference} {array position : String}
      (shape : Name.shape? r.name = some (.element array position))
      (absent : array ∉ store.entries) : Undefined store (.element r) (.notFound array)
  | position {r : Reference} {array position : String} {values : List String}
      (shape : Name.shape? r.name = some (.element array position))
      (held : store.entries[array]? = some (.array values))
      (outside : ((Store.position? position).bind fun i => values[i]?) = none) :
      Undefined store (.element r) (.indexOutOfRange array position values.length)

/-- The text that the symbols make, with their references resolved in the store. -/
def Renders (store : Store) (symbols : List Symbol) (text : String) : Prop :=
  ∃ settled, symbols.mapM (Symbol.resolve store) = .ok settled ∧
    text = String.join (settled.map Symbol.rendered)

/-- An expression has no value, because one of its references has none or because
of the text that its symbols make. -/
inductive ExpressionFails (store : Store) (symbols : List Symbol) : Error → Prop
  | reference {s : Symbol} {error : Error} (hs : s ∈ symbols) (h : s.Undefined store error) :
    ExpressionFails store symbols error
  | divisionByZero {text : String} (renders : Renders store symbols text)
      (h : Grammar.StartsDividingByZero text) : ExpressionFails store symbols .divisionByZero
  | malformed {text : String} {reason : Malformation} (renders : Renders store symbols text)
      (h : reduce text = .error (.malformedExpression text reason)) :
      ExpressionFails store symbols (.malformedExpression text reason)

/-- The evaluation of a form fails, for the reason that the error gives. -/
inductive Form.Fails (store : Store) : Form → Error → Prop
  | plain {symbols : List Symbol} {error : Error} (h : ExpressionFails store symbols error) :
    Fails store (.plain symbols) error
  | scalarAssign {symbols : List Symbol} {error : Error} (target : String)
      (h : ExpressionFails store symbols error) : Fails store (.scalarAssign target symbols) error
  | scalarTaken {target : String} (symbols : List Symbol) (taken : target ∈ store.entries) :
    Fails store (.scalarAssign target symbols) (.duplicateName target)
  | payload {payload : String} (target : String) (empty : "" ∈ Text.pieces ',' payload) :
    Fails store (.arrayAssign target payload) (.malformedSeparator payload)
  | arrayTaken {target : String} (payload : String) (taken : target ∈ store.entries) :
    Fails store (.arrayAssign target payload) (.duplicateName target)
  | noFunction {target : String} (argument : String) (absent : target ∉ store.functions) :
    Fails store (.call target argument) (.notFound target)
  | noArgument {argument : String} (target : String) (absent : argument ∉ store.entries) :
    Fails store (.call target argument) (.notFound argument)
  | refused {target argument reason : String} {arguments : List String} {routine : Routine}
      (held : store.functions[target]? = some routine)
      (reads : store.arguments argument = .ok arguments)
      (refuses : routine arguments = .error reason) :
      Fails store (.call target argument) (.functionFailed target reason)

/-- No failure is about the shape of a name, or about a line that is not resolved. -/
theorem Form.Fails.ne {store : Store} {form : Form} {error : Error} (h : form.Fails store error) :
    (∀ name, error ≠ .invalidName name) ∧ error ≠ .notResolved := by
  have expression {symbols : List Symbol} (h : ExpressionFails store symbols error) :
      (∀ name, error ≠ .invalidName name) ∧ error ≠ .notResolved := by
    cases h with
    | reference hs h => cases h <;> simp
    | divisionByZero | malformed => simp
  cases h with
  | plain h => exact expression h
  | scalarAssign target h => exact expression h
  | scalarTaken | payload | arrayTaken | noFunction | noArgument | refused => simp

/-! ## Lookups -/

theorem Entry.Fits.shape_scalar {name value : String} (h : Entry.Fits name (.scalar value)) :
    Name.shape? name = some .scalar := by
  cases h with
  | scalar letters => exact Name.shape?_of_hasShape (.scalar letters)

theorem Entry.Fits.shape_array {name : String} {values : List String}
    (h : Entry.Fits name (.array values)) : Name.shape? name = some .array := by
  cases h with
  | array letters => exact Name.shape?_of_hasShape (.array letters)

namespace Store

variable {store : Store} {name : String} {error : Error}

variable (hstore : store.WellFormed)
include hstore

theorem WellFormed.arrayValues_cases (hname : Name.shape? name = some .array) :
    (∃ values, store.entries[name]? = some (.array values) ∧ store.arrayValues name = .ok values) ∨
      (name ∉ store.entries ∧ store.arrayValues name = .error (.notFound name)) := by
  unfold arrayValues
  rw [if_pos hname]
  cases hentry : store.entries[name]? with
  | none => exact .inr ⟨(getElem?_eq_none_iff _ _).mp hentry, rfl⟩
  | some entry =>
    cases entry with
    | array values => exact .inl ⟨values, rfl, rfl⟩
    | scalar value =>
      -- The name would have to be one of an array and one of a scalar.
      have hscalar := (hstore.entries hentry).shape_scalar
      rw [hname] at hscalar
      cases hscalar

theorem WellFormed.value_scalar_error (hname : Name.shape? name = some .scalar)
    (h : store.value name = .error error) : name ∉ store.entries ∧ error = .notFound name := by
  unfold value at h
  rw [hname] at h
  dsimp only at h
  cases hentry : store.entries[name]? with
  | none =>
    rw [hentry] at h
    cases h
    exact ⟨(getElem?_eq_none_iff _ _).mp hentry, rfl⟩
  | some entry =>
    rw [hentry] at h
    cases entry with
    | scalar value => cases h
    | array values =>
      have harray := (hstore.entries hentry).shape_array
      rw [hname] at harray
      cases harray

theorem WellFormed.value_element_error {array position : String}
    (hname : Name.shape? name = some (.element array position))
    (h : store.value name = .error error) :
    (array ∉ store.entries ∧ error = .notFound array) ∨
      ∃ values, store.entries[array]? = some (.array values) ∧
        ((position? position).bind fun i => values[i]?) = none ∧
          error = .indexOutOfRange array position values.length := by
  have harray : Name.shape? array = some .array := by
    cases Name.hasShape_of_shape? hname with
    | element letters => exact Name.shape?_of_hasShape (.array letters)
  unfold value at h
  rw [hname] at h
  dsimp only at h
  rcases hstore.arrayValues_cases harray with ⟨values, hheld, hvalues⟩ | ⟨habsent, hvalues⟩
  · rw [hvalues] at h
    dsimp only at h
    split at h <;> cases h
    next hnone => exact .inr ⟨values, hheld, hnone, rfl⟩
  · rw [hvalues] at h
    cases h
    exact .inl ⟨habsent, rfl⟩

theorem WellFormed.arguments_error {argument : Argument}
    (h : store.arguments argument.name = .error error) :
    argument.name ∉ store.entries ∧ error = .notFound argument.name := by
  have hhead : argument.name.toList.head? = some argument.sigil := by
    rw [Argument.name, Letters.toList_named]
    rfl
  unfold arguments at h
  rw [hhead] at h
  obtain ⟨sigil, rfl | rfl, letters⟩ := argument
  · rw [if_neg (show ¬some '$' = some '@' by decide)] at h
    exact hstore.value_scalar_error (Name.shape?_of_hasShape (.scalar letters)) (map_eq_error.mp h)
  · rw [if_pos rfl] at h
    rcases hstore.arrayValues_cases (Name.shape?_of_hasShape (.array letters)) with
      ⟨values, -, hvalues⟩ | ⟨habsent, hvalues⟩
    · rw [Argument.name, hvalues] at h
      cases h
    · rw [Argument.name, hvalues] at h
      cases h
      exact ⟨habsent, rfl⟩

omit hstore

/-- A name of the right shape is refused only if it is taken, or for the text. -/
theorem register_error_of_shape {value : String}
    (hname : Name.shape? name = some .scalar ∨ Name.shape? name = some .array)
    (h : store.register name value = .error error) :
    (Name.shape? name = some .array ∧ "" ∈ Text.pieces ',' value ∧
      error = .malformedSeparator value) ∨
      (name ∈ store.entries ∧ error = .duplicateName name) := by
  unfold register at h
  cases hentry : entryFor name value with
  | error e =>
    rw [hentry] at h
    cases h
    unfold entryFor at hentry
    rcases hname with hname | hname
    · rw [hname] at hentry
      cases hentry
    · rw [hname] at hentry
      dsimp only at hentry
      split at hentry <;> cases hentry
      next hempty => exact .inl ⟨hname, hempty, rfl⟩
  | ok entry =>
    rw [hentry] at h
    dsimp only at h
    split at h <;> cases h
    next htaken => exact .inr ⟨htaken, rfl⟩

theorem call_error {arguments : List String} (hname : Name.shape? name = some .function)
    (h : store.call name arguments = .error error) :
    (name ∉ store.functions ∧ error = .notFound name) ∨
      ∃ (routine : Routine) (reason : String), store.functions[name]? = some routine ∧
        routine arguments = .error reason ∧ error = .functionFailed name reason := by
  unfold call at h
  rw [if_pos hname] at h
  cases hroutine : store.functions[name]? with
  | none =>
    rw [hroutine] at h
    cases h
    exact .inl ⟨(getElem?_eq_none_iff _ _).mp hroutine, rfl⟩
  | some routine =>
    rw [hroutine] at h
    dsimp only at h
    split at h <;> cases h
    next reason hreason => exact .inr ⟨routine, reason, rfl, hreason, rfl⟩

end Store

/-! ## Names that are not at fault -/

/-- The computation does not find a name at fault. -/
def NamesFit {α : Type} (result : Except Error α) : Prop :=
  ∀ name, result ≠ .error (.invalidName name)

theorem Store.namesFit_register {store : Store} {name value : String}
    (hname : Name.shape? name = some .scalar ∨ Name.shape? name = some .array) :
    NamesFit (store.register name value) := by
  intro name' herror
  rcases register_error_of_shape hname herror with ⟨-, -, herror⟩ | ⟨-, herror⟩
  · cases herror
  · cases herror

theorem Store.namesFit_call {store : Store} {name : String} {arguments : List String}
    (hname : Name.shape? name = some .function) : NamesFit (store.call name arguments) := by
  intro name' herror
  rcases call_error hname herror with ⟨-, herror⟩ | ⟨routine, reason, -, -, herror⟩
  · cases herror
  · cases herror

theorem Store.WellFormed.namesFit_arguments {store : Store} (hstore : store.WellFormed)
    (argument : Argument) : NamesFit (store.arguments argument.name) := by
  intro name' herror
  cases (hstore.arguments_error herror).2

/-! ## References -/

/-- A reference has a name of the shape that its symbol asks for. -/
def Symbol.Named : Symbol → Prop
  | .scalar r => Name.shape? r.name = some .scalar
  | .element r => ∃ array position, Name.shape? r.name = some (.element array position)
  | .number _ | .operator _ => True

namespace Symbol

theorem classify_named {token : String} {s : Symbol} (h : classify token = .ok s) : s.Named := by
  cases classified h with
  | scalar shape => exact shape
  | operator | number => trivial
  | element shape => exact ⟨_, _, shape⟩

theorem resolve_error {store : Store} (hstore : store.WellFormed) {s : Symbol} (hs : s.Named)
    {error : Error} (h : s.resolve store = .error error) : s.Undefined store error := by
  cases s with
  | number | operator => cases h
  | scalar r =>
    obtain ⟨habsent, rfl⟩ := hstore.value_scalar_error hs (map_eq_error.mp h)
    exact .scalar habsent
  | element r =>
    obtain ⟨array, position, hshape⟩ := hs
    rcases hstore.value_element_error hshape (map_eq_error.mp h) with
      ⟨habsent, rfl⟩ | ⟨values, hheld, houtside, rfl⟩
    · exact .array hshape habsent
    · exact .position hshape hheld houtside

theorem namesFit_value {store : Store} (hstore : store.WellFormed) {s : Symbol} (hs : s.Named)
    {r : Reference} (hr : s.reference? = some r) : NamesFit (store.value r.name) := by
  intro name herror
  have hresolve : s.resolve store = .error (.invalidName name) := by
    cases s with
    | number | operator => cases hr
    | scalar | element =>
      cases hr
      exact map_eq_error.mpr herror
  cases resolve_error hstore hs hresolve

end Symbol

/-! ## Parsed lines -/

namespace Line

variable {store : Store} {line : Line} {error : Error}

theorem Derives.named {statement : String} {form : Form} (h : Derives statement form) :
    ∀ s ∈ form.symbols, s.Named := by
  intro s hs
  obtain ⟨token, htoken⟩ := h.exists_token hs
  exact Symbol.classify_named htoken

theorem resolve_error (h : line.resolve store = .error error) :
    ∃ s ∈ line.form.symbols, s.resolve store = .error error := by
  unfold resolve at h
  split at h
  · cases h
  · rw [map_eq_error, Form.resolve_eq, map_eq_error, mapM_eq_error_iff] at h
    obtain ⟨before, s, after, hsplit, -, hs⟩ := h
    exact ⟨s, by rw [hsplit]; simp, hs⟩

/-- A line that is resolved has a text to evaluate. -/
theorem exists_evaluationText {resolved : Line} (h : line.resolve store = .ok resolved) :
    ∃ text, resolved.evaluationText = .ok text := by
  have hresolved := resolved_of_resolve h
  unfold evaluationText
  split
  · exact ⟨_, if_pos hresolved⟩
  · exact ⟨_, if_pos hresolved⟩
  · exact ⟨_, rfl⟩
  · exact ⟨_, rfl⟩

/-- The line computes an expression of these symbols. -/
def IsExpressionOf (line : Line) (symbols : List Symbol) : Prop :=
  line.form = .plain symbols ∨ ∃ target, line.form = .scalarAssign target symbols

theorem IsExpressionOf.symbols_eq {symbols : List Symbol} (h : line.IsExpressionOf symbols) :
    line.form.symbols = symbols := by
  rcases h with h | ⟨target, h⟩ <;> rw [h] <;> rfl

theorem IsExpressionOf.exists_renders {symbols : List Symbol} (hline : line.IsExpressionOf symbols)
    (hresolved : line.resolved = false) {resolved : Line} (h : line.resolve store = .ok resolved) :
    ∃ text, resolved.evaluationText = .ok text ∧ Renders store symbols text := by
  rcases resolve_cases h with ⟨htrue, -⟩ | ⟨-, form, hform, rfl⟩
  · rw [hresolved] at htrue
    cases htrue
  · rcases hline with hline | ⟨target, hline⟩
    · rw [hline] at hform
      obtain ⟨settled, hsettled, rfl⟩ := map_eq_ok.mp hform
      exact ⟨_, rfl, settled, hsettled, rfl⟩
    · rw [hline] at hform
      obtain ⟨settled, hsettled, rfl⟩ := map_eq_ok.mp hform
      exact ⟨_, rfl, settled, hsettled, rfl⟩

theorem reduceWith_error {symbols : List Symbol} (hstore : store.WellFormed)
    (hline : line.IsExpressionOf symbols) (hresolved : line.resolved = false)
    (hsymbols : ∀ s ∈ symbols, s.Named) (h : (line.reduceWith reduce store).1 = .error error) :
    ExpressionFails store symbols error := by
  unfold reduceWith at h
  cases hresolve : line.resolve store with
  | error e =>
    rw [hresolve] at h
    cases h
    obtain ⟨s, hs, hundefined⟩ := resolve_error hresolve
    rw [hline.symbols_eq] at hs
    exact .reference hs (Symbol.resolve_error hstore (hsymbols s hs) hundefined)
  | ok resolved =>
    rw [hresolve] at h
    obtain ⟨text, htext, hrenders⟩ := hline.exists_renders hresolved hresolve
    dsimp only at h
    rw [htext] at h
    rcases Grammar.reduce_error h with rfl | ⟨reason, rfl⟩
    · exact .divisionByZero hrenders (Grammar.reduce_eq_divisionByZero_iff.mp h)
    · exact .malformed hrenders h

/-- Nothing that the evaluation of the line does in the store finds a name at
fault, and the line has a target wherever one is asked for. -/
structure Guarded (store : Store) (line : Line) : Prop where
  target : line.form.target? = none → ∃ symbols, line.form = .plain symbols
  text : ∀ {resolved : Line}, line.resolve store = .ok resolved →
    ∃ text, resolved.evaluationText = .ok text
  references : ∀ s ∈ line.form.symbols, ∀ r, s.reference? = some r → NamesFit (store.value r.name)
  scalar : ∀ {target : String} {symbols : List Symbol}, line.form = .scalarAssign target symbols →
    ∀ value, NamesFit (store.register target value)
  array : ∀ {target payload : String}, line.form = .arrayAssign target payload →
    ∀ value, NamesFit (store.register target value)
  call : ∀ {target argument : String}, line.form = .call target argument →
    NamesFit (store.arguments argument) ∧ ∀ arguments, NamesFit (store.call target arguments)

theorem Derives.exists_argument {statement : String} {form : Form} (h : Derives statement form)
    {target argument : String} (hform : form = .call target argument) :
    ∃ a : Argument, a.name = argument := by
  cases h with
  | @call name a =>
    cases hform
    exact ⟨a, rfl⟩
  | scalarAssign | arrayAssign | plain => cases hform

theorem guarded {statement : String} (hstore : store.WellFormed) (h : parse statement = .ok line) :
    line.Guarded store := by
  have htarget := (parse_wellFormed h).target
  obtain ⟨-, hderives⟩ := parse_eq_ok_iff.mp h
  refine ⟨?_, exists_evaluationText, ?_, ?_, ?_, ?_⟩
  · intro hnone
    cases hform : line.form with
    | plain symbols => exact ⟨symbols, rfl⟩
    | scalarAssign | arrayAssign | call =>
      rw [hform] at hnone
      cases hnone
  · intro s hs r hr
    exact Symbol.namesFit_value hstore (hderives.named s hs) hr
  · intro target symbols hform value
    rw [hform] at htarget
    exact Store.namesFit_register (.inl htarget)
  · intro target payload hform value
    rw [hform] at htarget
    exact Store.namesFit_register (.inr htarget)
  · intro target argument hform
    rw [hform] at htarget
    obtain ⟨a, rfl⟩ := hderives.exists_argument hform
    exact ⟨hstore.namesFit_arguments a, fun arguments => Store.namesFit_call htarget⟩

/-! ## Failing evaluations -/

section Evaluation

variable {target payload : String} {symbols : List Symbol}

theorem evaluate_plain_fails (hstore : store.WellFormed) (hform : line.form = .plain symbols)
    (hresolved : line.resolved = false) (hsymbols : ∀ s ∈ line.form.symbols, s.Named)
    (h : (line.evaluate reduce store).result = .error error) : line.form.Fails store error := by
  unfold evaluate at h
  rw [hform] at h hsymbols ⊢
  exact .plain (reduceWith_error hstore (.inl hform) hresolved hsymbols (map_eq_error.mp h))

theorem evaluate_scalarAssign_fails (hstore : store.WellFormed)
    (hform : line.form = .scalarAssign target symbols) (hresolved : line.resolved = false)
    (hsymbols : ∀ s ∈ line.form.symbols, s.Named) (htarget : line.form.TargetFits)
    (h : (line.evaluate reduce store).result = .error error) : line.form.Fails store error := by
  unfold evaluate at h
  rw [hform] at h hsymbols htarget ⊢
  dsimp only at h
  cases hreduce : (line.reduceWith reduce store).1 with
  | error e =>
    rw [hreduce] at h
    cases h
    exact .scalarAssign target
      (reduceWith_error hstore (.inr ⟨target, hform⟩) hresolved hsymbols hreduce)
  | ok n =>
    rw [hreduce] at h
    cases hregister : store.register target n.text with
    | error e =>
      rw [Except.bind, hregister] at h
      cases h
      rcases Store.register_error_of_shape (.inl htarget) hregister with
        ⟨harray, -, -⟩ | ⟨htaken, rfl⟩
      · cases htarget.symm.trans harray
      · exact .scalarTaken symbols htaken
    | ok store' =>
      rw [Except.bind, hregister] at h
      cases h

theorem evaluate_arrayAssign_fails (hform : line.form = .arrayAssign target payload)
    (htarget : line.form.TargetFits)
    (h : (line.evaluate reduce store).result = .error error) : line.form.Fails store error := by
  unfold evaluate at h
  rw [hform] at h htarget ⊢
  dsimp only at h
  split at h
  · next e hregister =>
    cases h
    rcases Store.register_error_of_shape (.inr htarget) hregister with
      ⟨-, hempty, rfl⟩ | ⟨htaken, rfl⟩
    · exact .payload target hempty
    · exact .arrayTaken payload htaken
  · cases h

theorem evaluate_call_fails {argument : Argument} (hstore : store.WellFormed)
    (hform : line.form = .call target argument.name) (htarget : line.form.TargetFits)
    (h : (line.evaluate reduce store).result = .error error) : line.form.Fails store error := by
  unfold evaluate at h
  rw [hform] at h htarget ⊢
  dsimp only at h
  rw [map_eq_error] at h
  split at h
  · cases hread : store.arguments argument.name with
    | error e =>
      rw [hread] at h
      cases h
      obtain ⟨habsent, rfl⟩ := hstore.arguments_error hread
      exact .noArgument target habsent
    | ok arguments =>
      rw [hread] at h
      rcases Store.call_error htarget h with
        ⟨habsent, rfl⟩ | ⟨routine, reason, hheld, hrefuses, rfl⟩
      · exact .noFunction argument.name habsent
      · exact .refused hheld hread hrefuses
  · next habsent =>
    cases h
    refine .noFunction argument.name fun hmem => habsent ?_
    exact Std.ExtTreeMap.mem_iff_contains.mp hmem

end Evaluation

theorem evaluate_fails {statement : String} (hstore : store.WellFormed)
    (hparse : parse statement = .ok line)
    (h : (line.evaluate reduce store).result = .error error) : line.form.Fails store error := by
  have htarget := (parse_wellFormed hparse).target
  obtain ⟨hresolved, hderives⟩ := parse_eq_ok_iff.mp hparse
  cases hform : line.form with
  | plain symbols => exact hform ▸ evaluate_plain_fails hstore hform hresolved hderives.named h
  | scalarAssign target symbols =>
    exact hform ▸ evaluate_scalarAssign_fails hstore hform hresolved hderives.named htarget h
  | arrayAssign target payload => exact hform ▸ evaluate_arrayAssign_fails hform htarget h
  | call target argument =>
    obtain ⟨a, rfl⟩ := hderives.exists_argument hform
    exact hform ▸ evaluate_call_fails hstore hform htarget h

theorem parse_fails {statement : String} (h : parse statement = .error error) :
    (∃ token, error = .invalidSymbol token) ∨ ∃ body, error = .malformedSeparator body := by
  obtain ⟨body, -, huntokenized⟩ := parse_eq_error_iff.mp h
  cases huntokenized with
  | separator => exact .inr ⟨body, rfl⟩
  | symbol => exact .inl ⟨_, rfl⟩

end Line

/-- **What can be wrong with a statement**: in a store of a session, a statement
that is not parsed has a bad symbol or separator; one that is parsed fails only as
its form can, and none of the checks of names that evaluation repeats finds a
fault. -/
theorem evaluateStatement_failures {store : Store} (hstore : store.Reachable) (statement : String) :
    (∀ error, Line.parse statement = .error error →
      (∃ token, error = .invalidSymbol token) ∨ ∃ body, error = .malformedSeparator body) ∧
      (∀ line, Line.parse statement = .ok line → line.Guarded store ∧
        ∀ error, (line.evaluate reduce store).result = .error error →
          line.form.Fails store error) ∧
      ∀ error, (evaluateStatement reduce store statement).1 = .error error →
        (∀ name, error ≠ .invalidName name) ∧ error ≠ .notResolved := by
  refine ⟨fun error => Line.parse_fails, fun line hparse => ⟨?_, fun error => ?_⟩, fun error h => ?_⟩
  · exact Line.guarded hstore.wellFormed hparse
  · exact Line.evaluate_fails hstore.wellFormed hparse
  · unfold evaluateStatement at h
    cases hparse : Line.parse statement with
    | error e =>
      rw [hparse] at h
      cases h
      rcases Line.parse_fails hparse with ⟨token, rfl⟩ | ⟨body, rfl⟩ <;> simp
    | ok line =>
      rw [hparse] at h
      exact (Line.evaluate_fails hstore.wellFormed hparse h).ne

/-- A position behind the last element of an array that is in the store. -/
theorem evaluateStatement_failures_position :
    let store := Store.withBuiltins.run [.script reduce "@A=[ 4,5 ]\n$X=( 2 )"]
    let line : Line := ⟨.scalarAssign "$Y" [.scalar ⟨"$X", none⟩, .operator "*",
      .element ⟨"A[2]", none⟩], false⟩
    let error : Error := .indexOutOfRange "@A" "2" 2
    line.Guarded store ∧ (line.evaluate reduce store).result = .error error ∧
      line.form.Fails store error := by
  intro store line error
  have hparse : Line.parse "$Y=( $X * A[2] )" = .ok line := eq_ok_of_toOption (by decide +kernel)
  have hfails : (line.evaluate reduce store).result = .error error := by decide +kernel
  obtain ⟨-, hline, -⟩ := evaluateStatement_failures ⟨_, _, .inr rfl, rfl⟩ "$Y=( $X * A[2] )"
  obtain ⟨hguarded, hline⟩ := hline line hparse
  exact ⟨hguarded, hfails, hline error hfails⟩

end ArithScript
