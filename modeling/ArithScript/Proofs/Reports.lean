import Mathlib.Data.List.Induction
import ArithScript.Command.Start
import ArithScript.Proofs.Failures

/-!
# Reports of scripts

Whether a script is badly written can be told without running it. What the parser
refuses it refuses in every store, and of the statements that it accepts only an
array assignment with a stray comma can fail for its writing: the registration looks
at the list before it looks whether the name is free, so it fails so in every store
as well (`evaluateStatement_syntactic_iff`). Therefore the exit code 65 of a run
depends on the source alone, and the failures that parsing reports are among those
that running reports (`Command.start_run_tokenize`).
-/

namespace ArithScript

/-! ## Stray commas -/

namespace Text

/-- A comma of the text has nothing on one of its sides: it is the first or the last
character, or another comma follows. -/
def StrayComma (text : String) : Prop :=
  [','] <+: text.toList ∨ [','] <:+ text.toList ∨ [',', ','] <:+: text.toList

theorem nil_mem_splitOn_iff {separator : Char} {cs : List Char} : [] ∈ cs.splitOn separator ↔
    (cs = [] ∨ [separator] <+: cs) ∨ [] ∈ (cs.splitOn separator).tail := by
  cases cs with
  | nil => simp
  | cons c cs =>
    rw [List.splitOn_cons_eq_if_modifyHead]
    split
    · next h => simp [← eq_of_beq h]
    · next h =>
      have hc : separator ≠ c := fun heq => h (by simp [heq])
      obtain ⟨first, rest, hsplit⟩ := List.exists_cons_of_ne_nil (List.splitOn_ne_nil separator cs)
      simp [hsplit, hc]

theorem nil_mem_tail_splitOn_iff {separator : Char} {cs : List Char} :
    [] ∈ (cs.splitOn separator).tail ↔
      [separator] <:+ cs ∨ [separator, separator] <:+: cs := by
  induction cs with
  | nil => simp
  | cons c cs ih =>
    rw [List.splitOn_cons_eq_if_modifyHead, List.suffix_cons_iff, List.infix_cons_iff]
    split
    · next h =>
      rw [List.tail_cons, nil_mem_splitOn_iff, ih, ← eq_of_beq h]
      simp only [List.cons_prefix_cons, List.cons.injEq, true_and, eq_comm (a := []), or_assoc,
        or_left_comm]
    · next h =>
      have hc : separator ≠ c := fun heq => h (by simp [heq])
      simp [ih, hc]

/-- A list with a stray comma has an empty element. -/
theorem strayComma_iff {text : String} (h : text ≠ "") :
    StrayComma text ↔ "" ∈ pieces ',' text := by
  have hpieces : "" ∈ pieces ',' text ↔ [] ∈ text.toList.splitOn ',' := by
    rw [pieces, List.mem_map]
    constructor
    · rintro ⟨cs, hcs, hempty⟩
      rwa [String.ofList_eq_empty_iff.mp hempty] at hcs
    · exact fun hnil => ⟨[], hnil, rfl⟩
  rw [hpieces, nil_mem_splitOn_iff, nil_mem_tail_splitOn_iff, StrayComma]
  simp [h]

/-! ## Lines -/

/-- Fewer texts, each with a line break at its end, have fewer lines. -/
theorem pieces_join_sublist {texts texts' : List String} (h : texts.Sublist texts')
    (hended : ∀ text ∈ texts', ∃ line, text = line ++ "\n") :
    (pieces '\n' (String.join texts)).Sublist (pieces '\n' (String.join texts')) := by
  induction h with
  | slnil => exact .refl _
  | cons text _ ih =>
    obtain ⟨⟨line, rfl⟩, hrest⟩ := List.forall_mem_cons.mp hended
    rw [pieces_join_cons]
    exact (ih hrest).trans (List.sublist_append_right _ _)
  | cons_cons text _ ih =>
    obtain ⟨⟨line, rfl⟩, hrest⟩ := List.forall_mem_cons.mp hended
    rw [pieces_join_cons, pieces_join_cons]
    exact (ih hrest).append_left _

end Text

/-! ## Badly written statements -/

/-- Of what can be wrong with a parsed line, only an empty element of a list is a matter
of writing. -/
theorem Form.Fails.payload_of_isSyntactic {store : Store} {form : Form} {error : Error}
    (h : form.Fails store error) (herror : error.isSyntactic = true) :
    ∃ target payload, form = .arrayAssign target payload ∧ "" ∈ Text.pieces ',' payload := by
  have expression {symbols : List Symbol} (h : ExpressionFails store symbols error) : False := by
    cases h with
    | reference hs h => cases h <;> cases herror
    | divisionByZero | malformed => cases herror
  cases h with
  | plain h => exact (expression h).elim
  | scalarAssign target h => exact (expression h).elim
  | payload target hempty => exact ⟨target, _, rfl, hempty⟩
  | scalarTaken | arrayTaken | noFunction | noArgument | refused => cases herror

/-- The list is looked at before the name: with an empty element it is refused also where
the name is taken. -/
theorem Store.register_empty_element {name value : String} (store : Store)
    (hname : Name.shape? name = some .array) (hempty : "" ∈ Text.pieces ',' value) :
    store.register name value = .error (.malformedSeparator value) := by
  have hentry : entryFor name value = .error (.malformedSeparator value) := by
    rw [entryFor, hname]
    exact if_pos hempty
  rw [register, hentry]

/-- The parser refuses the statement. -/
def Unparsed (statement : String) : Prop := ∃ error, Line.parse statement = .error error

/-- The statement assigns an array, and its list has a stray comma. -/
def ListsStrayComma (statement : String) : Prop :=
  ∃ line target payload, Line.parse statement = .ok line ∧
    line.form = .arrayAssign target payload ∧ Text.StrayComma payload

theorem Line.Derives.payload_ne {statement target payload : String} {form : Form}
    (h : Derives statement form) (hform : form = .arrayAssign target payload) : payload ≠ "" := by
  cases h with
  | @arrayAssign name payload =>
    cases hform
    exact fun hempty => payload.nonempty (String.ofList_eq_empty_iff.mp hempty)
  | scalarAssign | call | plain => cases hform

/-- **Bad writing shows in every store**: whether a statement fails for its writing does not
depend on the store, and for no other reason than the statement itself. -/
theorem evaluateStatement_syntactic_iff {store : Store} (hstore : store.WellFormed)
    (statement : String) :
    (∃ error, (evaluateStatement reduce store statement).1 = .error error ∧
        error.isSyntactic = true) ↔ Unparsed statement ∨ ListsStrayComma statement := by
  unfold evaluateStatement Unparsed ListsStrayComma
  cases hparse : Line.parse statement with
  | error e =>
    have hsyntactic : e.isSyntactic = true := by
      rcases Line.parse_fails hparse with ⟨token, rfl⟩ | ⟨body, rfl⟩ <;> rfl
    exact ⟨fun _ => .inl ⟨e, rfl⟩, fun _ => ⟨e, rfl, hsyntactic⟩⟩
  | ok line =>
    obtain ⟨-, hderives⟩ := Line.parse_eq_ok_iff.mp hparse
    constructor
    · rintro ⟨error, herror, hsyntactic⟩
      obtain ⟨target, payload, hform, hempty⟩ :=
        (Line.evaluate_fails hstore hparse herror).payload_of_isSyntactic hsyntactic
      have hstray := (Text.strayComma_iff (hderives.payload_ne hform)).mpr hempty
      exact .inr ⟨line, target, payload, rfl, hform, hstray⟩
    · rintro (⟨error, herror⟩ | ⟨line', target, payload, hline, hform, hstray⟩)
      · cases herror
      · cases hline
        have htarget := (Line.parse_wellFormed hparse).target
        rw [hform] at htarget
        have hempty := (Text.strayComma_iff (hderives.payload_ne hform)).mp hstray
        refine ⟨.malformedSeparator payload, ?_, rfl⟩
        dsimp only
        rw [Line.evaluate_result, hform]
        dsimp only
        rw [store.register_empty_element htarget hempty]
        rfl

/-! ## Stores that commands start with -/

namespace Command

theorem define_wellFormed {store store' : Store} {definition : String}
    (h : define store definition = .ok store') (hstore : store.WellFormed) : store'.WellFormed := by
  unfold define at h
  split at h
  · cases h
  · next name value _ =>
    have hregistered := (Operation.register name value).apply_wellFormed hstore
    rw [Operation.apply] at hregistered
    split at h
    · cases h
    · next hok =>
      cases h
      rwa [hok] at hregistered

theorem wellFormed_of_foldlM_define {store store' : Store} {definitions : List String}
    (h : definitions.foldlM define store = .ok store') (hstore : store.WellFormed) :
    store'.WellFormed := by
  induction definitions generalizing store with
  | nil =>
    cases h
    exact hstore
  | cons definition rest ih =>
    obtain ⟨next, hnext, hrest⟩ := bind_eq_ok.mp h
    exact ih hrest (define_wellFormed hnext hstore)

theorem initialStore_wellFormed {builtins : Bool} {definitions : List String} {store : Store}
    (h : initialStore builtins definitions = .ok store) : store.WellFormed := by
  refine wellFormed_of_foldlM_define h (Store.IsInitial.wellFormed ?_)
  cases builtins with
  | false => exact .inl rfl
  | true => exact .inr rfl

/-! ## Exit codes -/

theorem worsen_ne_zero (code : Nat) (e : Error) : worsen code e ≠ 0 := by
  unfold worsen
  split
  · decide
  · split
    · decide
    · assumption

theorem worsen_eq_syntaxCode_iff {code : Nat} {e : Error} :
    worsen code e = syntaxCode ↔ code = syntaxCode ∨ e.isSyntactic = true := by
  unfold worsen
  split
  · next h => simp [h]
  · next h =>
    split
    · next hcode => simp [h, hcode, syntaxCode, evaluationCode]
    · simp [h]

theorem worsen_cases {code : Nat} (e : Error)
    (h : code = 0 ∨ code = syntaxCode ∨ code = evaluationCode) :
    worsen code e = syntaxCode ∨ worsen code e = evaluationCode := by
  unfold worsen
  split
  · exact .inl rfl
  · split
    · exact .inr rfl
    · next hcode => exact h.resolve_left hcode

theorem exitCode_concat (errors : List Error) (e : Error) :
    exitCode (errors ++ [e]) = worsen (exitCode errors) e := List.foldl_concat ..

/-- Bad writing decides the exit code, wherever in the script it is. -/
theorem exitCode_eq_syntaxCode_iff {errors : List Error} :
    exitCode errors = syntaxCode ↔ ∃ e ∈ errors, e.isSyntactic = true := by
  induction errors using List.reverseRecOn with
  | nil => simp [exitCode, syntaxCode]
  | append_singleton errors e ih =>
    rw [exitCode_concat, worsen_eq_syntaxCode_iff, ih]
    simp [or_and_right, exists_or]

theorem exitCode_eq_zero_iff {errors : List Error} : exitCode errors = 0 ↔ errors = [] := by
  induction errors using List.reverseRecOn with
  | nil => simp [exitCode]
  | append_singleton errors e => simp [exitCode_concat, worsen_ne_zero]

theorem exitCode_cases (errors : List Error) :
    exitCode errors = 0 ∨ exitCode errors = syntaxCode ∨ exitCode errors = evaluationCode := by
  induction errors using List.reverseRecOn with
  | nil => exact .inl rfl
  | append_singleton errors e ih =>
    rw [exitCode_concat]
    exact .inr (worsen_cases e ih)

theorem exitCode_eq_evaluationCode_iff {errors : List Error} (h : exitCode errors ≠ syntaxCode) :
    exitCode errors = evaluationCode ↔ errors ≠ [] := by
  rw [ne_eq, ← exitCode_eq_zero_iff]
  rcases exitCode_cases errors with hcode | hcode | hcode
  · simp [hcode, evaluationCode]
  · exact absurd hcode h
  · simp [hcode, evaluationCode]

/-! ## Results and their lines -/

section Results

variable {α β : Type} {number : β → Nat} {result : β → Except Error α} {items : List β}

theorem mem_errors_map {e : Error} : e ∈ errors (items.map fun item => (number item, result item)) ↔
    ∃ item ∈ items, result item = .error e := by
  rw [errors, List.filterMap_map, List.mem_filterMap]
  refine exists_congr fun item => and_congr_right fun _ => ?_
  dsimp only [Function.comp]
  cases result item <;> simp

theorem errors_map_eq_nil_iff : errors (items.map fun item => (number item, result item)) = [] ↔
    ∀ item ∈ items, ∃ value, result item = .ok value := by
  rw [errors, List.filterMap_map, List.filterMap_eq_nil_iff]
  refine forall₂_congr fun item _ => ?_
  dsimp only [Function.comp]
  cases result item <;> simp

theorem errors_map_ne_nil_iff : errors (items.map fun item => (number item, result item)) ≠ [] ↔
    ∃ item ∈ items, ∃ e, result item = .error e := by
  constructor
  · intro h
    obtain ⟨e, he⟩ := List.exists_mem_of_ne_nil _ h
    obtain ⟨item, hitem, hresult⟩ := mem_errors_map.mp he
    exact ⟨item, hitem, e, hresult⟩
  · rintro ⟨item, hitem, e, hresult⟩
    exact List.ne_nil_of_mem (mem_errors_map.mpr ⟨item, hitem, hresult⟩)

theorem failureLines_cons_ok (number : Nat) (value : α) (results : Numbered α) :
    failureLines ((number, .ok value) :: results) = failureLines results := rfl

theorem failureLines_cons_error (number : Nat) (e : Error) (results : Numbered α) :
    failureLines ((number, .error e) :: results) = failureLine number e :: failureLines results := rfl

theorem exists_line_of_mem_failureLines {results : Numbered α} {text : String}
    (h : text ∈ failureLines results) : ∃ line, text = line ++ "\n" := by
  obtain ⟨⟨number, result⟩, -, htext⟩ := List.mem_filterMap.mp h
  cases result with
  | ok value => cases htext
  | error e =>
    cases htext
    exact ⟨_, rfl⟩

theorem outputLines_map (render : α → String) :
    outputLines render (items.map fun item => (number item, result item)) =
      (items.filterMap fun item => (result item).toOption).map fun value => render value ++ "\n" := by
  rw [outputLines, List.filterMap_map, List.map_filterMap]
  refine List.filterMap_congr fun item _ => ?_
  dsimp only [Function.comp]
  cases result item <;> rfl

end Results

/-! ## Reports -/

variable {source : String} {store : Store}

/-- The results of a run, with the numbers of their lines. -/
def numbered (outcomes : List Outcome) : Numbered Value :=
  outcomes.map fun outcome => (outcome.statement.number, outcome.result)

theorem runSource_code : (runSource store source).code =
    exitCode (errors (numbered (Script.run reduce store source).1)) := by
  rw [runSource, numbered]

theorem runSource_errors : (runSource store source).errors =
    String.join (failureLines (numbered (Script.run reduce store source).1)) := by
  rw [runSource, numbered]

theorem runSource_output : (runSource store source).output =
    String.join (outputLines Value.render (numbered (Script.run reduce store source).1)) := by
  rw [runSource, numbered]

theorem tokenizeSource_errors {json : Bool} : (tokenizeSource json source).errors = String.join
    (failureLines ((Script.statements source).map fun s => (s.number, Line.parse s.text))) := by
  rw [tokenizeSource]

/-- Parsing reports no failure that running does not report. -/
theorem failureLines_sublist (store : Store) (statements : List Statement) :
    (failureLines (statements.map fun s => (s.number, Line.parse s.text))).Sublist
      (failureLines (numbered (Script.runStatements reduce store statements).1)) := by
  induction statements generalizing store with
  | nil => exact .slnil
  | cons statement rest ih =>
    have ih := ih (evaluateStatement reduce store statement.text).2
    rw [Script.runStatements_cons, List.map_cons, numbered, List.map_cons, ← numbered]
    dsimp only
    cases hparse : Line.parse statement.text with
    | error e =>
      have hresult : (evaluateStatement reduce store statement.text).1 = .error e := by
        unfold evaluateStatement
        rw [hparse]
      rw [hresult, failureLines_cons_error, failureLines_cons_error]
      exact ih.cons_cons _
    | ok line =>
      rw [failureLines_cons_ok]
      cases (evaluateStatement reduce store statement.text).1 with
      | error e =>
        rw [failureLines_cons_error]
        exact ih.cons _
      | ok value =>
        rw [failureLines_cons_ok]
        exact ih

/-- Parsing exits with 65 if the parser refuses a statement. -/
theorem tokenizeSource_code_eq_iff {json : Bool} : (tokenizeSource json source).code = syntaxCode ↔
    ∃ statement ∈ Script.statements source, Unparsed statement.text := by
  rw [tokenizeSource]
  dsimp only
  split
  · next hnil =>
    have hparsed := errors_map_eq_nil_iff.mp (List.isEmpty_iff.mp hnil)
    refine ⟨fun hcode => (nomatch hcode), fun ⟨statement, hstatement, e, he⟩ => ?_⟩
    obtain ⟨line, hline⟩ := hparsed statement hstatement
    cases he.symm.trans hline
  · next hne =>
    have hrefused := errors_map_ne_nil_iff.mp (mt List.isEmpty_iff.mpr hne)
    exact ⟨fun _ => hrefused, fun _ => rfl⟩

theorem exists_outcome_syntactic_iff (hstore : store.WellFormed) (statements : List Statement) :
    (∃ outcome ∈ (Script.runStatements reduce store statements).1, ∃ e,
        outcome.result = .error e ∧ e.isSyntactic = true) ↔
      ∃ statement ∈ statements, Unparsed statement.text ∨ ListsStrayComma statement.text := by
  induction statements generalizing store with
  | nil => simp [Script.runStatements]
  | cons statement rest ih =>
    have hnext : (evaluateStatement reduce store statement.text).2.WellFormed :=
      (Operation.statement reduce statement.text).apply_wellFormed hstore
    rw [Script.runStatements_cons]
    simp only [List.mem_cons, exists_eq_or_imp]
    rw [evaluateStatement_syntactic_iff hstore, ih hnext]

/-- Running exits with 65 if the parser refuses a statement, or a list has a stray comma. -/
theorem runSource_code_eq_iff (hstore : store.WellFormed) :
    (runSource store source).code = syntaxCode ↔ ∃ statement ∈ Script.statements source,
      Unparsed statement.text ∨ ListsStrayComma statement.text := by
  rw [runSource_code, numbered, exitCode_eq_syntaxCode_iff, ← exists_outcome_syntactic_iff hstore]
  constructor
  · rintro ⟨e, he, hsyntactic⟩
    obtain ⟨outcome, houtcome, hresult⟩ := mem_errors_map.mp he
    exact ⟨outcome, houtcome, e, hresult, hsyntactic⟩
  · rintro ⟨outcome, houtcome, e, hresult, hsyntactic⟩
    exact ⟨e, mem_errors_map.mpr ⟨outcome, houtcome, hresult⟩, hsyntactic⟩

theorem start_of_ok (command : Command) {builtins : Bool} {definitions : List String}
    (hstore : initialStore builtins definitions = .ok store)
    (source : Except StartError (List UInt8)) :
    command.start builtins definitions source = command.onBytes store source := by
  rw [start, startWith, hstore]
  rfl

theorem start_of_error (command : Command) {builtins : Bool} {definitions : List String}
    {e : StartError} (hstore : initialStore builtins definitions = .error e)
    (source : Except StartError (List UInt8)) :
    command.start builtins definitions source = e.report := by
  rw [start, startWith, hstore]
  rfl

/-- A command on a source that is UTF-8, behind definitions that the store takes. -/
theorem start_eq_perform (command : Command) {builtins : Bool} {definitions : List String}
    {bytes : List UInt8} (hstore : initialStore builtins definitions = .ok store)
    (hsource : Text.Utf8.decode bytes = .ok source) :
    command.start builtins definitions (.ok bytes) = command.perform store source := by
  rw [start_of_ok command hstore, onBytes, hsource]

/-- **Parsing and running agree on bad writing**: every line that parsing writes to the error
output running writes too, in the same order, whatever the options of the two are; running
exits with 65 just where parsing does, or where the list of an array assignment has a stray
comma, and otherwise with 70 or 0 as some statement fails or none does. Its output is what the
statements came to, in their order. -/
theorem start_run_tokenize {builtins builtins' : Bool} {definitions definitions' : List String}
    {store' : Store} {bytes : List UInt8} (json : Bool)
    (hstore : initialStore builtins definitions = .ok store)
    (hstore' : initialStore builtins' definitions' = .ok store')
    (hsource : Text.Utf8.decode bytes = .ok source) :
    let running := Command.run.start builtins definitions (.ok bytes)
    let parsing := (Command.tokenize json).start builtins' definitions' (.ok bytes)
    let outcomes := (Script.run reduce store source).1
    outcomes.map Outcome.statement = Script.statements source ∧
      (Text.pieces '\n' parsing.errors).Sublist (Text.pieces '\n' running.errors) ∧
      (running.code = 65 ↔ parsing.code = 65 ∨
        ∃ statement ∈ Script.statements source, ListsStrayComma statement.text) ∧
      (running.code ≠ 65 →
        (running.code = 70 ↔ ∃ outcome ∈ outcomes, ∃ e, outcome.result = .error e) ∧
        (running.code = 0 ↔ ∀ outcome ∈ outcomes, ∃ value, outcome.result = .ok value)) ∧
      running.output = String.join ((outcomes.filterMap fun outcome =>
        outcome.result.toOption).map fun value => value.render ++ "\n") := by
  intro running parsing outcomes
  have hrunning : running = runSource store source := start_eq_perform .run hstore hsource
  have hparsing : parsing = tokenizeSource json source :=
    start_eq_perform (.tokenize json) hstore' hsource
  rw [hrunning, hparsing]
  refine ⟨Script.runStatements_statements _, ?_, ?_, fun hcode => ?_, ?_⟩
  · rw [runSource_errors, tokenizeSource_errors]
    exact Text.pieces_join_sublist (failureLines_sublist store _) fun text =>
      exists_line_of_mem_failureLines
  · have hparsed : (tokenizeSource json source).code = 65 ↔ _ := tokenizeSource_code_eq_iff
    rw [hparsed]
    refine (runSource_code_eq_iff (initialStore_wellFormed hstore)).trans ?_
    simp only [and_or_left, exists_or]
  · rw [runSource_code] at hcode ⊢
    exact ⟨(exitCode_eq_evaluationCode_iff hcode).trans errors_map_ne_nil_iff,
      exitCode_eq_zero_iff.trans errors_map_eq_nil_iff⟩
  · rw [runSource_output, numbered, outputLines_map]

/-- A list with a stray comma for a name that is taken, and a division by zero. -/
theorem start_run_tokenize_taken :
    let definitions := ["$R = 3", "@L=1,2"]
    let bytes := "@L=[ 4,,5 ]\n1 / 0\n$R / 4".toList.map fun c => UInt8.ofNat c.toNat
    let running := Command.run.start true definitions (.ok bytes)
    let parsing := (Command.tokenize true).start false [] (.ok bytes)
    (Text.pieces '\n' parsing.errors).Sublist (Text.pieces '\n' running.errors) ∧
      parsing.code = 0 ∧ running.code = 65 ∧ running.output = "0.75\n" ∧
      running.errors = "[line 1] Error: Empty token between separators in '4,,5'\n" ++
        "[line 2] Error: Division by zero\n" := by
  intro definitions bytes running parsing
  let source := "@L=[ 4,,5 ]\n1 / 0\n$R / 4"
  have hsource : Text.Utf8.decode bytes = .ok source := eq_ok_of_toOption (by decide +kernel)
  have hdefined : (initialStore true definitions).toOption.isSome = true := by decide +kernel
  obtain ⟨store, hstore⟩ := Option.isSome_iff_exists.mp hdefined
  obtain ⟨-, hlines, hcode, -⟩ := @start_run_tokenize source store true false definitions []
    .empty bytes true (eq_ok_of_toOption hstore) rfl hsource
  have hstray : ListsStrayComma "@L=[ 4,,5 ]" :=
    ⟨⟨.arrayAssign "@L" "4,,5", false⟩, "@L", "4,,5", eq_ok_of_toOption (by decide +kernel), rfl,
      .inr (.inr ⟨['4'], ['5'], rfl⟩)⟩
  have hmem : ⟨1, "@L=[ 4,,5 ]"⟩ ∈ Script.statements source := by decide +kernel
  exact ⟨hlines, by decide +kernel, hcode.mpr (.inr ⟨_, hmem, hstray⟩), by decide +kernel⟩

end Command

end ArithScript
