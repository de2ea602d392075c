import ArithScript.Builtin
import ArithScript.Proofs.Effects
import ArithScript.Proofs.Reduction
import ArithScript.Script

/-!
# Stores of sessions

A session starts with an empty store or with the built-in functions, and from
then on the store changes by registrations, by their reversals and by statements
and scripts (`Operation`). Every check of a name is made where a name is
registered, so whatever the operations, the kind of an entry is the kind of its
name and no array has an empty element (`Store.WellFormed`). Statements that the
language reduces itself add more than that: finite numbers, and arrays of decimal
digits (`Store.Computed`).
-/

namespace ArithScript

open Grammar

/-! ## Entries -/

/-- The entry is of the kind that its name stands for, and an array has elements,
none of them empty and none with a comma in it. -/
inductive Entry.Fits : String → Entry → Prop
  | scalar (letters : Letters) (value : String) : Fits (letters.named '$') (.scalar value)
  | array (letters : Letters) {values : List String} (nonempty : values ≠ [])
      (elements : ∀ value ∈ values, value ≠ "" ∧ ',' ∉ value.toList) :
      Fits (letters.named '@') (.array values)

/-- The entry is the text of a finite number, or an array of texts of decimal
digits. -/
inductive Entry.Computed : Entry → Prop
  | scalar {x : Binary64} (finite : x.isFinite = true) : Computed (.scalar x.text)
  | array {values : List String} (elements : ∀ value ∈ values, value ≠ "" ∧
      ∀ c ∈ value.toList, Text.isDecimalDigit c = true) : Computed (.array values)

namespace Store

/-- Every entry fits its name, and every function has the name of one. -/
structure WellFormed (store : Store) : Prop where
  entries : ∀ {name : String} {entry : Entry}, store.entries[name]? = some entry →
    Entry.Fits name entry
  functions : ∀ name ∈ store.functions, ∃ letters : Letters, name = letters.named '#'

/-- Every entry is one that the language computes. -/
def Computed (store : Store) : Prop :=
  ∀ {name : String} {entry : Entry}, store.entries[name]? = some entry → entry.Computed

theorem entryFor_fits {name value : String} {entry : Entry} (h : entryFor name value = .ok entry) :
    Entry.Fits name entry := by
  unfold entryFor at h
  split at h
  · next hshape =>
    cases h
    cases Name.hasShape_of_shape? hshape with
    | scalar letters => exact .scalar letters value
  · next hshape =>
    dsimp only at h
    split at h <;> cases h
    next hempty =>
      obtain ⟨hne, hcommas, -⟩ := Text.pieces_eq_iff.mp (rfl : Text.pieces ',' value = _)
      cases Name.hasShape_of_shape? hshape with
      | array letters =>
        refine .array letters hne fun piece hpiece => ⟨?_, hcommas piece hpiece⟩
        rintro rfl
        exact hempty hpiece
  · cases h

/-! ## Extensions -/

/-- The later store has all entries of the earlier one and the same functions.
What is new in it fits its name, and is computed if `computes`. -/
structure Extends (computes : Prop) (store store' : Store) : Prop where
  kept : ∀ {name : String} {entry : Entry}, store.entries[name]? = some entry →
    store'.entries[name]? = some entry
  added : ∀ {name : String} {entry : Entry}, store'.entries[name]? = some entry →
    name ∉ store.entries → Entry.Fits name entry ∧ (computes → entry.Computed)
  functions : store'.functions = store.functions

namespace Extends

variable {computes : Prop} {store store' store'' : Store}

theorem refl (computes : Prop) (store : Store) : store.Extends computes store :=
  ⟨fun h => h, fun h hnew => absurd (of_getElem?_eq_some h) hnew, rfl⟩

/-- An entry of the later store is one of the earlier store, or it is new. -/
theorem entry_cases (h : store.Extends computes store') {name : String} {entry : Entry}
    (hentry : store'.entries[name]? = some entry) :
    store.entries[name]? = some entry ∨
      (name ∉ store.entries ∧ Entry.Fits name entry ∧ (computes → entry.Computed)) := by
  by_cases hold : name ∈ store.entries
  · have hkept := h.kept (getElem?_pos store.entries name hold)
    cases hkept.symm.trans hentry
    exact .inl (getElem?_pos store.entries name hold)
  · exact .inr ⟨hold, h.added hentry hold⟩

theorem trans (h : store.Extends computes store') (h' : store'.Extends computes store'') :
    store.Extends computes store'' := by
  refine ⟨fun hentry => h'.kept (h.kept hentry), ?_, h'.functions.trans h.functions⟩
  intro name entry hentry hnew
  -- The entry came with the second step, or it was already there after the first.
  rcases h'.entry_cases hentry with hentry' | ⟨-, hadded⟩
  · exact h.added hentry' hnew
  · exact hadded

end Extends

theorem register_extends {computes : Prop} {store store' : Store} {name value : String}
    (h : store.register name value = .ok store')
    (hcomputes : ∀ {entry : Entry}, entryFor name value = .ok entry → computes → entry.Computed) :
    store.Extends computes store' := by
  obtain ⟨entry, hentry, hfree, rfl⟩ := register_eq_ok h
  refine ⟨Line.entry_insert hfree, ?_, rfl⟩
  intro name' entry' hentry' hnew
  rw [Std.ExtTreeMap.getElem?_insert] at hentry'
  split at hentry'
  · next hname =>
    cases hentry'
    obtain rfl : name = name' := by simpa using hname
    exact ⟨entryFor_fits hentry, hcomputes hentry⟩
  · exact absurd (of_getElem?_eq_some hentry') hnew

end Store

/-! ## Statements extend the store -/

/-- The payload of an array assignment is decimal digits and commas. -/
def Form.Listed : Form → Prop
  | .arrayAssign _ payload => ∀ c ∈ payload.toList, Text.isDecimalDigit c = true ∨ c = ','
  | _ => True

namespace Line

theorem Derives.listed {statement : String} {form : Form} (h : Derives statement form) :
    form.Listed := by
  cases h with
  | scalarAssign | call | plain => trivial
  | @arrayAssign name payload =>
    rw [Form.Listed, String.toList_ofList]
    exact payload.listed

theorem resolve_listed {store : Store} {line line' : Line} (hline : line.form.Listed)
    (h : line.resolve store = .ok line') : line'.form.Listed := by
  rcases resolve_cases h with ⟨-, rfl⟩ | ⟨-, form, hform, rfl⟩
  · exact hline
  · rw [(Form.resolve_eq_ok hform).2]
    cases hold : line.form with
    | plain | scalarAssign | call => trivial
    | arrayAssign target payload =>
      rw [hold] at hline
      exact hline

theorem Reachable.listed {line : Line} (hline : line.Reachable) : line.form.Listed := by
  induction hline with
  | parse h => exact (parse_eq_ok_iff.mp h).2.listed
  | resolve store _ h ih => exact resolve_listed ih h
  | @evaluate line reducer store _ ih =>
    rcases evaluate_line reducer store line with h | h
    · rw [h]
      exact ih
    · exact resolve_listed ih h

/-- What the evaluation of a form registers, and under which name. -/
inductive Registers (reducer : Reducer) : Form → String → String → Prop
  | scalarAssign {target text : String} {symbols : List Symbol} {n : Binary64}
      (h : reducer text = .ok n) : Registers reducer (.scalarAssign target symbols) target n.text
  | arrayAssign (target payload : String) :
      Registers reducer (.arrayAssign target payload) target payload

theorem reduceWith_eq_ok {reducer : Reducer} {store : Store} {line : Line} {n : Binary64}
    (h : (line.reduceWith reducer store).1 = .ok n) : ∃ text, reducer text = .ok n := by
  unfold reduceWith at h
  split at h
  · cases h
  · obtain ⟨text, -, htext⟩ := bind_eq_ok.mp h
    exact ⟨text, htext⟩

/-- Evaluation does nothing to a store but for one registration. -/
theorem evaluate_store (reducer : Reducer) (store : Store) (line : Line) :
    (line.evaluate reducer store).store = store ∨ ∃ target value,
      Registers reducer line.form target value ∧
        store.register target value = .ok (line.evaluate reducer store).store := by
  unfold evaluate
  split
  · exact .inl rfl
  · next target symbols hform =>
    dsimp only
    split
    · exact .inl rfl
    · next n store' hregistered =>
      obtain ⟨n', hn, hregistered⟩ := bind_eq_ok.mp hregistered
      obtain ⟨store'', hregistered, hpair⟩ := map_eq_ok.mp hregistered
      cases hpair
      obtain ⟨text, htext⟩ := reduceWith_eq_ok hn
      exact .inr ⟨target, n.text, hform ▸ .scalarAssign htext, hregistered⟩
  · next target payload hform =>
    split
    · exact .inl rfl
    · next store' hregistered =>
      exact .inr ⟨target, payload, hform ▸ .arrayAssign target payload, hregistered⟩
  · exact .inl rfl

/-- What the language registers is computed by it. -/
theorem Registers.computed {form : Form} {target value : String} {entry : Entry}
    (h : Registers reduce form target value) (hfits : form.TargetFits) (hlisted : form.Listed)
    (hentry : Store.entryFor target value = .ok entry) : entry.Computed := by
  cases h with
  | scalarAssign htext =>
    rw [Store.entryFor_scalar hfits] at hentry
    cases hentry
    exact .scalar (isFinite_of_reduce htext)
  | arrayAssign =>
    have hentryFits := Store.entryFor_fits hentry
    cases Store.entryFor_array hfits hentry
    obtain ⟨-, -, hjoined⟩ := Text.pieces_eq_iff.mp (rfl : Text.pieces ',' value = _)
    cases hentryFits with
    | array letters nonempty elements =>
      refine .array fun piece hpiece => ⟨(elements piece hpiece).1, fun c hc => ?_⟩
      -- Cutting drops the commas and nothing else.
      have hcomma : c ≠ ',' := by
        rintro rfl
        exact (elements piece hpiece).2 hc
      have hpayload : c ∈ value.toList := by
        rw [← hjoined, Text.mem_intercalate_iff hcomma]
        exact ⟨piece.toList, List.mem_map_of_mem hpiece, hc⟩
      exact (hlisted c hpayload).resolve_right hcomma

theorem evaluate_extends {line : Line} (hline : line.Reachable) (reducer : Reducer)
    (store : Store) :
    store.Extends (reducer = reduce) (line.evaluate reducer store).store := by
  rcases evaluate_store reducer store line with h | ⟨target, value, hregisters, h⟩
  · rw [h]
    exact .refl _ store
  · refine Store.register_extends h fun hentry hreducer => ?_
    subst hreducer
    exact hregisters.computed hline.wellFormed.target hline.listed hentry

end Line

theorem evaluateStatement_extends (reducer : Reducer) (store : Store) (statement : String) :
    store.Extends (reducer = reduce) (evaluateStatement reducer store statement).2 := by
  unfold evaluateStatement
  split
  · exact .refl _ store
  · next line hline => exact Line.evaluate_extends (.parse hline) reducer store

theorem Script.runStatements_cons (reducer : Reducer) (store : Store) (statement : Statement)
    (rest : List Statement) : runStatements reducer store (statement :: rest) =
      (⟨statement, (evaluateStatement reducer store statement.text).1⟩ ::
          (runStatements reducer (evaluateStatement reducer store statement.text).2 rest).1,
        (runStatements reducer (evaluateStatement reducer store statement.text).2 rest).2) := by
  rw [runStatements]

/-- Every statement has its outcome, in order. -/
theorem Script.runStatements_statements {reducer : Reducer} {store : Store}
    (statements : List Statement) :
    (runStatements reducer store statements).1.map Outcome.statement = statements := by
  induction statements generalizing store with
  | nil => rfl
  | cons statement rest ih => rw [runStatements_cons, List.map_cons, ih]

theorem Script.runStatements_extends (reducer : Reducer) (store : Store)
    (statements : List Statement) :
    store.Extends (reducer = reduce) (runStatements reducer store statements).2 := by
  induction statements generalizing store with
  | nil => exact .refl _ store
  | cons statement rest ih =>
    rw [runStatements_cons]
    exact (evaluateStatement_extends reducer store statement.text).trans (ih _)

theorem Script.run_extends (reducer : Reducer) (store : Store) (source : String) :
    store.Extends (reducer = reduce) (run reducer store source).2 :=
  runStatements_extends reducer store (statements source)

/-! ## Operations -/

/-- What can be done to the store of a session. -/
inductive Operation where
  | register (name value : String)
  | unregister (name : String)
  | registerFunction (name : String) (routine : Routine)
  | unregisterFunction (name : String)
  | evaluate (reducer : Reducer) (line : {line : Line // line.Reachable})
  | statement (reducer : Reducer) (text : String)
  | script (reducer : Reducer) (source : String)

/-- The store after an operation; one that fails changes nothing. -/
def Store.update (store : Store) : Except Error Store → Store
  | .ok updated => updated
  | .error _ => store

namespace Operation

def apply (store : Store) : Operation → Store
  | register name value => store.update (store.register name value)
  | unregister name => store.update (store.unregister name)
  | registerFunction name routine => store.update (store.registerFunction name routine)
  | unregisterFunction name => store.update (store.unregisterFunction name)
  | evaluate reducer line => (line.val.evaluate reducer store).store
  | statement reducer text => (evaluateStatement reducer store text).2
  | script reducer source => (Script.run reducer store source).2

/-- The operation adds variables only by statements that the language reduces. -/
def Computes : Operation → Prop
  | register _ _ => False
  | evaluate reducer _ | statement reducer _ | script reducer _ => reducer = reduce
  | unregister _ | registerFunction _ _ | unregisterFunction _ => True

/-- The operation adds no variable to the store. -/
def AddsNothing (store : Store) (op : Operation) : Prop :=
  ∀ name ∈ (op.apply store).entries, name ∈ store.entries

end Operation

namespace Store

variable {store store' : Store}

theorem update_entry {result : Except Error Store} {name : String} {entry : Entry}
    (h : (store.update result).entries[name]? = some entry) :
    store.entries[name]? = some entry ∨
      ∃ store', result = .ok store' ∧ store'.entries[name]? = some entry := by
  cases result with
  | ok updated => exact .inr ⟨updated, rfl, h⟩
  | error e => exact .inl h

theorem update_function {result : Except Error Store} {name : String}
    (h : name ∈ (store.update result).functions) :
    name ∈ store.functions ∨ ∃ store', result = .ok store' ∧ name ∈ store'.functions := by
  cases result with
  | ok updated => exact .inr ⟨updated, rfl, h⟩
  | error e => exact .inl h

theorem unregister_eq_ok {name : String} (h : store.unregister name = .ok store') :
    store' = { store with entries := store.entries.erase name } := by
  unfold unregister at h
  split at h <;> cases h <;> rfl

theorem registerFunction_eq_ok {name : String} {routine : Routine}
    (h : store.registerFunction name routine = .ok store') :
    Name.shape? name = some .function ∧
      store' = { store with functions := store.functions.insert name routine } := by
  unfold registerFunction at h
  split at h
  · next hshape =>
    split at h <;> cases h
    exact ⟨hshape, rfl⟩
  · cases h

theorem unregisterFunction_eq_ok {name : String} (h : store.unregisterFunction name = .ok store') :
    store' = { store with functions := store.functions.erase name } := by
  unfold unregisterFunction at h
  split at h <;> cases h
  rfl

theorem entry_of_erase {name name' : String} {entry : Entry}
    (h : (store.entries.erase name)[name']? = some entry) : store.entries[name']? = some entry := by
  rw [Std.ExtTreeMap.getElem?_erase] at h
  split at h
  · cases h
  · exact h

end Store

namespace Operation

variable {store : Store}

/-- An entry after an operation was there before it, or it is new, fits its name
and is computed if the operation computes. -/
theorem apply_entry (op : Operation) {name : String} {entry : Entry}
    (h : (op.apply store).entries[name]? = some entry) :
    store.entries[name]? = some entry ∨
      (name ∉ store.entries ∧ Entry.Fits name entry ∧ (op.Computes → entry.Computed)) := by
  cases op with
  | register target value =>
    rcases Store.update_entry h with h | ⟨store', hok, h⟩
    · exact .inl h
    · exact (Store.register_extends hok fun _ hfalse => hfalse.elim).entry_cases h
  | unregister target =>
    rcases Store.update_entry h with h | ⟨store', hok, h⟩
    · exact .inl h
    · rw [Store.unregister_eq_ok hok] at h
      exact .inl (Store.entry_of_erase h)
  | registerFunction target routine =>
    rcases Store.update_entry h with h | ⟨store', hok, h⟩
    · exact .inl h
    · rw [(Store.registerFunction_eq_ok hok).2] at h
      exact .inl h
  | unregisterFunction target =>
    rcases Store.update_entry h with h | ⟨store', hok, h⟩
    · exact .inl h
    · rw [Store.unregisterFunction_eq_ok hok] at h
      exact .inl h
  | evaluate reducer line =>
    rw [apply] at h
    exact (Line.evaluate_extends line.property reducer store).entry_cases h
  | statement reducer text =>
    rw [apply] at h
    exact (evaluateStatement_extends reducer store text).entry_cases h
  | script reducer source =>
    rw [apply] at h
    exact (Script.run_extends reducer store source).entry_cases h

/-- A function after an operation was there before it, or has the name of one. -/
theorem apply_function (op : Operation) {name : String} (h : name ∈ (op.apply store).functions) :
    name ∈ store.functions ∨ ∃ letters : Letters, name = letters.named '#' := by
  cases op with
  | register target value =>
    rcases Store.update_function h with h | ⟨store', hok, h⟩
    · exact .inl h
    · obtain ⟨entry, -, -, rfl⟩ := Store.register_eq_ok hok
      exact .inl h
  | unregister target =>
    rcases Store.update_function h with h | ⟨store', hok, h⟩
    · exact .inl h
    · rw [Store.unregister_eq_ok hok] at h
      exact .inl h
  | registerFunction target routine =>
    rcases Store.update_function h with h | ⟨store', hok, h⟩
    · exact .inl h
    · obtain ⟨hshape, rfl⟩ := Store.registerFunction_eq_ok hok
      rcases Std.ExtTreeMap.mem_insert.mp h with hname | h
      · obtain rfl : target = name := by simpa using hname
        cases Name.hasShape_of_shape? hshape with
        | function letters => exact .inr ⟨letters, rfl⟩
      · exact .inl h
  | unregisterFunction target =>
    rcases Store.update_function h with h | ⟨store', hok, h⟩
    · exact .inl h
    · rw [Store.unregisterFunction_eq_ok hok] at h
      exact .inl (Std.ExtTreeMap.mem_of_mem_erase h)
  | evaluate reducer line =>
    rw [apply, (Line.evaluate_extends line.property reducer store).functions] at h
    exact .inl h
  | statement reducer text =>
    rw [apply, (evaluateStatement_extends reducer store text).functions] at h
    exact .inl h
  | script reducer source =>
    rw [apply, (Script.run_extends reducer store source).functions] at h
    exact .inl h

/-- A registration under a name that is taken adds nothing. -/
theorem addsNothing_register {name value : String} (h : name ∈ store.entries) :
    (register name value).AddsNothing store := by
  intro name' hname'
  rcases Store.update_entry (getElem?_pos _ name' hname') with hold | ⟨store', hok, -⟩
  · exact of_getElem?_eq_some hold
  · obtain ⟨-, -, hfree, -⟩ := Store.register_eq_ok hok
    exact absurd h hfree

/-- An entry is kept by every operation but the one that frees its name. -/
theorem apply_keeps {op : Operation} {name : String} {entry : Entry} (hop : op ≠ .unregister name)
    (h : store.entries[name]? = some entry) : (op.apply store).entries[name]? = some entry := by
  have updated {result : Except Error Store}
      (hkept : ∀ store', result = .ok store' → store'.entries[name]? = some entry) :
      (store.update result).entries[name]? = some entry := by
    cases result with
    | ok store' => exact hkept store' rfl
    | error e => exact h
  cases op with
  | register target value =>
    refine updated fun store' hok => ?_
    have hextends : store.Extends False store' := Store.register_extends hok fun _ => False.elim
    exact hextends.kept h
  | unregister target =>
    refine updated fun store' hok => ?_
    have hne : target ≠ name := by
      rintro rfl
      exact hop rfl
    rw [Store.unregister_eq_ok hok, Std.ExtTreeMap.getElem?_erase]
    simpa [hne] using h
  | registerFunction target routine =>
    refine updated fun store' hok => ?_
    rw [(Store.registerFunction_eq_ok hok).2]
    exact h
  | unregisterFunction target =>
    refine updated fun store' hok => ?_
    rw [Store.unregisterFunction_eq_ok hok]
    exact h
  | evaluate reducer line =>
    rw [apply]
    exact (Line.evaluate_extends line.property reducer store).kept h
  | statement reducer text =>
    rw [apply]
    exact (evaluateStatement_extends reducer store text).kept h
  | script reducer source =>
    rw [apply]
    exact (Script.run_extends reducer store source).kept h

theorem apply_wellFormed (op : Operation) (hstore : store.WellFormed) :
    (op.apply store).WellFormed := by
  refine ⟨fun h => ?_, fun name h => ?_⟩
  · rcases op.apply_entry h with h | ⟨-, hfits, -⟩
    · exact hstore.entries h
    · exact hfits
  · rcases op.apply_function h with h | hletters
    · exact hstore.functions name h
    · exact hletters

theorem apply_computed (op : Operation) (hstore : store.Computed)
    (hop : op.Computes ∨ op.AddsNothing store) : (op.apply store).Computed := by
  intro name entry h
  rcases op.apply_entry h with hold | ⟨hnew, -, hcomputed⟩
  · exact hstore hold
  · rcases hop with hcomputes | hnothing
    · exact hcomputed hcomputes
    · exact absurd (hnothing name (of_getElem?_eq_some h)) hnew

end Operation

/-! ## Sessions -/

namespace Store

/-- The stores that a session starts with. -/
def IsInitial (store : Store) : Prop := store = .empty ∨ store = .withBuiltins

/-- The store after the operations, one after the other. -/
def run (store : Store) (ops : List Operation) : Store := ops.foldl Operation.apply store

/-- Variables are added only by statements that the language reduces; every other
operation adds none where it is applied. -/
def OnlyComputes : Store → List Operation → Prop
  | _, [] => True
  | store, op :: ops =>
    (op.Computes ∨ op.AddsNothing store) ∧ OnlyComputes (op.apply store) ops

/-- The stores that sessions come to. -/
def Reachable (store : Store) : Prop :=
  ∃ (initial : Store) (ops : List Operation), initial.IsInitial ∧ store = initial.run ops

variable {initial store : Store}

theorem IsInitial.no_entry (h : initial.IsInitial) (name : String) :
    initial.entries[name]? = none := by
  rcases h with rfl | rfl <;> exact Std.ExtTreeMap.getElem?_empty

theorem IsInitial.function (h : initial.IsInitial) {name : String}
    (hname : name ∈ initial.functions) : ∃ letters : Letters, name = letters.named '#' := by
  rcases h with rfl | rfl
  · exact absurd hname Std.ExtTreeMap.not_mem_empty
  · have hmem : name ∈ Builtin.all.map Prod.fst := by
      simpa using Std.ExtTreeMap.mem_ofList.mp hname
    have hshapes : ∀ name ∈ Builtin.all.map Prod.fst, Name.shape? name = some .function := by
      decide
    cases Name.hasShape_of_shape? (hshapes name hmem) with
    | function letters => exact ⟨letters, rfl⟩

theorem IsInitial.wellFormed (h : initial.IsInitial) : initial.WellFormed := by
  refine ⟨fun {name entry} hentry => ?_, fun name hname => h.function hname⟩
  rw [h.no_entry name] at hentry
  cases hentry

theorem IsInitial.computed (h : initial.IsInitial) : initial.Computed := by
  intro name entry hentry
  rw [h.no_entry name] at hentry
  cases hentry

theorem run_keeps {ops : List Operation} {name : String} {entry : Entry}
    (hops : .unregister name ∉ ops) (h : store.entries[name]? = some entry) :
    (store.run ops).entries[name]? = some entry := by
  induction ops generalizing store with
  | nil => exact h
  | cons op ops ih =>
    obtain ⟨hop, hops⟩ := List.ne_and_not_mem_of_not_mem_cons hops
    exact ih hops (op.apply_keeps hop.symm h)

theorem WellFormed.run (h : store.WellFormed) (ops : List Operation) :
    (store.run ops).WellFormed := by
  induction ops generalizing store with
  | nil => exact h
  | cons op ops ih => exact ih (op.apply_wellFormed h)

theorem Computed.run (h : store.Computed) {ops : List Operation} (hops : store.OnlyComputes ops) :
    (store.run ops).Computed := by
  induction ops generalizing store with
  | nil => exact h
  | cons op ops ih => exact ih (op.apply_computed h hops.1) hops.2

theorem Reachable.wellFormed (h : store.Reachable) : store.WellFormed := by
  obtain ⟨initial, ops, hinitial, rfl⟩ := h
  exact hinitial.wellFormed.run ops

/-- **Stores of sessions**: whatever the operations, all entries fit their names
and all functions have names of functions; and if variables are added only by
statements that the language reduces, all entries are computed ones. -/
theorem run_invariant (hinitial : initial.IsInitial) (ops : List Operation) :
    (initial.run ops).WellFormed ∧ (initial.OnlyComputes ops → (initial.run ops).Computed) :=
  ⟨hinitial.wellFormed.run ops, fun hops => Computed.run hinitial.computed hops⟩

/-- A session with a registration that is refused, a function of its own and a
script of which one statement fails. -/
theorem run_invariant_script :
    let ops : List Operation := [.statement reduce "$X=( 1 / 4 )", .register "$X" "seven",
      .registerFunction "#LAST" fun arguments => .ok (arguments.getLastD ""),
      .script reduce "// areas\n@A=[ 3,\u0664 ]\n$X=( 0 )\n$Y=( $X * A[0] )", .unregister "$X"]
    let store := Store.withBuiltins.run ops
    store.WellFormed ∧ store.Computed ∧ store.entries["$X"]? = none ∧
      store.entries["$Y"]? = some (.scalar "0.75") ∧
      store.entries["@A"]? = some (.array ["3", "\u0664"]) := by
  intro ops store
  have htaken : "$X" ∈ ((Operation.statement reduce "$X=( 1 / 4 )").apply .withBuiltins).entries := by
    decide +kernel
  have hops : Store.withBuiltins.OnlyComputes ops :=
    ⟨.inl rfl, .inr (Operation.addsNothing_register htaken), .inl trivial, .inl rfl, .inl trivial,
      trivial⟩
  obtain ⟨hfits, hcomputed⟩ := run_invariant (.inr rfl) ops
  exact ⟨hfits, hcomputed hops, by decide +kernel⟩

end Store

end ArithScript
