import Std.Data.ExtTreeMap.Lemmas
import ArithScript.Proofs.Lines

/-!
# Effects of statements

A statement that fails leaves the store as it was. One that comes to a value
changes nothing either, or adds the one binding that its form describes
(`Line.Effect`), under a name that was free. The reducer has no part in this,
so it may be any function at all.
-/

namespace ArithScript

/-! ## Registration -/

namespace Store

theorem register_eq_ok {store store' : Store} {name value : String}
    (h : store.register name value = .ok store') :
    ∃ entry, entryFor name value = .ok entry ∧ name ∉ store.entries ∧
      store' = { store with entries := store.entries.insert name entry } := by
  unfold register at h
  cases hentry : entryFor name value with
  | error e =>
    rw [hentry] at h
    cases h
  | ok entry =>
    rw [hentry] at h
    dsimp only at h
    by_cases hmem : name ∈ store.entries
    · rw [if_pos hmem] at h
      cases h
    · rw [if_neg hmem] at h
      cases h
      exact ⟨entry, rfl, hmem, rfl⟩

theorem entryFor_error {name value : String} {error : Error}
    (h : entryFor name value = .error error) :
    error = .invalidName name ∨ error = .malformedSeparator value := by
  unfold entryFor at h
  split at h
  · cases h
  · dsimp only at h
    split at h <;> cases h
    exact .inr rfl
  · cases h
    exact .inl rfl

theorem register_error {store : Store} {name value : String} {error : Error}
    (h : store.register name value = .error error) :
    error = .invalidName name ∨ error = .malformedSeparator value ∨ error = .duplicateName name := by
  unfold register at h
  cases hentry : entryFor name value with
  | error e =>
    rw [hentry] at h
    cases h
    rcases entryFor_error hentry with he | he
    · exact .inl he
    · exact .inr (.inl he)
  | ok entry =>
    rw [hentry] at h
    dsimp only at h
    by_cases hmem : name ∈ store.entries
    · rw [if_pos hmem] at h
      cases h
      exact .inr (.inr rfl)
    · rw [if_neg hmem] at h
      cases h

theorem entryFor_scalar {name : String} (h : Name.shape? name = some .scalar) (value : String) :
    entryFor name value = .ok (.scalar value) := by
  unfold entryFor
  rw [h]

theorem entryFor_array {name value : String} {entry : Entry} (h : Name.shape? name = some .array)
    (hentry : entryFor name value = .ok entry) : entry = .array (Text.pieces ',' value) := by
  unfold entryFor at hentry
  rw [h] at hentry
  dsimp only at hentry
  split at hentry <;> cases hentry
  rfl

/-! ## Lookups -/

section Lookups

variable {store : Store} {name text : String}

theorem value_scalar_iff (hname : Name.shape? name = some .scalar) :
    store.value name = .ok text ↔ store.entries[name]? = some (.scalar text) := by
  unfold value
  rw [hname]
  dsimp only
  cases store.entries[name]? with
  | none => simp
  | some entry => cases entry <;> simp

theorem arrayValues_iff (hname : Name.shape? name = some .array) {values : List String} :
    store.arrayValues name = .ok values ↔ store.entries[name]? = some (.array values) := by
  unfold arrayValues
  rw [if_pos hname]
  cases store.entries[name]? with
  | none => simp
  | some entry => cases entry <;> simp

theorem value_of_not_mem (hname : Name.shape? name = some .scalar) (h : name ∉ store.entries) :
    store.value name = .error (.notFound name) := by
  unfold value
  rw [hname, getElem?_neg store.entries name h]

theorem arrayValues_of_not_mem (hname : Name.shape? name = some .array) (h : name ∉ store.entries) :
    store.arrayValues name = .error (.notFound name) := by
  unfold arrayValues
  rw [if_pos hname, getElem?_neg store.entries name h]

end Lookups

/-! ## Functions -/

theorem hasFunction_congr {store store' : Store} {name : String}
    (h : store.functions[name]? = store'.functions[name]?) :
    store.hasFunction name = store'.hasFunction name := by
  rw [hasFunction, hasFunction, Std.ExtTreeMap.contains_eq_isSome_getElem?, h,
    Std.ExtTreeMap.contains_eq_isSome_getElem?]

theorem call_congr {store store' : Store} {name : String}
    (h : store.functions[name]? = store'.functions[name]?) (arguments : List String) :
    store.call name arguments = store'.call name arguments := by
  unfold call
  rw [h]

end Store

/-! ## Statements that come to a value -/

namespace Line

/-- What a statement of a form does to a store when it comes to a value. -/
inductive Effect (store : Store) : Form → Value → Store → Prop
  | plain (symbols : List Symbol) (n : Binary64) : Effect store (.plain symbols) (.number n) store
  | scalarAssign {target : String} (symbols : List Symbol) (n : Binary64)
      (free : target ∉ store.entries) :
      Effect store (.scalarAssign target symbols) (.number n)
        { store with entries := store.entries.insert target (.scalar (Value.number n).render) }
  | arrayAssign {target : String} (payload : String) (free : target ∉ store.entries) :
      Effect store (.arrayAssign target payload) .nop
        { store with entries := store.entries.insert target (.array (Text.pieces ',' payload)) }
  | call (target argument result : String) :
      Effect store (.call target argument) (.text result) store

/-- What evaluation may come to: an error and the same store, or a value with
the effect of the form. -/
def Outcome (store : Store) (form : Form) (evaluated : Evaluated) : Prop :=
  match evaluated.result with
  | .error _ => evaluated.store = store
  | .ok value => Effect store form value evaluated.store

variable {store : Store} {line : Line} {reducer : Reducer}

theorem evaluate_plain {symbols : List Symbol} (hform : line.form = .plain symbols) :
    Outcome store line.form (line.evaluate reducer store) := by
  unfold evaluate
  rw [hform]
  dsimp only [Outcome]
  cases (line.reduceWith reducer store).1 with
  | error e => rfl
  | ok n => exact .plain symbols n

theorem evaluate_scalarAssign {target : String} {symbols : List Symbol}
    (hform : line.form = .scalarAssign target symbols) (htarget : line.form.TargetFits) :
    Outcome store line.form (line.evaluate reducer store) := by
  rw [hform] at htarget
  unfold evaluate
  rw [hform]
  dsimp only
  split
  · exact rfl
  · next n store' hregistered =>
    obtain ⟨n', -, hregistered⟩ := bind_eq_ok.mp hregistered
    obtain ⟨store'', hregistered, hpair⟩ := map_eq_ok.mp hregistered
    cases hpair
    obtain ⟨entry, hentry, hfree, rfl⟩ := Store.register_eq_ok hregistered
    rw [Store.entryFor_scalar htarget] at hentry
    cases hentry
    exact .scalarAssign symbols n hfree

theorem evaluate_arrayAssign {target payload : String}
    (hform : line.form = .arrayAssign target payload) (htarget : line.form.TargetFits) :
    Outcome store line.form (line.evaluate reducer store) := by
  rw [hform] at htarget
  unfold evaluate
  rw [hform]
  dsimp only
  split
  · exact rfl
  · next store' hregistered =>
    obtain ⟨entry, hentry, hfree, rfl⟩ := Store.register_eq_ok hregistered
    cases Store.entryFor_array htarget hentry
    exact .arrayAssign payload hfree

theorem evaluate_call {target argument : String} (hform : line.form = .call target argument) :
    Outcome store line.form (line.evaluate reducer store) := by
  unfold evaluate
  rw [hform]
  dsimp only [Outcome]
  generalize (if store.hasFunction target = true then _ else _ : Except Error String) = result
  cases result with
  | error e => rfl
  | ok text => exact .call target argument text

theorem evaluate_outcome (htarget : line.form.TargetFits) :
    Outcome store line.form (line.evaluate reducer store) := by
  cases hform : line.form with
  | plain symbols => exact hform ▸ evaluate_plain hform
  | scalarAssign target symbols => exact hform ▸ evaluate_scalarAssign hform htarget
  | arrayAssign target payload => exact hform ▸ evaluate_arrayAssign hform htarget
  | call target argument => exact hform ▸ evaluate_call hform

/-! ## Results and additions -/

/-- What a line comes to, form by form. Of the store that a registration makes only
its success counts. -/
theorem evaluate_result (reducer : Reducer) (store : Store) (line : Line) :
    (line.evaluate reducer store).result =
      match line.form with
      | .plain _ => (line.reduceWith reducer store).1.map .number
      | .scalarAssign target _ => (line.reduceWith reducer store).1.bind fun n =>
          (store.register target n.text).map fun _ => .number n
      | .arrayAssign target payload => (store.register target payload).map fun _ => .nop
      | .call target argument =>
        (if store.hasFunction target then
          (store.arguments argument).bind fun arguments => store.call target arguments
        else .error (.notFound target)).map .text := by
  unfold evaluate
  cases line.form with
  | plain symbols => rfl
  | scalarAssign target symbols =>
    dsimp only
    cases (line.reduceWith reducer store).1 with
    | error e => rfl
    | ok n =>
      simp only [Except.bind]
      cases store.register target n.text <;> rfl
  | arrayAssign target payload =>
    dsimp only
    cases store.register target payload <;> rfl
  | call target argument => rfl

end Line

/-- The name that a statement registers. -/
def Form.assigned? : Form → Option String
  | plain _ | call _ _ => none
  | scalarAssign target _ | arrayAssign target _ => some target

/-- The name that a statement registers, written out. One that is not parsed registers
none. -/
def assignedBy (statement : String) : Option String :=
  (Line.parse statement).toOption.bind fun line => line.form.assigned?

theorem assignedBy_eq {statement : String} {line : Line} (h : Line.parse statement = .ok line) :
    assignedBy statement = line.form.assigned? := by
  rw [assignedBy, h]
  rfl

/-- What a statement adds to the store, given what it comes to. -/
def Form.added : Form → Except Error Value → Option (String × Entry)
  | scalarAssign target _, .ok value => some (target, .scalar value.render)
  | arrayAssign target payload, .ok _ => some (target, .array (Text.pieces ',' payload))
  | _, _ => none

/-- The store with one more entry, or as it is. -/
def Store.add (store : Store) : Option (String × Entry) → Store
  | none => store
  | some (name, entry) => { store with entries := store.entries.insert name entry }

/-- A statement registers the name it assigns if it comes to a value, and nothing
else. -/
theorem Form.name_of_added {form : Form} {result : Except Error Value} {name : String}
    {entry : Entry} (h : form.added result = some (name, entry)) :
    form.assigned? = some name ∧ ∃ value, result = .ok value := by
  cases result with
  | error e => cases form <;> cases h
  | ok value =>
    cases form with
    | plain | call => cases h
    | scalarAssign | arrayAssign =>
      cases h
      exact ⟨rfl, value, rfl⟩

theorem Form.added_eq_none {form : Form} {result : Except Error Value}
    (h : form.assigned? = none ∨ ∃ error, result = .error error) : form.added result = none := by
  rw [Option.eq_none_iff_forall_ne_some]
  rintro ⟨name, entry⟩ hadded
  obtain ⟨hname, value, rfl⟩ := name_of_added hadded
  rcases h with h | ⟨error, h⟩
  · rw [h] at hname
    cases hname
  · cases h

namespace Line

variable {store : Store} {line : Line} {reducer : Reducer}

/-- The store after a line is the store before it and what the line adds, and what
it adds is under a name that was free. -/
theorem evaluate_store_eq (htarget : line.form.TargetFits) :
    (line.evaluate reducer store).store =
        store.add (line.form.added (line.evaluate reducer store).result) ∧
      ∀ {name : String} {entry : Entry},
        line.form.added (line.evaluate reducer store).result = some (name, entry) →
          name ∉ store.entries := by
  have houtcome : Outcome store line.form (line.evaluate reducer store) := evaluate_outcome htarget
  unfold Outcome at houtcome
  split at houtcome
  · next e hresult =>
    rw [hresult, Form.added_eq_none (.inr ⟨e, rfl⟩)]
    exact ⟨houtcome, fun h => nomatch h⟩
  · next value hresult =>
    rw [hresult]
    generalize line.form = form, (line.evaluate reducer store).store = store' at houtcome
    cases houtcome with
    | plain | call => exact ⟨rfl, fun h => nomatch h⟩
    | scalarAssign symbols n free =>
      refine ⟨rfl, fun h => ?_⟩
      cases h
      exact free
    | arrayAssign payload free =>
      refine ⟨rfl, fun h => ?_⟩
      cases h
      exact free

/-! ## What every statement keeps -/

theorem Effect.functions_eq {form : Form} {value : Value} {store' : Store}
    (h : Effect store form value store') : store'.functions = store.functions := by
  cases h <;> rfl

theorem entry_insert {name target : String} {entry new : Entry} (free : target ∉ store.entries)
    (h : store.entries[name]? = some entry) :
    (store.entries.insert target new)[name]? = some entry := by
  have hne : target ≠ name := by
    rintro rfl
    exact free (Std.ExtTreeMap.mem_iff_isSome_getElem?.mpr (by rw [h]; rfl))
  rw [Std.ExtTreeMap.getElem?_insert]
  simp [hne, h]

theorem Effect.entry_eq {form : Form} {value : Value} {store' : Store}
    (h : Effect store form value store') {name : String} {entry : Entry}
    (hentry : store.entries[name]? = some entry) : store'.entries[name]? = some entry := by
  cases h with
  | plain | call => exact hentry
  | scalarAssign symbols n free => exact entry_insert free hentry
  | arrayAssign payload free => exact entry_insert free hentry

/-- Evaluation of a line fails and leaves the store alone, or has the effect of
the line's form; in either case no binding and no function is lost. -/
theorem evaluate_effect (hline : line.Reachable) (reducer : Reducer) (store : Store) :
    Outcome store line.form (line.evaluate reducer store) ∧
      (∀ (name : String) (entry : Entry), store.entries[name]? = some entry →
        (line.evaluate reducer store).store.entries[name]? = some entry) ∧
      (line.evaluate reducer store).store.functions = store.functions := by
  have houtcome : Outcome store line.form (line.evaluate reducer store) :=
    evaluate_outcome hline.wellFormed.target
  refine ⟨houtcome, ?_⟩
  unfold Outcome at houtcome
  split at houtcome
  · rw [houtcome]
    exact ⟨fun _ _ h => h, rfl⟩
  · exact ⟨fun name entry h => houtcome.entry_eq h, houtcome.functions_eq⟩

/-- A line that was resolved in one store and is evaluated in another, which
binds none of the names in it. -/
theorem evaluate_effect_stale :
    let line : Line := ⟨.scalarAssign "$Y"
      [.scalar ⟨"$X", some "5"⟩, .operator "-", .scalar ⟨"$Z", some "-3"⟩], true⟩
    let evaluated := line.evaluate reduce .empty
    line.Reachable ∧ Outcome .empty line.form evaluated ∧
      evaluated.store.functions = Store.empty.functions ∧
      evaluated.store.entries["$Y"]? = some (.scalar "8") := by
  intro line evaluated
  let bound : Store := ⟨.ofList [("$X", Entry.scalar "5"), ("$Z", Entry.scalar "-3")], ∅⟩
  have hparse : Line.parse "$Y=( $X - $Z )" = .ok ⟨.scalarAssign "$Y"
      [.scalar ⟨"$X", none⟩, .operator "-", .scalar ⟨"$Z", none⟩], false⟩ := by rfl
  have hline : line.Reachable := .resolve bound (.parse hparse) (by rfl)
  obtain ⟨houtcome, -, hfunctions⟩ := evaluate_effect hline reduce .empty
  exact ⟨hline, houtcome, hfunctions, by decide +kernel⟩

end Line

end ArithScript
