import Mathlib.Data.Set.Card
import ArithScript.Proofs.Locality
import ArithScript.Proofs.Repetition

/-!
# Histories of registrations

Of all that is done to a store only the registrations that succeed, and their reversals,
change what can be read from it. These are the events of a session (`Store.history`), and
a store is the replay of its events (`Event.Explains`). So what a name reads is decided by
the last event about it, and no other name has a part in this (`Store.run_reads`).
-/

namespace ArithScript

/-! ## Events -/

/-- A place of a store: a name in one of its two tables. -/
inductive Place where
  | entry (name : String)
  | function (name : String)

def Place.name : Place → String
  | entry name | function name => name

/-- A registration that succeeded, or the reversal of one. -/
inductive Event where
  | registered (name text : String)
  | unregistered (name : String)
  | functionRegistered (name : String) (routine : Routine)
  | functionUnregistered (name : String)

namespace Event

/-- The place that the event is about. -/
def place : Event → Place
  | registered name _ | unregistered name => .entry name
  | functionRegistered name _ | functionUnregistered name => .function name

/-- The event is the last one about its place. -/
def Last (events : List Event) (e : Event) : Prop :=
  ∃ before after, events = before ++ e :: after ∧ ∀ later ∈ after, later.place ≠ e.place

/-- The store after the event. -/
def apply (store : Store) : Event → Store
  | registered name text =>
    match Store.entryFor name text with
    | .ok entry => { store with entries := store.entries.insert name entry }
    | .error _ => store
  | unregistered name => { store with entries := store.entries.erase name }
  | functionRegistered name routine =>
    { store with functions := store.functions.insert name routine }
  | functionUnregistered name => { store with functions := store.functions.erase name }

/-- The store after the events, one after the other. -/
def replay (store : Store) (events : List Event) : Store := events.foldl apply store

/-- A text that is registered makes an entry. -/
def Valid : Event → Prop
  | registered name text => ∃ entry, Store.entryFor name text = .ok entry
  | _ => True

theorem Last.mem {events : List Event} {e : Event} (h : Last events e) : e ∈ events := by
  obtain ⟨before, after, rfl, -⟩ := h
  simp

theorem not_last_nil (e : Event) : ¬Last [] e := by
  rintro ⟨before, after, hsplit, -⟩
  exact absurd hsplit.symm (by simp)

/-- One more event is the last one about its place, and leaves the last ones about other
places what they are. -/
theorem last_append_singleton {events : List Event} {e e' : Event} :
    Last (events ++ [e]) e' ↔ e = e' ∨ (e.place ≠ e'.place ∧ Last events e') := by
  constructor
  · rintro ⟨before, after, hsplit, hafter⟩
    rcases List.eq_nil_or_concat after with rfl | ⟨after, last, rfl⟩
    · exact .inl (List.cons.inj (List.append_inj' hsplit rfl).2).1
    · rw [List.concat_eq_append, ← List.cons_append, ← List.append_assoc] at hsplit
      obtain ⟨hevents, hlast⟩ := List.append_inj' hsplit rfl
      obtain ⟨rfl, -⟩ := List.cons.inj hlast
      simp only [List.concat_eq_append, List.forall_mem_append] at hafter
      exact .inr ⟨hafter.2 e (List.mem_singleton_self e), before, after, hevents, hafter.1⟩
  · rintro (rfl | ⟨hplace, before, after, rfl, hafter⟩)
    · exact ⟨events, [], rfl, List.forall_mem_nil _⟩
    · refine ⟨before, after ++ [e], by simp, ?_⟩
      exact List.forall_mem_append.mpr ⟨hafter, List.forall_mem_singleton.mpr hplace⟩

/-! ## Replays -/

theorem replay_append (store : Store) (events events' : List Event) :
    replay store (events ++ events') = replay (replay store events) events' :=
  List.foldl_append

theorem replay_append_singleton (store : Store) (events : List Event) (e : Event) :
    replay store (events ++ [e]) = e.apply (replay store events) :=
  replay_append store events [e]

variable {store : Store} {events : List Event} {name : String}

/-- An entry is there after an event that registered it, or it was there before an event
about another place. -/
theorem entry_apply_iff {e : Event} (hvalid : e.Valid) {entry : Entry} :
    (e.apply store).entries[name]? = some entry ↔
      (∃ text, e = registered name text ∧ Store.entryFor name text = .ok entry) ∨
        (e.place ≠ .entry name ∧ store.entries[name]? = some entry) := by
  cases e with
  | registered target text =>
    obtain ⟨made, hmade⟩ := hvalid
    rw [apply, hmade]
    dsimp only [place]
    by_cases hname : target = name
    · subst hname
      simp [hmade]
    · simp [Std.ExtTreeMap.getElem?_insert, hname]
  | unregistered target =>
    rw [apply, place]
    by_cases hname : target = name
    · subst hname
      simp
    · simp [Std.ExtTreeMap.getElem?_erase, hname]
  | functionRegistered | functionUnregistered => simp [apply, place]

theorem function_apply_iff {e : Event} {routine : Routine} :
    (e.apply store).functions[name]? = some routine ↔ e = functionRegistered name routine ∨
      (e.place ≠ .function name ∧ store.functions[name]? = some routine) := by
  cases e with
  | registered target text =>
    rw [apply]
    split <;> simp [place]
  | unregistered target => simp [apply, place]
  | functionRegistered target new =>
    rw [apply, place]
    by_cases hname : target = name
    · subst hname
      simp
    · simp [Std.ExtTreeMap.getElem?_insert, hname]
  | functionUnregistered target =>
    rw [apply, place]
    by_cases hname : target = name
    · subst hname
      simp
    · simp [Std.ExtTreeMap.getElem?_erase, hname]

/-- An entry is there if the last event about its name registered a text that makes it. -/
theorem entry_replay_iff (hvalid : ∀ e ∈ events, e.Valid) {entry : Entry} :
    (replay .empty events).entries[name]? = some entry ↔
      ∃ text, Last events (registered name text) ∧ Store.entryFor name text = .ok entry := by
  induction events using List.reverseRecOn with
  | nil => simp [replay, Store.empty, not_last_nil]
  | append_singleton events e ih =>
    obtain ⟨hevents, hlast⟩ := List.forall_mem_append.mp hvalid
    rw [replay_append_singleton, entry_apply_iff (List.forall_mem_singleton.mp hlast), ih hevents]
    simp only [last_append_singleton]
    constructor
    · rintro (⟨text, he, hentry⟩ | ⟨hplace, text, htext, hentry⟩)
      · exact ⟨text, .inl he, hentry⟩
      · exact ⟨text, .inr ⟨hplace, htext⟩, hentry⟩
    · rintro ⟨text, he | ⟨hplace, htext⟩, hentry⟩
      · exact .inl ⟨text, he, hentry⟩
      · exact .inr ⟨hplace, text, htext, hentry⟩

/-- A function is there if the last event about its name registered it. -/
theorem function_replay_iff {routine : Routine} :
    (replay .empty events).functions[name]? = some routine ↔
      Last events (functionRegistered name routine) := by
  induction events using List.reverseRecOn with
  | nil => simp [replay, Store.empty, not_last_nil]
  | append_singleton events e ih =>
    rw [replay_append_singleton, function_apply_iff, ih, last_append_singleton]
    rfl

theorem apply_of_name_ne {e : Event} (h : e.place.name ≠ name) :
    (e.apply store).entries[name]? = store.entries[name]? ∧
      (e.apply store).functions[name]? = store.functions[name]? := by
  cases e with
  | registered target text =>
    have hne : target ≠ name := h
    rw [apply]
    split
    · exact ⟨by simp [Std.ExtTreeMap.getElem?_insert, hne], rfl⟩
    · exact ⟨rfl, rfl⟩
  | unregistered target =>
    have hne : target ≠ name := h
    exact ⟨by simp [apply, Std.ExtTreeMap.getElem?_erase, hne], rfl⟩
  | functionRegistered target routine =>
    have hne : target ≠ name := h
    exact ⟨rfl, by simp [apply, Std.ExtTreeMap.getElem?_insert, hne]⟩
  | functionUnregistered target =>
    have hne : target ≠ name := h
    exact ⟨rfl, by simp [apply, Std.ExtTreeMap.getElem?_erase, hne]⟩

/-- Events about other names leave what is under a name. -/
theorem replay_of_names_ne (h : ∀ e ∈ events, e.place.name ≠ name) :
    (replay store events).entries[name]? = store.entries[name]? ∧
      (replay store events).functions[name]? = store.functions[name]? := by
  induction events generalizing store with
  | nil => exact ⟨rfl, rfl⟩
  | cons e events ih =>
    obtain ⟨he, hevents⟩ := List.forall_mem_cons.mp h
    obtain ⟨hentry, hfunction⟩ := @apply_of_name_ne store name e he
    obtain ⟨hentries, hfunctions⟩ := @ih (e.apply store) hevents
    exact ⟨hentries.trans hentry, hfunctions.trans hfunction⟩

/-! ## Changes of a store -/

/-- The events are valid, and made the later store out of the earlier one. -/
structure Explains (events : List Event) (store store' : Store) : Prop where
  store_eq : store' = replay store events
  valid : ∀ e ∈ events, e.Valid

theorem Explains.nil (store : Store) : Explains [] store store := ⟨rfl, List.forall_mem_nil _⟩

theorem Explains.single {e : Event} (hvalid : e.Valid) (store : Store) :
    Explains [e] store (e.apply store) := ⟨rfl, List.forall_mem_singleton.mpr hvalid⟩

theorem Explains.append {events' : List Event} {store' store'' : Store}
    (h : Explains events store store') (h' : Explains events' store' store'') :
    Explains (events ++ events') store store'' :=
  ⟨by rw [replay_append, ← h.store_eq, h'.store_eq],
    List.forall_mem_append.mpr ⟨h.valid, h'.valid⟩⟩

/-- The event, if what it is about succeeded. -/
def ifDone {α : Type} (result : Except Error α) (e : Event) : List Event :=
  match result with
  | .ok _ => [e]
  | .error _ => []

theorem explains_ifDone {result : Except Error Store} {e : Event}
    (h : ∀ store', result = .ok store' → e.Valid ∧ store' = e.apply store) :
    Explains (ifDone result e) store (store.update result) := by
  cases result with
  | ok store' =>
    obtain ⟨hvalid, rfl⟩ := h store' rfl
    exact .single hvalid store
  | error error => exact .nil store

end Event

/-! ## Events of operations -/

open Event

/-- What a statement registers, given what it comes to. -/
def Form.events : Form → Except Error Value → List Event
  | scalarAssign target _, .ok value => [.registered target value.render]
  | arrayAssign target payload, .ok _ => [.registered target payload]
  | _, _ => []

def statementEvents (reducer : Reducer) (store : Store) (statement : String) : List Event :=
  match Line.parse statement with
  | .error _ => []
  | .ok line => line.form.events (line.evaluate reducer store).result

def Script.events (reducer : Reducer) : Store → List Statement → List Event
  | _, [] => []
  | store, statement :: rest =>
    statementEvents reducer store statement.text ++
      events reducer (evaluateStatement reducer store statement.text).2 rest

namespace Operation

/-- The registrations and reversals in an operation that succeed. -/
def events (store : Store) : Operation → List Event
  | register name text => ifDone (store.register name text) (.registered name text)
  | unregister name => ifDone (store.unregister name) (.unregistered name)
  | registerFunction name routine =>
    ifDone (store.registerFunction name routine) (.functionRegistered name routine)
  | unregisterFunction name => ifDone (store.unregisterFunction name) (.functionUnregistered name)
  | evaluate reducer line => line.val.form.events (line.val.evaluate reducer store).result
  | statement reducer text => statementEvents reducer store text
  | script reducer source => Script.events reducer store (Script.statements source)

/-- The names that the operation is about. -/
def names : Operation → List String
  | register name _ | unregister name => [name]
  | registerFunction name _ | unregisterFunction name => [name]
  | evaluate _ line => line.val.form.assigned?.toList
  | statement _ text => (assignedBy text).toList
  | script _ source => (Script.statements source).filterMap fun statement =>
      assignedBy statement.text

end Operation

/-- The events of the operations, one after the other. -/
def Store.history : Store → List Operation → List Event
  | _, [] => []
  | store, op :: ops => op.events store ++ history (op.apply store) ops

section Explanations

variable {store store' : Store}

theorem Store.register_explains {name text : String} (h : store.register name text = .ok store') :
    (Event.registered name text).Valid ∧ store' = (Event.registered name text).apply store := by
  obtain ⟨entry, hentry, -, rfl⟩ := register_eq_ok h
  exact ⟨⟨entry, hentry⟩, by rw [Event.apply, hentry]⟩

theorem Line.evaluate_explains (reducer : Reducer) (store : Store) (line : Line) :
    Explains (line.form.events (line.evaluate reducer store).result) store
      (line.evaluate reducer store).store := by
  unfold evaluate
  cases line.form with
  | plain symbols => exact .nil store
  | scalarAssign target symbols =>
    dsimp only
    split
    · exact .nil store
    · next n store' hregistered =>
      obtain ⟨n', -, hregistered⟩ := bind_eq_ok.mp hregistered
      obtain ⟨store'', hregistered, hpair⟩ := map_eq_ok.mp hregistered
      cases hpair
      obtain ⟨hvalid, rfl⟩ := Store.register_explains hregistered
      exact .single hvalid store
  | arrayAssign target payload =>
    dsimp only
    split
    · exact .nil store
    · next store' hregistered =>
      obtain ⟨hvalid, rfl⟩ := Store.register_explains hregistered
      exact .single hvalid store
  | call target argument => exact .nil store

theorem statement_explains (reducer : Reducer) (store : Store) (statement : String) :
    Explains (statementEvents reducer store statement) store
      (evaluateStatement reducer store statement).2 := by
  unfold statementEvents evaluateStatement
  cases Line.parse statement with
  | error error => exact .nil store
  | ok line => exact line.evaluate_explains reducer store

theorem Script.explains (reducer : Reducer) (store : Store) (statements : List Statement) :
    Explains (events reducer store statements) store
      (runStatements reducer store statements).2 := by
  induction statements generalizing store with
  | nil => exact .nil store
  | cons statement rest ih =>
    rw [runStatements_cons]
    exact (statement_explains reducer store statement.text).append (ih _)

theorem Operation.explains (store : Store) (op : Operation) :
    Explains (op.events store) store (op.apply store) := by
  cases op with
  | register name text => exact explains_ifDone fun _ => Store.register_explains
  | unregister name => exact explains_ifDone fun _ h => ⟨trivial, Store.unregister_eq_ok h⟩
  | registerFunction name routine =>
    exact explains_ifDone fun _ h => ⟨trivial, (Store.registerFunction_eq_ok h).2⟩
  | unregisterFunction name =>
    exact explains_ifDone fun _ h => ⟨trivial, Store.unregisterFunction_eq_ok h⟩
  | evaluate reducer line => exact line.val.evaluate_explains reducer store
  | statement reducer text => exact statement_explains reducer store text
  | script reducer source => exact Script.explains reducer store (Script.statements source)

/-- A store is the replay of the events of its session. -/
theorem Store.run_explains (store : Store) (ops : List Operation) :
    Explains (store.history ops) store (store.run ops) := by
  induction ops generalizing store with
  | nil => exact .nil store
  | cons op ops ih => exact (op.explains store).append (ih (op.apply store))

/-! ## Names of events -/

theorem Form.assigned_of_mem_events {form : Form} {result : Except Error Value} {e : Event}
    (h : e ∈ form.events result) : form.assigned? = some e.place.name := by
  cases result with
  | error error => cases form <;> cases h
  | ok value =>
    cases form with
    | plain | call => cases h
    | scalarAssign | arrayAssign =>
      cases List.mem_singleton.mp h
      rfl

theorem assignedBy_of_mem_events {reducer : Reducer} {statement : String} {e : Event}
    (h : e ∈ statementEvents reducer store statement) : assignedBy statement = some e.place.name := by
  unfold statementEvents at h
  split at h
  · cases h
  · next line hparse =>
    rw [assignedBy_eq hparse]
    exact Form.assigned_of_mem_events h

theorem Script.assignedBy_of_mem_events {reducer : Reducer} {statements : List Statement}
    {e : Event} (h : e ∈ events reducer store statements) :
    ∃ statement ∈ statements, assignedBy statement.text = some e.place.name := by
  induction statements generalizing store with
  | nil => cases h
  | cons statement rest ih =>
    rcases List.mem_append.mp h with h | h
    · exact ⟨statement, List.mem_cons_self, ArithScript.assignedBy_of_mem_events h⟩
    · obtain ⟨later, hlater, hassigned⟩ := ih h
      exact ⟨later, List.mem_cons_of_mem statement hlater, hassigned⟩

theorem Event.mem_ifDone {α : Type} {result : Except Error α} {e e' : Event}
    (h : e ∈ ifDone result e') : e = e' := by
  cases result with
  | ok value => exact List.mem_singleton.mp h
  | error error => cases h

/-- The events of an operation are about its names. -/
theorem Operation.mem_names {op : Operation} {e : Event} (h : e ∈ op.events store) :
    e.place.name ∈ op.names := by
  cases op with
  | register | unregister | registerFunction | unregisterFunction =>
    rw [Event.mem_ifDone h]
    exact List.mem_singleton_self _
  | evaluate reducer line =>
    rw [events] at h
    rw [names, Form.assigned_of_mem_events h]
    exact List.mem_singleton_self _
  | statement reducer text =>
    rw [events] at h
    rw [names, assignedBy_of_mem_events h]
    exact List.mem_singleton_self _
  | script reducer source =>
    rw [events] at h
    exact List.mem_filterMap.mpr (Script.assignedBy_of_mem_events h)

end Explanations

/-! ## Stores and their histories -/

namespace Store

/-- Under every name the store has what the last event about it says: the text that was
registered, or nothing. -/
structure Reads (store : Store) (history : List Event) : Prop where
  scalar : ∀ (letters : Letters) (text : String), store.value (letters.named '$') = .ok text ↔
    Last history (.registered (letters.named '$') text)
  noScalar : ∀ letters : Letters, (∀ text, ¬Last history (.registered (letters.named '$') text)) →
    store.value (letters.named '$') = .error (.notFound (letters.named '$'))
  array : ∀ (letters : Letters) (values : List String),
    store.arrayValues (letters.named '@') = .ok values ↔
      ∃ text, Last history (.registered (letters.named '@') text) ∧
        Text.pieces ',' text = values ∧ ",".intercalate values = text
  noArray : ∀ letters : Letters, (∀ text, ¬Last history (.registered (letters.named '@') text)) →
    store.arrayValues (letters.named '@') = .error (.notFound (letters.named '@'))
  function : ∀ letters : Letters, store.hasFunction (letters.named '#') = true ↔
    ∃ routine, Last history (.functionRegistered (letters.named '#') routine)
  contains : ∀ name, store.contains name = true ↔ ∃ text, Last history (.registered name text)
  size : (store.size : ℕ∞) = {name | ∃ text, Last history (.registered name text)}.encard

/-- The text can be registered under the name: any text under that of a scalar, and a list
without empty elements under that of an array. -/
inductive Accepts (name text : String) : Prop
  | scalar (shape : Name.shape? name = some .scalar)
  | array (shape : Name.shape? name = some .array) (elements : "" ∉ Text.pieces ',' text)

/-- Whatever is read under the name is the same in both stores: of a scalar its value, of
an array all values and every element, and of a function whether there is one. -/
structure SameUnder (name : String) (store store' : Store) : Prop where
  contains : store'.contains name = store.contains name
  scalar : Name.shape? name = some .scalar → store'.value name = store.value name
  array : store'.arrayValues name = store.arrayValues name
  element : ∀ {element position : String}, Name.shape? element = some (.element name position) →
    store'.value element = store.value element
  function : store'.hasFunction name = store.hasFunction name

section Lookups

variable {store : Store} {name text : String}

theorem sameUnder_of_eq {store' : Store} (hentries : store'.entries[name]? = store.entries[name]?)
    (hfunctions : store'.functions[name]? = store.functions[name]?) :
    SameUnder name store store' where
  contains := by
    rw [contains, contains, Std.ExtTreeMap.contains_eq_isSome_getElem?, hentries,
      Std.ExtTreeMap.contains_eq_isSome_getElem?]
  scalar hname := value_congr_scalar hname hentries
  array := arrayValues_congr hentries
  element helement := value_congr_element helement hentries
  function := hasFunction_congr hfunctions

/-! ## Registering again -/

theorem Accepts.exists_entry (h : Accepts name text) : ∃ entry, entryFor name text = .ok entry := by
  cases h with
  | scalar shape => exact ⟨.scalar text, entryFor_scalar shape text⟩
  | array shape elements =>
    refine ⟨.array (Text.pieces ',' text), ?_⟩
    unfold entryFor
    rw [shape]
    exact if_neg elements

theorem Accepts.unregister (h : Accepts name text) (store : Store) :
    store.unregister name = .ok { store with entries := store.entries.erase name } := by
  unfold Store.unregister
  cases h with
  | scalar shape => rw [shape]
  | array shape elements => rw [shape]

theorem exists_register (h : Accepts name text) (hfree : name ∉ store.entries) :
    ∃ store', store.register name text = .ok store' := by
  obtain ⟨entry, hentry⟩ := h.exists_entry
  unfold register
  rw [hentry]
  exact ⟨_, if_neg hfree⟩

end Lookups

/-! ## Reading a replay -/

variable {store : Store} {history : List Event}

theorem encard_keys {α : Type} (table : Std.ExtTreeMap String α) :
    (table.size : ℕ∞) = {name | name ∈ table}.encard := by
  have hkeys : {name | name ∈ table} = (table.keys.toFinset : Set String) := by
    ext name
    simp
  rw [hkeys, Set.encard_coe_eq_coe_finsetCard, List.toFinset_card_of_nodup
    Std.ExtTreeMap.nodup_keys, Std.ExtTreeMap.length_keys]

variable (h : Explains history .empty store)
include h

theorem mem_iff_last {name : String} :
    name ∈ store.entries ↔ ∃ text, Last history (.registered name text) := by
  rw [Std.ExtTreeMap.mem_iff_isSome_getElem?, Option.isSome_iff_exists, h.store_eq]
  simp only [entry_replay_iff h.valid]
  constructor
  · rintro ⟨entry, text, htext, -⟩
    exact ⟨text, htext⟩
  · rintro ⟨text, htext⟩
    obtain ⟨entry, hentry⟩ := h.valid _ htext.mem
    exact ⟨entry, text, htext, hentry⟩

theorem reads_of_explains : store.Reads history where
  scalar letters text := by
    have hname := Name.shape?_of_hasShape (.scalar letters)
    rw [value_scalar_iff hname, h.store_eq, entry_replay_iff h.valid]
    simp [entryFor_scalar hname]
  noScalar letters hnone := by
    refine value_of_not_mem (Name.shape?_of_hasShape (.scalar letters)) ?_
    rw [mem_iff_last h]
    exact not_exists.mpr hnone
  array letters values := by
    have hname := Name.shape?_of_hasShape (.array letters)
    rw [arrayValues_iff hname, h.store_eq, entry_replay_iff h.valid]
    constructor
    · rintro ⟨text, htext, hentry⟩
      cases entryFor_array hname hentry
      exact ⟨text, htext, rfl, Text.intercalate_pieces ',' text⟩
    · rintro ⟨text, htext, rfl, -⟩
      obtain ⟨entry, hentry⟩ := h.valid _ htext.mem
      rw [entryFor_array hname hentry] at hentry
      exact ⟨text, htext, hentry⟩
  noArray letters hnone := by
    refine arrayValues_of_not_mem (Name.shape?_of_hasShape (.array letters)) ?_
    rw [mem_iff_last h]
    exact not_exists.mpr hnone
  function letters := by
    rw [hasFunction, Std.ExtTreeMap.contains_eq_isSome_getElem?, Option.isSome_iff_exists,
      h.store_eq]
    simp only [function_replay_iff]
  contains name := by
    rw [Store.contains, ← Std.ExtTreeMap.mem_iff_contains, mem_iff_last h]
  size := by
    rw [Store.size, encard_keys]
    simp only [mem_iff_last h]

end Store

/-- **A store and its history**: what is read under a name was registered by the last
successful operation about it, and a name is not found if that operation freed it or there
was none. A name that is held cannot be registered until it is freed, and operations about
other names make no difference to it. -/
theorem Store.run_reads (ops : List Operation) :
    let store := Store.empty.run ops
    let history := Store.empty.history ops
    store.Reads history ∧
      (∀ name text, Accepts name text → (∃ held, Last history (.registered name held)) →
        store.register name text = .error (.duplicateName name) ∧
          (Operation.register name text).apply store = store ∧
          ∃ freed renewed, store.unregister name = .ok freed ∧
            freed.register name text = .ok renewed) ∧
      ∀ (op : Operation) (name : String), name ∉ op.names →
        SameUnder name store (op.apply store) := by
  intro store history
  have hexplains : Explains history .empty store := run_explains .empty ops
  refine ⟨reads_of_explains hexplains, fun name text haccepts hheld => ?_, fun op name hname => ?_⟩
  · obtain ⟨entry, hentry⟩ := haccepts.exists_entry
    have htaken : store.register name text = .error (.duplicateName name) :=
      register_taken hentry ((mem_iff_last hexplains).mpr hheld)
    obtain ⟨renewed, hrenewed⟩ := @exists_register
      { store with entries := store.entries.erase name } name text haccepts (by simp)
    refine ⟨htaken, ?_, _, renewed, haccepts.unregister store, hrenewed⟩
    rw [Operation.apply, htaken, update]
  · have hsame := @replay_of_names_ne store (op.events store) name fun e he heq =>
      hname (heq ▸ Operation.mem_names he)
    rw [← (op.explains store).store_eq] at hsame
    exact sameUnder_of_eq hsame.1 hsame.2

/-- A name that is taken, freed and assigned again, a list that is refused, and an array
and a function with the same letters. -/
theorem Store.run_reads_letters :
    let ops : List Operation := [.register "$X" "1", .register "$X" "2", .unregister "$X",
      .statement reduce "$X=( 1 + 2 )", .register "@X" "4,,5", .statement reduce "@X=[ 4,5 ]",
      .registerFunction "#X" Builtin.count]
    let store := Store.empty.run ops
    let history := Store.empty.history ops
    store.value "$X" = .ok "3" ∧ Last history (.registered "$X" "3") ∧
      (∃ text, Last history (.registered "@X" text) ∧ Text.pieces ',' text = ["4", "5"] ∧
        ",".intercalate ["4", "5"] = text) ∧
      store.register "$X" "4" = .error (.duplicateName "$X") ∧
      SameUnder "$X" store ((Operation.unregister "@X").apply store) := by
  intro ops store history
  obtain ⟨hreads, htaken, hothers⟩ := run_reads ops
  obtain ⟨letters, hscalar, harray⟩ : ∃ letters : Letters,
      letters.named '$' = "$X" ∧ letters.named '@' = "@X" :=
    ⟨⟨['X'], by decide, List.forall_mem_singleton.mpr rfl⟩, rfl, rfl⟩
  have hvalue : store.value "$X" = .ok "3" := eq_ok_of_toOption (by decide +kernel)
  have hvalues : store.arrayValues "@X" = .ok ["4", "5"] := eq_ok_of_toOption (by decide +kernel)
  have hlast : Last history (.registered "$X" "3") := by
    have hiff := hreads.scalar letters "3"
    rw [hscalar] at hiff
    exact hiff.mp hvalue
  have hlist := hreads.array letters ["4", "5"]
  rw [harray] at hlist
  exact ⟨hvalue, hlast, hlist.mp hvalues, (htaken "$X" "4" (.scalar (by decide)) ⟨"3", hlast⟩).1,
    hothers (.unregister "@X") "$X" (by decide)⟩

end ArithScript
