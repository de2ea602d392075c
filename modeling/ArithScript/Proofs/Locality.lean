import ArithScript.Proofs.Failures

/-!
# What a statement depends on

A statement reads and registers only variables that it mentions, and of the
functions it uses the one that it calls. In two stores that agree on these
(`Form.Agrees`) it comes to the same and adds the same. So two statements of which
neither registers a name that the other one mentions (`Form.Independent`) can be
evaluated in either order (`Line.evaluate_local`).
-/

namespace ArithScript

/-! ## Mentioned names -/

/-- The variable that a symbol reads. An element is read from its array. -/
def Symbol.mentioned? : Symbol → Option String
  | number _ | operator _ => none
  | scalar r => some r.name
  | element r =>
    match Name.shape? r.name with
    | some (.element array _) => some array
    | _ => none

namespace Form

/-- The variables that a statement reads or registers. -/
def mentioned : Form → List String
  | plain symbols => symbols.filterMap Symbol.mentioned?
  | scalarAssign target symbols => target :: symbols.filterMap Symbol.mentioned?
  | arrayAssign target _ => [target]
  | call _ argument => [argument]

def called? : Form → Option String
  | plain _ | scalarAssign _ _ | arrayAssign _ _ => none
  | call target _ => some target

/-- The stores have the same under every name that the form mentions or calls. -/
structure Agrees (form : Form) (store store' : Store) : Prop where
  entries : ∀ name ∈ form.mentioned, store.entries[name]? = store'.entries[name]?
  functions : ∀ name, form.called? = some name → store.functions[name]? = store'.functions[name]?

/-- Neither form registers a name that the other one mentions. -/
structure Independent (form form' : Form) : Prop where
  left : ∀ name, form.assigned? = some name → name ∉ form'.mentioned
  right : ∀ name, form'.assigned? = some name → name ∉ form.mentioned

theorem mentioned_of_assigned {form : Form} {name : String} (h : form.assigned? = some name) :
    name ∈ form.mentioned := by
  cases form with
  | plain | call => cases h
  | scalarAssign | arrayAssign =>
    cases h
    exact List.mem_cons_self

theorem mentioned_of_symbol {form : Form} {s : Symbol} (hs : s ∈ form.symbols) {name : String}
    (h : s.mentioned? = some name) : name ∈ form.mentioned := by
  cases form with
  | plain symbols => exact List.mem_filterMap.mpr ⟨s, hs, h⟩
  | scalarAssign target symbols =>
    exact List.mem_cons_of_mem target (List.mem_filterMap.mpr ⟨s, hs, h⟩)
  | arrayAssign | call => cases hs

/-- What is added under a name that the form does not mention makes no difference to
it. -/
theorem agrees_add {form : Form} {store : Store} {added : Option (String × Entry)}
    (h : ∀ name entry, added = some (name, entry) → name ∉ form.mentioned) :
    form.Agrees store (store.add added) := by
  match added with
  | none => exact ⟨fun _ _ => rfl, fun _ _ => rfl⟩
  | some (target, entry) =>
    refine ⟨fun name hname => ?_, fun _ _ => rfl⟩
    have hne : target ≠ name := by
      rintro rfl
      exact h target entry rfl hname
    rw [Store.add, Std.ExtTreeMap.getElem?_insert]
    simp [hne]

end Form

/-! ## Stores that agree on a name -/

namespace Store

variable {store store' : Store} {name : String}

theorem arrayValues_congr (h : store.entries[name]? = store'.entries[name]?) :
    store.arrayValues name = store'.arrayValues name := by
  unfold arrayValues
  rw [h]

theorem value_congr_scalar (hname : Name.shape? name = some .scalar)
    (h : store.entries[name]? = store'.entries[name]?) : store.value name = store'.value name := by
  unfold value
  rw [hname]
  dsimp only
  rw [h]

theorem value_congr_element {array position : String}
    (hname : Name.shape? name = some (.element array position))
    (h : store.entries[array]? = store'.entries[array]?) :
    store.value name = store'.value name := by
  unfold value
  rw [hname]
  dsimp only
  rw [arrayValues_congr h]

theorem arguments_congr (argument : Argument)
    (h : store.entries[argument.name]? = store'.entries[argument.name]?) :
    store.arguments argument.name = store'.arguments argument.name := by
  obtain ⟨sigil, rfl | rfl, letters⟩ := argument
  · have hvalue := value_congr_scalar (Name.shape?_of_hasShape (.scalar letters)) h
    unfold arguments
    rw [arrayValues_congr h, Argument.name, hvalue]
  · have hhead : (letters.named '@').toList.head? = some '@' := by
      rw [Letters.toList_named]
      rfl
    unfold arguments
    rw [arrayValues_congr h, Argument.name, if_pos hhead, if_pos hhead]

/-- Whether a registration is refused, and why, depends on its name alone. -/
theorem register_congr {α : Type} (h : store.entries[name]? = store'.entries[name]?)
    (value : String) (result : α) :
    ((store.register name value).map fun _ => result) =
      (store'.register name value).map fun _ => result := by
  have hmem : name ∈ store.entries ↔ name ∈ store'.entries := by
    rw [Std.ExtTreeMap.mem_iff_isSome_getElem?, h, Std.ExtTreeMap.mem_iff_isSome_getElem?]
  unfold register
  cases entryFor name value with
  | error e => rfl
  | ok entry =>
    dsimp only
    by_cases htaken : name ∈ store.entries
    · rw [if_pos htaken, if_pos (hmem.mp htaken)]
    · rw [if_neg htaken, if_neg fun htaken' => htaken (hmem.mpr htaken')]
      rfl

/-- Additions under different names can change places. -/
theorem add_comm {added added' : Option (String × Entry)}
    (h : ∀ name entry name' entry', added = some (name, entry) → added' = some (name', entry') →
      name ≠ name') : (store.add added).add added' = (store.add added').add added := by
  match added, added' with
  | none, _ => rfl
  | some _, none => rfl
  | some (name, entry), some (name', entry') =>
    have hne : name ≠ name' := h name entry name' entry' rfl rfl
    simp only [add, Store.mk.injEq, and_true]
    refine Std.ExtTreeMap.ext_getElem? fun k => ?_
    simp only [Std.ExtTreeMap.getElem?_insert]
    split
    · next hk' =>
      obtain rfl : name' = k := by simpa using hk'
      simp [hne]
    · rfl

end Store

/-! ## Statements in stores that agree -/

namespace Line

variable {store store' : Store} {reducer : Reducer} {line line' : Line}

theorem resolve_symbol_congr {s : Symbol} (hs : s.Named)
    (h : ∀ name, s.mentioned? = some name → store.entries[name]? = store'.entries[name]?) :
    s.resolve store = s.resolve store' := by
  cases s with
  | number | operator => rfl
  | scalar r => rw [Symbol.resolve, Symbol.resolve, Store.value_congr_scalar hs (h r.name rfl)]
  | element r =>
    obtain ⟨array, position, hshape⟩ := hs
    have hmentioned : (Symbol.element r).mentioned? = some array := by
      rw [Symbol.mentioned?, hshape]
    rw [Symbol.resolve, Symbol.resolve, Store.value_congr_element hshape (h array hmentioned)]

theorem reduceWith_congr (hnamed : ∀ s ∈ line.form.symbols, s.Named)
    (h : line.form.Agrees store store') :
    line.reduceWith reducer store = line.reduceWith reducer store' := by
  have hsymbols : line.form.symbols.mapM (Symbol.resolve store) =
      line.form.symbols.mapM (Symbol.resolve store') :=
    mapM_congr fun s hs => resolve_symbol_congr (hnamed s hs) fun name hname =>
      h.entries name (Form.mentioned_of_symbol hs hname)
  have hresolve : line.resolve store = line.resolve store' := by
    rw [resolve, resolve, Form.resolve_eq, Form.resolve_eq, hsymbols]
  rw [reduceWith, reduceWith, hresolve]

/-- What a parsed statement comes to depends on the names it mentions and calls. -/
theorem evaluate_congr {statement : String} (hline : parse statement = .ok line)
    (h : line.form.Agrees store store') :
    (line.evaluate reducer store).result = (line.evaluate reducer store').result := by
  obtain ⟨-, hderives⟩ := parse_eq_ok_iff.mp hline
  have hreduce : line.reduceWith reducer store = line.reduceWith reducer store' :=
    reduceWith_congr hderives.named h
  rw [evaluate_result, evaluate_result, hreduce]
  cases hform : line.form with
  | plain symbols => rfl
  | scalarAssign target symbols =>
    rw [hform] at h
    have hregister (n : Binary64) :
        ((store.register target n.text).map fun _ => Value.number n) =
          (store'.register target n.text).map fun _ => .number n :=
      Store.register_congr (h.entries target List.mem_cons_self) n.text _
    simp only [hregister]
  | arrayAssign target payload =>
    rw [hform] at h
    exact Store.register_congr (h.entries target List.mem_cons_self) payload Value.nop
  | call target argument =>
    rw [hform] at h
    obtain ⟨a, rfl⟩ := hderives.exists_argument hform
    have htarget := h.functions target rfl
    simp only [Store.hasFunction_congr htarget, Store.call_congr htarget,
      Store.arguments_congr a (h.entries a.name List.mem_cons_self)]

/-- What a statement adds makes no difference to one that does not mention it. -/
theorem agrees_added {result : Except Error Value}
    (h : ∀ name, line'.form.assigned? = some name → name ∉ line.form.mentioned) :
    line.form.Agrees store (store.add (line'.form.added result)) :=
  Form.agrees_add fun name _ hadded => h name (Form.name_of_added hadded).1

/-- **Statements are local**: in stores that agree on what a statement mentions and
calls, it comes to the same and adds the same, under a name that is free in both. So
of two statements that are independent each comes to the same before and after the
other one, and both orders lead to the same store. -/
theorem evaluate_local {statement statement' : String} (hline : parse statement = .ok line)
    (hline' : parse statement' = .ok line') :
    (∀ store store', line.form.Agrees store store' →
      (line.evaluate reducer store).result = (line.evaluate reducer store').result ∧
        ∃ added : Option (String × Entry),
          (∀ name entry, added = some (name, entry) → line.form.assigned? = some name ∧
            name ∉ store.entries ∧ name ∉ store'.entries) ∧
          (line.evaluate reducer store).store = store.add added ∧
          (line.evaluate reducer store').store = store'.add added) ∧
      ∀ store, line.form.Independent line'.form →
        let first := line.evaluate reducer store
        let second := line'.evaluate reducer first.store
        let first' := line'.evaluate reducer store
        let second' := line.evaluate reducer first'.store
        second'.result = first.result ∧ second.result = first'.result ∧
          second.store = second'.store := by
  have htarget := (parse_wellFormed hline).target
  have htarget' := (parse_wellFormed hline').target
  refine ⟨fun store store' hagrees => ?_, fun store hindependent => ?_⟩
  · have hresult : (line.evaluate reducer store).result = (line.evaluate reducer store').result :=
      evaluate_congr hline hagrees
    obtain ⟨hstore, hfree⟩ := @evaluate_store_eq store line reducer htarget
    obtain ⟨hstore', hfree'⟩ := @evaluate_store_eq store' line reducer htarget
    rw [← hresult] at hstore' hfree'
    refine ⟨hresult, _, fun name entry hadded => ?_, hstore, hstore'⟩
    exact ⟨(Form.name_of_added hadded).1, hfree hadded, hfree' hadded⟩
  · intro first second first' second'
    have hfirst : first.store = store.add (line.form.added first.result) :=
      (evaluate_store_eq htarget).1
    have hfirst' : first'.store = store.add (line'.form.added first'.result) :=
      (evaluate_store_eq htarget').1
    have hresult : second'.result = first.result := by
      refine (evaluate_congr hline ?_).symm
      rw [hfirst']
      exact agrees_added hindependent.right
    have hresult' : second.result = first'.result := by
      refine (evaluate_congr hline' ?_).symm
      rw [hfirst]
      exact agrees_added hindependent.left
    refine ⟨hresult, hresult', ?_⟩
    have hsecond : second.store = first.store.add (line'.form.added second.result) :=
      (evaluate_store_eq htarget').1
    have hsecond' : second'.store = first'.store.add (line.form.added second'.result) :=
      (evaluate_store_eq htarget).1
    rw [hsecond, hsecond', hfirst, hfirst', hresult, hresult']
    refine Store.add_comm fun name _ name' _ hadded hadded' => ?_
    rintro rfl
    exact hindependent.left name (Form.name_of_added hadded).1
      (Form.mentioned_of_assigned (Form.name_of_added hadded').1)

/-- An assignment from an element, and an array with the letters of its target. -/
theorem evaluate_local_sigils :
    let line : Line := ⟨.scalarAssign "$Y" [.scalar ⟨"$X", none⟩, .operator "*",
      .element ⟨"A[1]", none⟩], false⟩
    let line' : Line := ⟨.arrayAssign "@Y" "3,4", false⟩
    let store : Store := ⟨.ofList [("$X", Entry.scalar "-2"), ("@A", Entry.array ["5", "7"])], ∅⟩
    let first := line.evaluate reduce store
    let first' := line'.evaluate reduce store
    line.form.Agrees store first'.store ∧ line.form.Independent line'.form ∧
      (line.evaluate reduce first'.store).result = first.result ∧
      (line'.evaluate reduce first.store).store = (line.evaluate reduce first'.store).store := by
  intro line line' store first first'
  have hline : parse "$Y=( $X * A[1] )" = .ok line := eq_ok_of_toOption (by decide +kernel)
  have hline' : parse "@Y=[ 3,4 ]" = .ok line' := eq_ok_of_toOption (by decide +kernel)
  have hindependent : line.form.Independent line'.form := by
    refine ⟨fun name hname => ?_, fun name hname => ?_⟩
    · cases hname
      decide
    · cases hname
      decide +kernel
  have hagrees : line.form.Agrees store first'.store := by
    rw [(evaluate_store_eq (parse_wellFormed hline').target).1]
    exact agrees_added hindependent.right
  obtain ⟨hlocal, hcommute⟩ := @evaluate_local reduce _ _ _ _ hline hline'
  exact ⟨hagrees, hindependent, (hlocal store first'.store hagrees).1.symm,
    (hcommute store hindependent).2.2⟩

end Line

end ArithScript
