import Mathlib.Data.List.Nodup
import Mathlib.Data.List.Perm.Basic
import Std.Data.ExtTreeMap.Lemmas
import ArithScript.Command.Start
import ArithScript.Proofs.Effects

/-!
# Definitions

Every definition of a command line stands for one binding (`Command.Defines`), or for none, and
which one does not depend on the other definitions. A session starts if every definition has its
binding and no two of them are of one name, and the bindings are then all that its store holds
(`Command.foldlM_define_eq_ok_iff`). So the order of the definitions does not matter
(`Command.initialStore_perm`), although each of them is checked against a store that only holds
the ones before it.
-/

namespace ArithScript

open Grammar

/-! ## Bindings -/

namespace Store

/-- The name and the entry that a text is registered as: as it is under the name of a scalar, and
in pieces, none of them empty, under that of an array. -/
inductive Binds (text : String) : String × Entry → Prop
  | scalar (letters : Letters) : Binds text (letters.named '$', .scalar text)
  | array (letters : Letters) (elements : "" ∉ Text.pieces ',' text) :
    Binds text (letters.named '@', .array (Text.pieces ',' text))

variable {store store' : Store} {name text : String} {entry : Entry}

theorem entryFor_eq_ok_iff : entryFor name text = .ok entry ↔ Binds text (name, entry) := by
  constructor
  · intro h
    unfold entryFor at h
    split at h
    · next hshape =>
      cases h
      cases Name.hasShape_of_shape? hshape with
      | scalar letters => exact .scalar letters
    · next hshape =>
      dsimp only at h
      split at h <;> cases h
      next helements =>
        cases Name.hasShape_of_shape? hshape with
        | array letters => exact .array letters helements
    · cases h
  · intro h
    unfold entryFor
    cases h with
    | scalar letters => rw [Name.shape?_of_hasShape (.scalar letters)]
    | array letters elements =>
      rw [Name.shape?_of_hasShape (.array letters)]
      exact if_neg elements

/-- What a registration does: it adds the binding of its text, under a name that is free. -/
theorem register_eq_ok_iff : store.register name text = .ok store' ↔
    ∃ entry, Binds text (name, entry) ∧ name ∉ store.entries ∧
      store' = { store with entries := store.entries.insert name entry } := by
  simp only [← entryFor_eq_ok_iff]
  refine ⟨register_eq_ok, ?_⟩
  rintro ⟨entry, hentry, hfree, rfl⟩
  unfold register
  rw [hentry]
  exact if_neg hfree

end Store

/-! ## Definitions and their bindings -/

namespace Command

/-- The binding of a definition: the text behind the first equals sign under the name before it,
blanks around either aside. -/
inductive Defines : String → String × Entry → Prop
  | intro {before after name : String} {entry : Entry} (first : '=' ∉ before.toList)
      (named : Text.trim before = name) (binds : Store.Binds (Text.trim after) (name, entry)) :
      Defines (before ++ "=" ++ after) (name, entry)

variable {store store' : Store} {definition : String} {definitions definitions' : List String}

theorem splitDefinition?_append {before after : String} (h : '=' ∉ before.toList) :
    splitDefinition? (before ++ "=" ++ after) = some (Text.trim before, Text.trim after) := by
  have hbefore : ∀ c ∈ before.toList, (c != '=') = true := fun c hc =>
    bne_iff_ne.mpr fun heq => h (heq ▸ hc)
  have hstop : NotStarting (· != '=') ('=' :: after.toList) := notStarting_cons.mpr rfl
  have hchars : (before ++ "=" ++ after).toList = before.toList ++ '=' :: after.toList := by simp
  unfold splitDefinition?
  dsimp only
  rw [hchars, dropWhile_run hbefore hstop, takeWhile_run hbefore hstop]
  dsimp only
  rw [String.ofList_toList, String.ofList_toList]

theorem exists_of_splitDefinition? {name text : String}
    (h : splitDefinition? definition = some (name, text)) : ∃ before after,
      definition = before ++ "=" ++ after ∧ '=' ∉ before.toList ∧ Text.trim before = name ∧
        Text.trim after = text := by
  have hsplit := List.takeWhile_append_dropWhile (p := (· != '=')) (l := definition.toList)
  have hstop := notStarting_dropWhile (· != '=') definition.toList
  unfold splitDefinition? at h
  dsimp only at h
  split at h
  · next c after hrest =>
    obtain ⟨hname, htext⟩ := Prod.mk.inj (Option.some.inj h)
    rw [hrest, notStarting_cons] at hstop
    obtain rfl : c = '=' := by simpa using hstop
    refine ⟨_, _, ?_, ?_, hname, htext⟩
    · rw [← String.toList_inj]
      simp [← hrest, hsplit]
    · rw [String.toList_ofList]
      exact fun hmem => absurd (of_mem_takeWhile hmem) (by simp)
  · cases h

theorem defines_iff {binding : String × Entry} : Defines definition binding ↔
    ∃ text, splitDefinition? definition = some (binding.1, text) ∧ Store.Binds text binding := by
  constructor
  · rintro ⟨first, rfl, binds⟩
    exact ⟨_, splitDefinition?_append first, binds⟩
  · rintro ⟨text, hsplit, hbinds⟩
    obtain ⟨before, after, rfl, hfirst, hname, rfl⟩ := exists_of_splitDefinition? hsplit
    exact ⟨hfirst, hname, hbinds⟩

/-- A definition adds its binding to the store, if the name is free. -/
theorem define_eq_ok_iff : define store definition = .ok store' ↔
    ∃ binding, Defines definition binding ∧ binding.1 ∉ store.entries ∧
      store' = { store with entries := store.entries.insert binding.1 binding.2 } := by
  simp only [defines_iff, Prod.exists]
  unfold define
  constructor
  · intro h
    split at h
    · cases h
    · next name text hsplit =>
      split at h <;> cases h
      next hregister =>
        obtain ⟨entry, hbinds, hfree, rfl⟩ := Store.register_eq_ok_iff.mp hregister
        exact ⟨name, entry, ⟨text, hsplit, hbinds⟩, hfree, rfl⟩
  · rintro ⟨name, entry, ⟨text, hsplit, hbinds⟩, hfree, rfl⟩
    rw [hsplit]
    dsimp only
    rw [Store.register_eq_ok_iff.mpr ⟨entry, hbinds, hfree, rfl⟩]

/-! ## Sessions that start -/

/-- The definitions stand for these bindings, one each, and no two are of one name. -/
structure Bindings (definitions : List String) (bindings : List (String × Entry)) : Prop where
  defines : List.Forall₂ Defines definitions bindings
  nodup : (bindings.map Prod.fst).Nodup

theorem foldlM_define_eq_ok_iff : definitions.foldlM define store = .ok store' ↔
    ∃ bindings, Bindings definitions bindings ∧ (∀ binding ∈ bindings, binding.1 ∉ store.entries) ∧
      store' = { store with entries := store.entries.insertMany bindings } := by
  induction definitions generalizing store with
  | nil =>
    constructor
    · intro h
      cases h
      refine ⟨[], ⟨.nil, List.nodup_nil⟩, List.forall_mem_nil _, ?_⟩
      rw [Std.ExtTreeMap.insertMany_nil]
    · rintro ⟨bindings, ⟨hdefines, -⟩, -, rfl⟩
      cases hdefines
      rw [Std.ExtTreeMap.insertMany_nil]
      rfl
  | cons definition definitions ih =>
    rw [List.foldlM_cons]
    constructor
    · intro h
      obtain ⟨next, hnext, hrest⟩ := bind_eq_ok.mp h
      obtain ⟨⟨name, entry⟩, hdefines, hfree, rfl⟩ := define_eq_ok_iff.mp hnext
      obtain ⟨bindings, ⟨hall, hnodup⟩, hfrees, rfl⟩ := ih.mp hrest
      -- The later names are free after the first binding, so they are other names.
      simp only [Std.ExtTreeMap.mem_insert, not_or, Std.LawfulEqCmp.compare_eq_iff_eq] at hfrees
      refine ⟨(name, entry) :: bindings, ⟨.cons hdefines hall, ?_⟩, ?_, ?_⟩
      · rw [List.map_cons, List.nodup_cons]
        refine ⟨fun hmem => ?_, hnodup⟩
        obtain ⟨binding, hbinding, hname⟩ := List.mem_map.mp hmem
        exact (hfrees binding hbinding).1 hname.symm
      · exact List.forall_mem_cons.mpr ⟨hfree, fun binding hbinding => (hfrees binding hbinding).2⟩
      · rw [Std.ExtTreeMap.insertMany_cons]
    · rintro ⟨bindings, ⟨hdefines, hnodup⟩, hfrees, rfl⟩
      cases hdefines with
      | @cons _ binding _ bindings hdefines hall =>
        obtain ⟨hfree, hfrees⟩ := List.forall_mem_cons.mp hfrees
        rw [List.map_cons, List.nodup_cons] at hnodup
        refine bind_eq_ok.mpr ⟨_, define_eq_ok_iff.mpr ⟨binding, hdefines, hfree, rfl⟩, ?_⟩
        refine ih.mpr ⟨bindings, ⟨hall, hnodup.2⟩, fun later hlater => ?_, ?_⟩
        · simp only [Std.ExtTreeMap.mem_insert, not_or, Std.LawfulEqCmp.compare_eq_iff_eq]
          refine ⟨fun hname => hnodup.1 ?_, hfrees later hlater⟩
          rw [hname]
          exact List.mem_map_of_mem hlater
        · rw [Std.ExtTreeMap.insertMany_cons]

/-- The store that definitions are registered in. -/
def bareStore (builtins : Bool) : Store := if builtins then .withBuiltins else .empty

theorem entries_bareStore (builtins : Bool) : (bareStore builtins).entries = ∅ := by
  cases builtins <;> rfl

/-- The store holds the bindings, and nothing else. -/
structure HoldsOnly (store : Store) (bindings : List (String × Entry)) : Prop where
  entry : ∀ name entry, store.entries[name]? = some entry ↔ (name, entry) ∈ bindings
  size : store.size = bindings.length

/-- A session starts with the bindings of its definitions. -/
theorem initialStore_eq_ok_iff {builtins : Bool} : initialStore builtins definitions = .ok store ↔
    ∃ bindings, Bindings definitions bindings ∧
      store = ⟨.ofList bindings, (bareStore builtins).functions⟩ := by
  have hstart : initialStore builtins definitions =
      definitions.foldlM define (bareStore builtins) := rfl
  rw [hstart, foldlM_define_eq_ok_iff, entries_bareStore]
  simp only [Std.ExtTreeMap.not_mem_empty, not_false_eq_true, implies_true, true_and,
    ← Std.ExtTreeMap.ofList_eq_insertMany_empty]

theorem holdsOnly_ofList {bindings : List (String × Entry)} (h : (bindings.map Prod.fst).Nodup)
    (functions : Std.ExtTreeMap String Routine) :
    HoldsOnly ⟨.ofList bindings, functions⟩ bindings := by
  have hdistinct : bindings.Pairwise fun a b => ¬compare a.1 b.1 = .eq := by
    simpa only [List.Nodup, List.pairwise_map, Std.LawfulEqCmp.compare_eq_iff_eq] using h
  refine ⟨fun name entry => ⟨fun hentry => ?_, ?_⟩, Std.ExtTreeMap.size_ofList hdistinct⟩
  · have hmem := Std.ExtTreeMap.mem_ofList.mp (of_getElem?_eq_some hentry)
    obtain ⟨⟨name, held⟩, hheld, rfl⟩ := List.mem_map.mp (List.contains_iff_mem.mp hmem)
    have hlookup : (Std.ExtTreeMap.ofList bindings)[name]? = some held :=
      Std.ExtTreeMap.getElem?_ofList_of_mem Std.ReflCmp.compare_self hdistinct hheld
    rw [hlookup] at hentry
    cases hentry
    exact hheld
  · exact fun hmem =>
      Std.ExtTreeMap.getElem?_ofList_of_mem Std.ReflCmp.compare_self hdistinct hmem

/-! ## Orders of definitions -/

/-- In another order the definitions have the same bindings, in another order. -/
theorem Bindings.perm {bindings : List (String × Entry)} (h : Bindings definitions bindings)
    (horder : definitions'.Perm definitions) :
    ∃ bindings', Bindings definitions' bindings' ∧ bindings'.Perm bindings := by
  obtain ⟨bindings', hdefines, hperm⟩ := List.perm_comp_forall₂ horder h.defines
  exact ⟨bindings', ⟨hdefines, (hperm.map Prod.fst).nodup_iff.mpr h.nodup⟩, hperm⟩

theorem ofList_perm {bindings bindings' : List (String × Entry)}
    (h : (bindings.map Prod.fst).Nodup) (horder : bindings'.Perm bindings) :
    Std.ExtTreeMap.ofList bindings' = Std.ExtTreeMap.ofList bindings := by
  have hholds := holdsOnly_ofList h ∅
  have hholds' := holdsOnly_ofList ((horder.map Prod.fst).nodup_iff.mpr h) ∅
  refine Std.ExtTreeMap.ext_getElem? fun name => Option.ext fun entry => ?_
  rw [hholds.entry, hholds'.entry, horder.mem_iff]

theorem initialStore_of_perm {builtins : Bool} (horder : definitions'.Perm definitions)
    (h : initialStore builtins definitions = .ok store) :
    initialStore builtins definitions' = .ok store := by
  obtain ⟨bindings, hbindings, rfl⟩ := initialStore_eq_ok_iff.mp h
  obtain ⟨bindings', hbindings', hperm⟩ := hbindings.perm horder
  refine initialStore_eq_ok_iff.mpr ⟨bindings', hbindings', ?_⟩
  rw [ofList_perm hbindings.nodup hperm]

/-- **Definitions in any order**: a session starts exactly if every definition has its binding and
no two are of one name. Its store then holds these bindings, one for each definition, and nothing
else but the functions it started with, and it is the same in every order of the definitions. -/
theorem initialStore_perm (builtins : Bool) (definitions : List String) :
    ((∃ store, initialStore builtins definitions = .ok store) ↔
      ∃ bindings, Bindings definitions bindings) ∧
    (∀ store, initialStore builtins definitions = .ok store →
      ∃ bindings, Bindings definitions bindings ∧ HoldsOnly store bindings ∧
        store.functions = (bareStore builtins).functions) ∧
    ∀ definitions', definitions'.Perm definitions → ∀ store,
      initialStore builtins definitions' = .ok store ↔
        initialStore builtins definitions = .ok store := by
  refine ⟨⟨?_, ?_⟩, fun store h => ?_, fun definitions' horder store => ?_⟩
  · rintro ⟨store, h⟩
    obtain ⟨bindings, hbindings, -⟩ := initialStore_eq_ok_iff.mp h
    exact ⟨bindings, hbindings⟩
  · rintro ⟨bindings, hbindings⟩
    exact ⟨_, initialStore_eq_ok_iff.mpr ⟨bindings, hbindings, rfl⟩⟩
  · obtain ⟨bindings, hbindings, rfl⟩ := initialStore_eq_ok_iff.mp h
    exact ⟨bindings, hbindings, holdsOnly_ofList hbindings.nodup _, rfl⟩
  · exact ⟨initialStore_of_perm horder.symm, initialStore_of_perm horder⟩

/-- A scalar and an array of the same letters, and values with an equals sign and blanks. -/
theorem initialStore_perm_letters :
    let definitions := [" $X = 1=2 ", "@X=3, 4", "$Y="]
    let reordered := ["$Y=", " $X = 1=2 ", "@X=3, 4"]
    ∃ store, initialStore true definitions = .ok store ∧
      initialStore true reordered = .ok store ∧
      (∃ bindings, Bindings definitions bindings ∧ HoldsOnly store bindings) ∧
      store.entries[ "$X"]? = some (.scalar "1=2") ∧
      store.entries[ "@X"]? = some (.array ["3", " 4"]) := by
  intro definitions reordered
  have hstarts : (initialStore true definitions).toOption.isSome = true := by decide +kernel
  obtain ⟨store, hstore⟩ := Option.isSome_iff_exists.mp hstarts
  have hstore := eq_ok_of_toOption hstore
  have hentries (name : String) (entry : Entry) (h : ((initialStore true definitions).toOption.bind
      fun started : Store => started.entries[name]?) = some entry) :
      store.entries[name]? = some entry := by
    rwa [hstore] at h
  obtain ⟨-, hholds, horder⟩ := initialStore_perm true definitions
  obtain ⟨bindings, hbindings, honly, -⟩ := hholds store hstore
  refine ⟨store, hstore, (horder reordered (by decide) store).mpr hstore,
    ⟨bindings, hbindings, honly⟩, ?_, ?_⟩
  · exact hentries _ _ (by decide +kernel)
  · exact hentries _ _ (by decide +kernel)

end Command

end ArithScript
