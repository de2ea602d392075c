import ArithScript.Name
import ArithScript.Proofs.Numerals

/-!
# Names and their shapes

`Name.shape?` recognises four forms of names, and each of them is built from
runs of letters and of digits (`Letters`, `Positions`). A name of a form has the
shape of the form (`Name.shape?_of_hasShape`), and no other name has a shape
(`Name.hasShape_of_shape?`), so what follows about names is read off their forms
and not off the recogniser.
-/

namespace ArithScript

open Grammar

/-! ## Letters and positions -/

/-- One or more of the letters `A` to `Z`. -/
@[ext]
structure Letters where
  chars : List Char
  nonempty : chars ≠ []
  isUpper : ∀ c ∈ chars, c.isUpper = true

/-- One or more decimal digits, of any script. -/
@[ext]
structure Positions where
  chars : List Char
  nonempty : chars ≠ []
  isDecimalDigit : ∀ c ∈ chars, Text.isDecimalDigit c = true

namespace Letters

/-- The name that the letters make with a sigil in front. -/
def named (letters : Letters) (sigil : Char) : String := String.ofList (sigil :: letters.chars)

/-- The name of an element of the array with these letters. -/
def element (letters : Letters) (position : Positions) : String :=
  String.ofList (letters.chars ++ '[' :: (position.chars ++ [']']))

theorem toList_named (letters : Letters) (sigil : Char) :
    (letters.named sigil).toList = sigil :: letters.chars := String.toList_ofList

theorem toList_element (letters : Letters) (position : Positions) :
    (letters.element position).toList = letters.chars ++ '[' :: (position.chars ++ [']']) :=
  String.toList_ofList

theorem named_inj {letters letters' : Letters} {sigil sigil' : Char}
    (h : letters.named sigil = letters'.named sigil') : sigil = sigil' ∧ letters = letters' := by
  have hlist := congrArg String.toList h
  rw [toList_named, toList_named] at hlist
  obtain ⟨hsigil, hchars⟩ := List.cons.inj hlist
  exact ⟨hsigil, Letters.ext hchars⟩

/-- The letters are told from what follows them if no letter follows. -/
theorem append_inj {letters letters' : Letters} {tail tail' : List Char}
    (htail : NotStarting Char.isUpper tail) (htail' : NotStarting Char.isUpper tail')
    (h : letters.chars ++ tail = letters'.chars ++ tail') : letters = letters' ∧ tail = tail' := by
  obtain ⟨hchars, htails⟩ := run_inj letters.isUpper letters'.isUpper htail htail' h
  exact ⟨Letters.ext hchars, htails⟩

end Letters

/-! ## Shapes -/

namespace Name

theorem isLetters_iff {cs : List Char} :
    isLetters cs = true ↔ ∃ letters : Letters, letters.chars = cs := by
  unfold isLetters
  constructor
  · intro h
    obtain ⟨hne, hall⟩ := Bool.and_eq_true_iff.mp h
    exact ⟨⟨cs, by simpa using hne, List.all_eq_true.mp hall⟩, rfl⟩
  · rintro ⟨letters, rfl⟩
    rw [Bool.and_eq_true_iff]
    exact ⟨by simpa using letters.nonempty, List.all_eq_true.mpr letters.isUpper⟩

theorem isLetters_chars (letters : Letters) : isLetters letters.chars = true :=
  isLetters_iff.mpr ⟨letters, rfl⟩

/-- The names that have a shape, form by form. -/
inductive HasShape : String → NameShape → Prop
  | scalar (letters : Letters) : HasShape (letters.named '$') .scalar
  | array (letters : Letters) : HasShape (letters.named '@') .array
  | function (letters : Letters) : HasShape (letters.named '#') .function
  | element (letters : Letters) (position : Positions) :
    HasShape (letters.element position)
      (.element (letters.named '@') (String.ofList position.chars))

theorem elementShape?_element (letters : Letters) (position : Positions) :
    elementShape? (letters.chars ++ '[' :: (position.chars ++ [']'])) =
      some (.element (letters.named '@') (String.ofList position.chars)) := by
  have hbracket : NotStarting Char.isUpper ('[' :: (position.chars ++ [']'])) :=
    notStarting_cons.mpr (by decide)
  have hclosing : NotStarting Text.isDecimalDigit [']'] := notStarting_cons.mpr (by decide)
  unfold elementShape?
  simp only [takeWhile_run letters.isUpper hbracket, dropWhile_run letters.isUpper hbracket,
    takeWhile_run position.isDecimalDigit hclosing, dropWhile_run position.isDecimalDigit hclosing]
  rw [if_pos ⟨letters.nonempty, position.nonempty, trivial⟩]
  rfl

theorem exists_of_elementShape? {cs : List Char} {shape : NameShape}
    (h : elementShape? cs = some shape) : ∃ (letters : Letters) (position : Positions),
      cs = letters.chars ++ '[' :: (position.chars ++ [']']) ∧
        shape = .element (letters.named '@') (String.ofList position.chars) := by
  have hsplit := List.takeWhile_append_dropWhile (p := Char.isUpper) (l := cs)
  unfold elementShape? at h
  dsimp only at h
  split at h
  · next rest hrest =>
    split at h
    · next hok =>
      obtain ⟨hletters, hdigits, hclosing⟩ := hok
      cases h
      refine ⟨⟨_, hletters, fun _ => of_mem_takeWhile⟩, ⟨_, hdigits, fun _ => of_mem_takeWhile⟩,
        ?_, rfl⟩
      dsimp only
      rw [← hclosing, List.takeWhile_append_dropWhile, ← hrest, hsplit]
    · cases h
  · cases h

theorem shape?_of_hasShape {name : String} {shape : NameShape} (h : HasShape name shape) :
    shape? name = some shape := by
  cases h with
  | scalar letters | array letters | function letters =>
    simp [shape?, Letters.toList_named, isLetters_chars]
  | element letters position =>
    have helement := elementShape?_element letters position
    obtain ⟨chars, hne, hall⟩ := letters
    cases chars with
    | nil => exact absurd rfl hne
    | cons c cs =>
      have hc : c.isUpper = true := hall c List.mem_cons_self
      unfold shape?
      rw [Letters.toList_element]
      split
      · next heq =>
        cases (List.cons.inj heq).1
        cases hc
      · next heq =>
        cases (List.cons.inj heq).1
        cases hc
      · next heq =>
        cases (List.cons.inj heq).1
        cases hc
      · exact helement

theorem hasShape_of_shape? {name : String} {shape : NameShape} (h : shape? name = some shape) :
    HasShape name shape := by
  unfold shape? at h
  have hname := String.ofList_toList (s := name)
  have sigiled {sigil : Char} {cs : List Char} {shape' : NameShape}
      (hcs : name.toList = sigil :: cs)
      (hif : (if isLetters cs then some shape' else none) = some shape) :
      ∃ letters : Letters, name = letters.named sigil ∧ shape' = shape := by
    split at hif
    · next hletters =>
      obtain ⟨letters, rfl⟩ := isLetters_iff.mp hletters
      exact ⟨letters, by rw [← hname, hcs]; rfl, Option.some.inj hif⟩
    · cases hif
  split at h
  · next hcs =>
    obtain ⟨letters, rfl, rfl⟩ := sigiled hcs h
    exact .scalar letters
  · next hcs =>
    obtain ⟨letters, rfl, rfl⟩ := sigiled hcs h
    exact .array letters
  · next hcs =>
    obtain ⟨letters, rfl, rfl⟩ := sigiled hcs h
    exact .function letters
  · obtain ⟨letters, position, hcs, rfl⟩ := exists_of_elementShape? h
    rw [← hname, hcs]
    exact .element letters position

/-! ## Characters of names -/

/-- The characters that are no letter and no digit of a position. -/
def isMark (c : Char) : Bool := c == '$' || c == '@' || c == '#' || c == '[' || c == ']'

/-- Every name with a shape has a mark in it, and otherwise letters and digits. -/
theorem HasShape.chars {name : String} {shape : NameShape} (h : HasShape name shape) :
    (∃ c ∈ name.toList, isMark c = true) ∧ ∀ c ∈ name.toList,
      isMark c = true ∨ c.isUpper = true ∨ Text.isDecimalDigit c = true := by
  have sigiled (letters : Letters) {sigil : Char} (hsigil : isMark sigil = true) :
      (∃ c ∈ (letters.named sigil).toList, isMark c = true) ∧
        ∀ c ∈ (letters.named sigil).toList,
          isMark c = true ∨ c.isUpper = true ∨ Text.isDecimalDigit c = true := by
    rw [Letters.toList_named]
    refine ⟨⟨sigil, List.mem_cons_self, hsigil⟩, fun c hc => ?_⟩
    rcases List.mem_cons.mp hc with rfl | hc
    · exact .inl hsigil
    · exact .inr (.inl (letters.isUpper c hc))
  cases h with
  | scalar letters | array letters | function letters => exact sigiled letters rfl
  | element letters position =>
    rw [Letters.toList_element]
    refine ⟨⟨'[', by simp, rfl⟩, fun c hc => ?_⟩
    simp only [List.mem_append, List.mem_cons, List.not_mem_nil, or_false] at hc
    rcases hc with hc | rfl | hc | rfl
    · exact .inr (.inl (letters.isUpper c hc))
    · exact .inl rfl
    · exact .inr (.inr (position.isDecimalDigit c hc))
    · exact .inl rfl

end Name

end ArithScript
