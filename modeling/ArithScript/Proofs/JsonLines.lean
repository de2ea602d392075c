import ArithScript.Line.Json
import ArithScript.Proofs.JsonNumbers
import ArithScript.Proofs.Lines
import ArithScript.Proofs.Reports

/-!
# Lines as JSON

A JSON text shows where it ends. If two of them stand in front of any two rests and all is the
same, then the two values are the same, and so are the rests (`Delimits`). Quoted texts have
this property, because an escape can be read back and no unescaped quote stands inside; a
number has it in front of a bracket, which is no character of numerals; and what is put
together from such texts with fixed ones around them has it again. So the JSON text of a line
determines the line (`Line.json_faithful`).
-/

namespace ArithScript

/-- The texts of these values show where they end, and which value they are. -/
def Delimits {α : Type} (write : α → String) (values : α → Prop) : Prop :=
  ∀ ⦃a b : α⦄ ⦃s t : List Char⦄, values a → values b →
    (write a).toList ++ s = (write b).toList ++ t → a = b ∧ s = t

/-- In an object the bracket that closes it may follow. -/
theorem Delimits.closed {α : Type} {write : α → String} {values : α → Prop} {a b : α}
    {s t : List Char} (h : Delimits write values) (ha : values a) (hb : values b)
    (heq : (write a).toList ++ ("\x7d".toList ++ s) = (write b).toList ++ ("\x7d".toList ++ t)) :
    a = b ∧ s = t := by
  obtain ⟨hvalue, hrest⟩ := h ha hb heq
  exact ⟨hvalue, List.append_cancel_left hrest⟩

/-! ## Quoted texts -/

namespace Text

/-- The character that stands behind a backslash in quotes, with what follows it. -/
def escape? : List Char → Option (Char × List Char)
  | 'u' :: '0' :: '0' :: high :: low :: rest =>
    some (.ofNat (16 * hexDigit high + hexDigit low), rest)
  | 'b' :: rest => some ('\x08', rest)
  | 'f' :: rest => some ('\x0c', rest)
  | 'n' :: rest => some ('\n', rest)
  | 'r' :: rest => some ('\r', rest)
  | 't' :: rest => some ('\t', rest)
  | c :: rest => some (c, rest)
  | [] => none

/-- The first character of text in quotes, with what follows it. -/
def unescape? : List Char → Option (Char × List Char)
  | c :: rest => if c = '\\' then escape? rest else some (c, rest)
  | [] => none

/-- What stands for a character is read as the character. -/
theorem unescape?_escaped (c : Char) (rest : List Char) :
    unescape? (escaped c ++ rest) = some (c, rest) := by
  unfold escaped
  split
  iterate 7 rfl
  · next hbackslash _ _ _ _ _ =>
    split
    · next hcontrol =>
      have hhigh := hexDigit_digitChar (c.toNat / 16) (by omega)
      have hlow := hexDigit_digitChar (c.toNat % 16) (by omega)
      have hcode : 16 * (c.toNat / 16) + c.toNat % 16 = c.toNat := Nat.div_add_mod c.toNat 16
      simp only [List.cons_append, List.nil_append, unescape?, ↓reduceIte, escape?, hhigh, hlow,
        hcode, Char.ofNat_toNat]
    · exact if_neg hbackslash

theorem delimits_quoted : Delimits quoted fun _ => True := by
  intro a b s t _ _ h
  simp only [quoted, String.toList_ofList, List.cons_append, List.append_assoc, List.nil_append,
    List.cons.injEq, true_and] at h
  obtain ⟨hchars, hrest⟩ := enclosed_inj unescape?_escaped (fun _ => rfl) (by decide) h
  exact ⟨String.toList_inj.mp hchars, hrest⟩

end Text

/-! ## Symbols -/

open Text

theorem jsonOption_none : jsonOption none = "null" := rfl

theorem jsonOption_some (text : String) : jsonOption (some text) = quoted text := rfl

theorem quoted_append_ne_null (text : String) (s t : List Char) :
    (quoted text).toList ++ s ≠ "null".toList ++ t := by
  simp [quoted]

theorem delimits_jsonOption : Delimits jsonOption fun _ => True := by
  intro a b s t _ _ h
  cases a with
  | none =>
    rw [jsonOption_none] at h
    cases b with
    | none => exact ⟨rfl, List.append_cancel_left h⟩
    | some text =>
      rw [jsonOption_some] at h
      exact absurd h.symm (quoted_append_ne_null text t s)
  | some text =>
    rw [jsonOption_some] at h
    cases b with
    | none => exact absurd h (quoted_append_ne_null text s t)
    | some text' =>
      rw [jsonOption_some] at h
      obtain ⟨rfl, hrest⟩ := delimits_quoted trivial trivial h
      exact ⟨rfl, hrest⟩

/-- An object of one field determines its key, and then its value has to show where it ends. -/
theorem jsonField_inj {key key' value value' : String} {s t : List Char}
    (h : (jsonField key value).toList ++ s = (jsonField key' value').toList ++ t) :
    key = key' ∧ value.toList ++ ("\x7d".toList ++ s) = value'.toList ++ ("\x7d".toList ++ t) := by
  simp only [jsonField, String.toList_append, List.append_assoc, List.append_cancel_left_eq] at h
  obtain ⟨hkey, hrest⟩ := delimits_quoted trivial trivial h
  exact ⟨hkey, List.append_cancel_left hrest⟩

theorem Reference.delimits_json : Delimits Reference.json fun _ => True := by
  intro a b s t _ _ h
  obtain ⟨name, value⟩ := a
  obtain ⟨name', value'⟩ := b
  simp only [json, String.toList_append, List.append_assoc, List.append_cancel_left_eq] at h
  obtain ⟨rfl, hvalue⟩ := delimits_quoted trivial trivial h
  obtain ⟨rfl, rfl⟩ := delimits_jsonOption.closed trivial trivial (List.append_cancel_left hvalue)
  exact ⟨rfl, rfl⟩

/-- A number ends where no character of numerals follows. -/
theorem Binary64.jsonText_append_inj {x y : Binary64} {s t : List Char} (hx : x.isFinite = true)
    (hy : y.isFinite = true)
    (h : x.jsonText.toList ++ ("\x7d".toList ++ s) = y.jsonText.toList ++ ("\x7d".toList ++ t)) :
    x = y ∧ s = t := by
  have hstop (s : List Char) : Grammar.NotStarting Grammar.isNumeralChar ("\x7d".toList ++ s) :=
    Grammar.notStarting_cons.mpr rfl
  obtain ⟨htext, hrest⟩ := Grammar.run_inj (isNumeralChar_jsonText hx) (isNumeralChar_jsonText hy)
    (hstop s) (hstop t) h
  exact ⟨jsonText_inj hx hy (String.toList_inj.mp htext), List.append_cancel_left hrest⟩

namespace Symbol

/-- A symbol that JSON can write: if it is a number, then a finite one. -/
def IsFinite : Symbol → Prop
  | number x => x.isFinite = true
  | operator _ | scalar _ | element _ => True

theorem InPhase.isFinite {resolved : Bool} {symbol : Symbol} (h : symbol.InPhase resolved) :
    symbol.IsFinite := by
  cases symbol with
  | number x =>
    obtain ⟨m, rfl⟩ := h
    rfl
  | operator | scalar | element => trivial

theorem delimits_json : Delimits json IsFinite := by
  intro a b s t ha hb h
  cases a <;> cases b <;> obtain ⟨hkey, hvalue⟩ := jsonField_inj h
  case number.number x y =>
    obtain ⟨rfl, rfl⟩ := Binary64.jsonText_append_inj ha hb hvalue
    exact ⟨rfl, rfl⟩
  case operator.operator token token' =>
    obtain ⟨rfl, rfl⟩ := delimits_quoted.closed trivial trivial hvalue
    exact ⟨rfl, rfl⟩
  case scalar.scalar r r' =>
    obtain ⟨rfl, rfl⟩ := Reference.delimits_json.closed trivial trivial hvalue
    exact ⟨rfl, rfl⟩
  case element.element r r' =>
    obtain ⟨rfl, rfl⟩ := Reference.delimits_json.closed trivial trivial hvalue
    exact ⟨rfl, rfl⟩
  all_goals exact absurd hkey (by decide)

end Symbol

/-! ## Lists -/

section Lists

variable {α : Type} {write : α → String} {values : α → Prop} {as bs : List α} {s t : List Char}

theorem toList_intercalate_cons (first : String) (rest : List String) :
    (",".intercalate (first :: rest)).toList =
      first.toList ++ rest.flatMap fun text => ',' :: text.toList := by
  rw [String.toList_intercalate]
  induction rest generalizing first with
  | nil => simp
  | cons next rest ih =>
    rw [List.map_cons, List.map_cons, List.intercalate_cons_cons, ← List.map_cons, ih]
    simp

/-- Commas and the bracket at the end tell where a list goes on, by induction on the items. -/
theorem Delimits.items (h : Delimits write values) (has : ∀ a ∈ as, values a)
    (hbs : ∀ b ∈ bs, values b)
    (heq : (as.flatMap fun a => ',' :: (write a).toList) ++ ']' :: s =
      (bs.flatMap fun b => ',' :: (write b).toList) ++ ']' :: t) : as = bs ∧ s = t := by
  induction as generalizing bs with
  | nil =>
    cases bs with
    | nil => exact ⟨rfl, (List.cons.inj heq).2⟩
    | cons b bs => exact absurd (List.cons.inj heq).1 (by decide)
  | cons a as ih =>
    cases bs with
    | nil => exact absurd (List.cons.inj heq).1 (by decide)
    | cons b bs =>
      rw [List.forall_mem_cons] at has hbs
      rw [List.flatMap_cons, List.flatMap_cons, List.append_assoc, List.append_assoc] at heq
      obtain ⟨rfl, hrest⟩ := h has.1 hbs.1 (List.cons.inj heq).2
      obtain ⟨rfl, rfl⟩ := ih has.2 hbs.2 hrest
      exact ⟨rfl, rfl⟩

/-- A list of objects shows where it ends. -/
theorem Delimits.list (h : Delimits write values)
    (hobject : ∀ a, (write a).toList.head? = some '\x7b') :
    Delimits (fun as : List α => "[" ++ ",".intercalate (as.map write) ++ "]")
      fun as => ∀ a ∈ as, values a := by
  have hempty (a : α) (s t : List Char) : (write a).toList ++ s ≠ ']' :: t := by
    obtain ⟨more, hmore⟩ := List.head?_eq_some_iff.mp (hobject a)
    rw [hmore]
    exact fun heq => absurd (List.cons.inj heq).1 (by decide)
  intro as bs s t has hbs heq
  simp only [String.toList_append, List.append_assoc, List.append_cancel_left_eq] at heq
  change _ ++ ']' :: s = _ ++ ']' :: t at heq
  cases as with
  | nil =>
    cases bs with
    | nil => exact ⟨rfl, (List.cons.inj heq).2⟩
    | cons b bs =>
      rw [List.map_cons, toList_intercalate_cons, List.append_assoc] at heq
      exact absurd heq.symm (hempty b _ s)
  | cons a as =>
    rw [List.map_cons, toList_intercalate_cons, List.append_assoc] at heq
    cases bs with
    | nil => exact absurd heq (hempty a _ t)
    | cons b bs =>
      rw [List.forall_mem_cons] at has hbs
      rw [List.map_cons, toList_intercalate_cons, List.append_assoc] at heq
      obtain ⟨rfl, hrest⟩ := h has.1 hbs.1 heq
      rw [List.flatMap_map, List.flatMap_map] at hrest
      obtain ⟨rfl, rfl⟩ := h.items has.2 hbs.2 hrest
      exact ⟨rfl, rfl⟩

end Lists

/-! ## Lines -/

theorem Symbol.head?_json (symbol : Symbol) : symbol.json.toList.head? = some '\x7b' := by
  cases symbol <;> simp [json, jsonField]

/-- Between forms of one kind and target the body decides. -/
theorem Form.bodyJson_inj {form form' : Form} {s t : List Char}
    (hform : ∀ symbol ∈ form.symbols, symbol.IsFinite)
    (hform' : ∀ symbol ∈ form'.symbols, symbol.IsFinite) (hkind : form.kind = form'.kind)
    (htarget : form.target? = form'.target?)
    (h : form.bodyJson.toList ++ s = form'.bodyJson.toList ++ t) : form = form' ∧ s = t := by
  have hsymbols := Symbol.delimits_json.list Symbol.head?_json
  cases form <;> cases form' <;> obtain ⟨-, hvalue⟩ := jsonField_inj h
  case plain.plain symbols symbols' =>
    obtain ⟨rfl, rfl⟩ := hsymbols.closed hform hform' hvalue
    exact ⟨rfl, rfl⟩
  case scalarAssign.scalarAssign target symbols target' symbols' =>
    obtain ⟨rfl, rfl⟩ := hsymbols.closed hform hform' hvalue
    cases htarget
    exact ⟨rfl, rfl⟩
  case arrayAssign.arrayAssign target payload target' payload' =>
    obtain ⟨rfl, rfl⟩ := delimits_quoted.closed trivial trivial hvalue
    cases htarget
    exact ⟨rfl, rfl⟩
  case call.call target argument target' argument' =>
    obtain ⟨rfl, rfl⟩ := delimits_quoted.closed trivial trivial hvalue
    cases htarget
    exact ⟨rfl, rfl⟩
  all_goals exact absurd hkind (by simp [kind])

namespace Line

theorem delimits_json :
    Delimits json fun line => ∀ symbol ∈ line.form.symbols, symbol.IsFinite := by
  have hflag {resolved resolved' : Bool} {s t : List Char}
      (h : (if resolved then "true" else "false").toList ++ s =
        (if resolved' then "true" else "false").toList ++ t) : resolved = resolved' := by
    cases resolved <;> cases resolved' <;> simp at h ⊢
  intro a b s t ha hb h
  obtain ⟨form, resolved⟩ := a
  obtain ⟨form', resolved'⟩ := b
  -- `delta`, because the equation of `json` takes long to make.
  delta json at h
  simp only [String.toList_append, List.append_assoc] at h
  obtain ⟨hkind, htail⟩ := delimits_quoted trivial trivial (List.append_cancel_left h)
  obtain ⟨htarget, htail⟩ := delimits_jsonOption trivial trivial (List.append_cancel_left htail)
  obtain ⟨rfl, htail⟩ := Form.bodyJson_inj ha hb hkind htarget (List.append_cancel_left htail)
  have hrest := List.append_cancel_left htail
  obtain rfl := hflag hrest
  exact ⟨rfl, List.append_cancel_left (List.append_cancel_left hrest)⟩

theorem json_inj {line line' : Line} (hline : line.Reachable) (hline' : line'.Reachable)
    (h : line.json = line'.json) : line = line' := by
  have htexts : line.json.toList ++ [] = line'.json.toList ++ [] := by rw [h]
  exact (delimits_json (fun symbol hs => (hline.wellFormed.symbols symbol hs).isFinite)
    (fun symbol hs => (hline'.wellFormed.symbols symbol hs).isFinite) htexts).1

end Line

/-! ## Control characters -/

/-- The text has none of the control characters below U+0020. -/
def NoControls (text : String) : Prop := ∀ c ∈ text.toList, 0x20 ≤ c.toNat

@[simp]
theorem noControls_append {first second : String} :
    NoControls (first ++ second) ↔ NoControls first ∧ NoControls second := by
  simp [NoControls, or_imp, forall_and]

theorem toNat_digitChar : ∀ n < 16, 0x20 ≤ n.digitChar.toNat := by
  decide

theorem Text.noControls_escaped (c : Char) : ∀ d ∈ escaped c, 0x20 ≤ d.toNat := by
  unfold escaped
  split
  iterate 7 simp
  · split
    · next hcontrol =>
      have hhigh := toNat_digitChar (c.toNat / 16) (by omega)
      have hlow := toNat_digitChar (c.toNat % 16) (by omega)
      simp [hhigh, hlow]
    · next hprinted => simpa using hprinted

@[simp]
theorem noControls_quoted (text : String) : NoControls (quoted text) := by
  rw [NoControls, quoted, String.toList_ofList]
  exact forall_mem_enclosed (by decide) noControls_escaped text.toList

@[simp]
theorem noControls_jsonField {key value : String} :
    NoControls (jsonField key value) ↔ NoControls value := by
  have hfixed : NoControls "\x7b" ∧ NoControls ":" ∧ NoControls "\x7d" := by
    simp [NoControls]
  simp [jsonField, hfixed]

@[simp]
theorem noControls_jsonOption (text : Option String) : NoControls (jsonOption text) := by
  cases text with
  | none => simp [jsonOption_none, NoControls]
  | some text => simp [jsonOption_some]

theorem noControls_intercalate {texts : List String} (h : ∀ text ∈ texts, NoControls text) :
    NoControls (",".intercalate texts) := by
  intro c hc
  by_cases hcomma : c = ','
  · rw [hcomma]
    decide
  · rw [String.toList_intercalate] at hc
    obtain ⟨part, hpart, hmem⟩ := (mem_intercalate_iff hcomma).mp hc
    obtain ⟨text, htext, rfl⟩ := List.mem_map.mp hpart
    exact h text htext c hmem

theorem Grammar.toNat_of_isNumeralChar {c : Char} (h : isNumeralChar c = true) :
    0x20 ≤ c.toNat := by
  simp only [isNumeralChar, Cut.startsNumeral, Cut.isSign, Char.isDigit, Bool.or_eq_true,
    Bool.and_eq_true, decide_eq_true_eq, beq_iff_eq, ge_iff_le, UInt32.le_iff_toNat_le] at h
  rcases h with (((⟨hlow, -⟩ | rfl) | rfl | rfl) | rfl) | rfl
  · exact Nat.le_trans (by decide) hlow
  all_goals decide

@[simp]
theorem Binary64.noControls_jsonText (x : Binary64) : NoControls x.jsonText := by
  cases x with
  | finite negative m =>
    exact fun c hc => Grammar.toNat_of_isNumeralChar (isNumeralChar_jsonText rfl c hc)
  | nan | infinite => simp [jsonText, NoControls]

@[simp]
theorem Reference.noControls_json (reference : Reference) : NoControls reference.json := by
  have hfixed : NoControls "\x7b\"name\":" ∧ NoControls ",\"value\":" ∧ NoControls "\x7d" := by
    simp [NoControls]
  simp [json, hfixed]

@[simp]
theorem Symbol.noControls_json (symbol : Symbol) : NoControls symbol.json := by
  cases symbol <;> simp [json]

theorem Form.noControls_bodyJson (form : Form) : NoControls form.bodyJson := by
  have hfixed : NoControls "[" ∧ NoControls "]" := by
    simp [NoControls]
  have hsymbols (symbols : List Symbol) :
      NoControls (",".intercalate (symbols.map Symbol.json)) :=
    noControls_intercalate (by simp)
  cases form <;> simp [bodyJson, hfixed, hsymbols]

namespace Line

theorem noControls_json (line : Line) : NoControls line.json := by
  have hfixed : NoControls "\x7b\"kind\":" ∧ NoControls ",\"target\":" ∧ NoControls ",\"body\":" ∧
      NoControls ",\"resolved\":" ∧ NoControls "\x7d" := by
    simp [NoControls]
  have hflag : NoControls (if line.resolved then "true" else "false") := by
    split <;> simp [NoControls]
  delta json
  simp [hfixed, hflag, Form.noControls_bodyJson]

end Line

/-! ## Output -/

/-- Texts that hold no line break are the lines of what they are joined to. -/
theorem Text.pieces_join_lines {lines : List String} (h : ∀ line ∈ lines, '\n' ∉ line.toList) :
    pieces '\n' (String.join (lines.map (· ++ "\n"))) = lines ++ [""] := by
  induction lines with
  | nil => rfl
  | cons line lines ih =>
    obtain ⟨hline, hlines⟩ := List.forall_mem_cons.mp h
    have hwhole : pieces '\n' line = [line] := pieces_eq_iff.mpr (by simpa using hline)
    rw [List.map_cons, pieces_join_cons, hwhole, ih hlines]
    rfl

/-- The lines that parsing prints are the statements that could be parsed, one on each. -/
theorem Command.pieces_tokenizeSource (source : String) :
    pieces '\n' (tokenizeSource true source).output =
      ((Script.statements source).filterMap fun statement =>
        (Line.parse statement.text).toOption).map Line.json ++ [""] := by
  have houtput : (tokenizeSource true source).output = String.join
      (outputLines Line.json ((Script.statements source).map fun statement =>
        (statement.number, Line.parse statement.text))) := rfl
  rw [houtput, outputLines_map, ← pieces_join_lines, List.map_map]
  · rfl
  · intro text htext hbreak
    obtain ⟨line, -, rfl⟩ := List.mem_map.mp htext
    exact absurd (line.noControls_json '\n' hbreak) (by decide)

namespace Line

/-- **The JSON text determines the line**: whatever quotes, backslashes, brackets and control
characters stand in its operators and values, two parsed lines, resolved or not, have one JSON
text only if they are the same. No control character stands in such a text, so what is printed
of a script has one line for each statement that can be parsed. -/
theorem json_faithful :
    (∀ line line' : Line, line.Reachable → line'.Reachable →
      (line.json = line'.json ↔ line = line')) ∧
    (∀ line : Line, ∀ c ∈ line.json.toList, 0x20 ≤ c.toNat) ∧
    ∀ source : String, pieces '\n' (Command.tokenizeSource true source).output =
      ((Script.statements source).filterMap fun statement =>
        (parse statement.text).toOption).map json ++ [""] := by
  refine ⟨fun line line' hline hline' => ⟨json_inj hline hline', ?_⟩, noControls_json,
    Command.pieces_tokenizeSource⟩
  rintro rfl
  rfl

/-- Operators with a quote in them, without and with a backslash before it. -/
theorem json_faithful_quote :
    let quote : Line := ⟨.plain [.operator "+\""], false⟩
    let backslash : Line := ⟨.plain [.operator "+\\\"", .number (.ofNat 3 / .ofNat 2)], false⟩
    quote.json ≠ backslash.json ∧
      pieces '\n' (Command.tokenizeSource true "+\"\n?\n+\\\" 1.50").output =
        [quote.json, backslash.json, ""] := by
  intro quote backslash
  have hquote : parse "+\"" = .ok quote := by decide +kernel
  have hbackslash : parse "+\\\" 1.50" = .ok backslash := by decide +kernel
  have hparsed : ((Script.statements "+\"\n?\n+\\\" 1.50").filterMap fun statement =>
      (parse statement.text).toOption) = [quote, backslash] := by decide +kernel
  obtain ⟨hdetermines, -, houtput⟩ := json_faithful
  refine ⟨fun h => ?_, ?_⟩
  · rw [hdetermines _ _ (.parse hquote) (.parse hbackslash)] at h
    exact absurd h (by decide +kernel)
  · rw [houtput, hparsed]
    rfl

end Line

end ArithScript
