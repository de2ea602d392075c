import ArithScript.Proofs.Numerals

/-!
# Lexing finds the boundaries of operands

The lexer cuts a text greedily, with one bit of state. On the text of an
expression it cuts exactly the operands and operators that the tree was built
from (`lex_text`): behind a mantissa the next character is an operator or the
end, so neither a point nor an exponent can be taken too far, and a sign is
taken into a number only where the tree has an operand. Conversely, every number
that it cuts from any text is an operand (`lexFrom_sound`).
-/

namespace ArithScript.Grammar

/-! ## Reading operands -/

/-- A character that a cut can take. -/
def isNumeralChar (c : Char) : Bool :=
  Cut.startsNumeral c || Cut.isSign c || c == 'e' || c == 'E'

theorem isDigit_toLower {c : Char} (h : c.isDigit = true) : c.toLower = c := by
  unfold Char.toLower
  simp only [Char.isDigit, ge_iff_le, Bool.and_eq_true, decide_eq_true_eq] at h
  rw [dif_neg]
  intro hupper
  have h₁ := UInt32.le_iff_toNat_le.mp h.2
  have h₂ := UInt32.le_iff_toNat_le.mp hupper.1
  simp at h₁ h₂
  omega

/-- No letter of `inf` or `nan` is among them that both words start with or
contain. -/
theorem isNumeralChar_toLower {c : Char} (h : isNumeralChar c = true) :
    c.toLower ≠ 'i' ∧ c.toLower ≠ 'n' := by
  simp only [isNumeralChar, Cut.startsNumeral, Cut.isSign, Bool.or_eq_true, beq_iff_eq] at h
  rcases h with ((((hdigit | rfl) | rfl | rfl) | rfl) | rfl)
  · rw [isDigit_toLower hdigit]
    constructor <;> rintro rfl <;> cases hdigit
  all_goals decide

theorem readUnsigned_text (negative : Bool) (n : Numeral) :
    Binary64.readUnsigned? negative n.text = some (n.decimal.toBinary64 negative) := by
  obtain ⟨c, cs, htext, hstart⟩ := n.head_text
  have hchar := isNumeralChar_toLower (c := c) (by simp [isNumeralChar, hstart])
  have hread := n.read_text
  rw [htext] at hread ⊢
  simp [Binary64.readUnsigned?, hchar, hread]

/-- An operand reads as its value. -/
theorem Operand.read_text (o : Operand) : Binary64.read? o.text = some o.value := by
  obtain ⟨sign, n⟩ := o
  match sign with
  | some .plus => exact readUnsigned_text false n
  | some .minus => exact readUnsigned_text true n
  | none =>
    have hsign := n.notStarting_sign
    have hread := readUnsigned_text false n
    obtain ⟨c, cs, htext, -⟩ := n.head_text
    rw [htext, notStarting_cons] at hsign
    simp only [Cut.isSign, Bool.or_eq_false_iff, beq_eq_false_iff_ne] at hsign
    rw [htext] at hread
    simp only [text, Sign.text, List.nil_append, value, htext]
    rw [Binary64.read?]
    · exact hread
    · simp [hsign]
    · simp [hsign]

/-! ## What a cut takes -/

/-- The cut takes characters of this kind only. -/
def Takes (kind : Char → Bool) (cut : Cut) : Prop := ∀ cs, ∀ c ∈ (cut cs).1, kind c = true

section Takes

variable {kind : Char → Bool}

theorem takes_nothing : Takes kind Cut.nothing := by
  intro cs c hc
  cases hc

theorem takes_digits (hdigit : ∀ c, c.isDigit = true → kind c = true) : Takes kind Cut.digits :=
  fun _ c hc => hdigit c (of_mem_takeWhile hc)

theorem Takes.andThen {first second : Cut} (hfirst : Takes kind first)
    (hsecond : Takes kind second) : Takes kind (first.andThen second) := by
  intro cs c hc
  rcases List.mem_append.mp hc with hc | hc
  · exact hfirst _ _ hc
  · exact hsecond _ _ hc

theorem Takes.marked {mark : Char → Bool} {tail : Cut} (hmark : ∀ c, mark c = true → kind c = true)
    (htail : Takes kind tail) : Takes kind (Cut.marked mark tail) := by
  intro cs c hc
  cases cs with
  | nil => cases hc
  | cons d cs =>
    by_cases hd : mark d = true
    · simp only [Cut.marked, hd, ↓reduceIte, List.mem_cons] at hc
      rcases hc with rfl | hc
      · exact hmark _ hd
      · exact htail _ _ hc
    · simp only [Cut.marked, hd, Bool.false_eq_true, ↓reduceIte, List.not_mem_nil] at hc

end Takes

theorem takes_numeral : Takes isNumeralChar Cut.numeral := by
  have hdigits : Takes isNumeralChar Cut.digits :=
    takes_digits fun c hc => by simp [isNumeralChar, Cut.startsNumeral, hc]
  have hsign : Takes isNumeralChar Cut.sign :=
    takes_nothing.marked fun c hc => by simp [isNumeralChar, hc]
  have hfraction : Takes isNumeralChar Cut.fraction :=
    hdigits.marked fun c hc => by simp_all [isNumeralChar, Cut.startsNumeral]
  have hexponent : Takes isNumeralChar Cut.exponent :=
    (hsign.andThen hdigits).marked fun c hc => by
      simp only [Bool.or_eq_true, beq_iff_eq] at hc
      rcases hc with rfl | rfl <;> decide
  exact ((hsign.andThen hdigits).andThen hfraction).andThen hexponent

theorem exists_numeral_of_readUnsigned {negative : Bool} {cs : List Char} {x : Binary64}
    (hcs : ∀ c ∈ cs, isNumeralChar c = true) (h : Binary64.readUnsigned? negative cs = some x) :
    ∃ n : Numeral, n.text = cs ∧ n.decimal.toBinary64 negative = x := by
  have no_word : ∀ word, 'n' ∈ word → cs.map Char.toLower ≠ word := by
    intro word hword hmap
    rw [← hmap] at hword
    obtain ⟨c, hc, hlower⟩ := List.mem_map.mp hword
    exact (isNumeralChar_toLower (hcs c hc)).2 hlower
  unfold Binary64.readUnsigned? at h
  rw [if_neg, if_neg] at h
  · obtain ⟨d, hd, rfl⟩ := Option.map_eq_some_iff.mp h
    obtain ⟨n, hn, rfl⟩ := Numeral.exists_of_read hd
    exact ⟨n, hn, rfl⟩
  · exact no_word _ (by decide)
  · rintro (h | h)
    · exact no_word _ (by decide) h
    · exact no_word _ (by decide) h

/-- What is cut as a number and reads as one is an operand. -/
theorem exists_operand_of_read {cs : List Char} {x : Binary64}
    (hcs : ∀ c ∈ cs, isNumeralChar c = true) (h : Binary64.read? cs = some x) :
    ∃ o : Operand, o.text = cs ∧ o.value = x := by
  unfold Binary64.read? at h
  split at h
  · obtain ⟨n, hn, hx⟩ := exists_numeral_of_readUnsigned (fun c hc => hcs c (.tail _ hc)) h
    exact ⟨⟨some .plus, n⟩, by rw [Operand.text, hn]; rfl, hx⟩
  · obtain ⟨n, hn, hx⟩ := exists_numeral_of_readUnsigned (fun c hc => hcs c (.tail _ hc)) h
    exact ⟨⟨some .minus, n⟩, by rw [Operand.text, hn]; rfl, hx⟩
  · obtain ⟨n, hn, hx⟩ := exists_numeral_of_readUnsigned hcs h
    exact ⟨⟨none, n⟩, by rw [Operand.text, hn]; rfl, hx⟩

/-! ## Cuts on the text of an operand -/

/-- The text is empty or starts with an operator. -/
def Follows (tail : List Char) : Prop := ∀ c ∈ tail.head?, (Operator.ofChar? c).isSome = true

theorem follows_nil : Follows [] := by
  intro c hc
  cases hc

theorem follows_operator (op : Operator) (cs : List Char) : Follows (op.toChar :: cs) := by
  intro c hc
  obtain rfl := Option.mem_some_iff.mp hc
  cases op <;> rfl

theorem ofChar_toChar (op : Operator) : Operator.ofChar? op.toChar = some op := by
  cases op <;> rfl

theorem toChar_of_ofChar {c : Char} {op : Operator} (h : Operator.ofChar? c = some op) :
    op.toChar = c := by
  unfold Operator.ofChar? at h
  split at h <;> cases h <;> rfl

/-- No operator character belongs to these kinds, so none continues a number. -/
theorem Follows.notStarting {tail : List Char} {kind : Char → Bool} (h : Follows tail)
    (hkind : ∀ op : Operator, kind op.toChar = false) : NotStarting kind tail := by
  intro c hc
  obtain ⟨op, hop⟩ := Option.isSome_iff_exists.mp (h c hc)
  rw [← toChar_of_ofChar hop]
  exact hkind op

theorem Follows.notStarting_digit {tail : List Char} (h : Follows tail) :
    NotStarting Char.isDigit tail := by
  apply h.notStarting
  intro op
  cases op <;> rfl

theorem Follows.notStarting_point {tail : List Char} (h : Follows tail) :
    NotStarting (· == '.') tail := by
  apply h.notStarting
  intro op
  cases op <;> rfl

theorem cut_andThen {first second : Cut} {a b tail : List Char}
    (hfirst : first (a ++ (b ++ tail)) = (a, b ++ tail)) (hsecond : second (b ++ tail) = (b, tail)) :
    first.andThen second (a ++ b ++ tail) = (a ++ b, tail) := by
  simp only [Cut.andThen, List.append_assoc, hfirst, hsecond]

theorem cut_digits {run tail : List Char} (hrun : ∀ c ∈ run, c.isDigit = true)
    (htail : NotStarting Char.isDigit tail) : Cut.digits (run ++ tail) = (run, tail) := by
  rw [Cut.digits, takeWhile_run hrun htail, dropWhile_run hrun htail]

theorem cut_unmarked {mark : Char → Bool} {cut : Cut} {tail : List Char}
    (htail : NotStarting mark tail) : Cut.marked mark cut tail = ([], tail) := by
  cases tail with
  | nil => rfl
  | cons c cs => simp [Cut.marked, notStarting_cons.mp htail]

theorem cut_sign (sign : Option Sign) {tail : List Char} (htail : NotStarting Cut.isSign tail) :
    Cut.sign (Sign.text sign ++ tail) = (Sign.text sign, tail) := by
  cases sign with
  | none => exact cut_unmarked htail
  | some sign => simp [Cut.sign, Sign.text, Cut.marked, sign.isSign, Cut.nothing]

theorem cut_fraction {fraction : Option (List Char)} {tail : List Char}
    (hfraction : ∀ c ∈ fraction.getD [], c.isDigit = true) (hdigit : NotStarting Char.isDigit tail)
    (hpoint : NotStarting (· == '.') tail) :
    Cut.fraction (pointed fraction ++ tail) = (pointed fraction, tail) := by
  cases fraction with
  | none => exact cut_unmarked hpoint
  | some fraction =>
    have hcut := cut_digits hfraction hdigit
    simp only [Option.getD_some] at hcut
    simp [Cut.fraction, pointed, Cut.marked, hcut]

theorem cut_exponent (e : Option Exponent) {tail : List Char} (htail : Follows tail) :
    Cut.exponent (Numeral.exponentText e ++ tail) = (Numeral.exponentText e, tail) := by
  cases e with
  | none =>
    apply cut_unmarked
    apply htail.notStarting
    intro op
    cases op <;> rfl
  | some e =>
    have hdigits : Cut.digits (e.digits.chars ++ tail) = (e.digits.chars, tail) :=
      cut_digits e.digits.isDigit htail.notStarting_digit
    have hsign := cut_sign e.sign (e.digits.notStarting_sign.append e.digits.nonempty tail)
    have hcut := cut_andThen hsign hdigits
    rw [List.append_assoc] at hcut
    rcases e.mark_eq with hmark | hmark <;>
      simp [Numeral.exponentText, Exponent.text, Cut.exponent, Cut.marked, hmark, hcut]

/-- After a mantissa comes an exponent or what follows the operand. -/
theorem notStarting_exponentText {kind : Char → Bool} (e : Option Exponent) {tail : List Char}
    (hlower : kind 'e' = false) (hupper : kind 'E' = false) (htail : NotStarting kind tail) :
    NotStarting kind (Numeral.exponentText e ++ tail) := by
  cases e with
  | none => exact htail
  | some e =>
    rcases e.mark_eq with hmark | hmark <;>
      simpa [Numeral.exponentText, Exponent.text, hmark, notStarting_cons]

/-- The cut takes an operand whole, and nothing of what follows it. -/
theorem cut_numeral (o : Operand) {tail : List Char} (htail : Follows tail) :
    Cut.numeral (o.text ++ tail) = (o.text, tail) := by
  obtain ⟨sign, m, e⟩ := o
  have hafter : NotStarting Char.isDigit (Numeral.exponentText e ++ tail) :=
    notStarting_exponentText e rfl rfl htail.notStarting_digit
  have hpoint : NotStarting (· == '.') (Numeral.exponentText e ++ tail) :=
    notStarting_exponentText e rfl rfl htail.notStarting_point
  have hpointed : NotStarting Char.isDigit
      (pointed m.fraction? ++ (Numeral.exponentText e ++ tail)) := by
    cases m.fraction? with
    | none => exact hafter
    | some fraction => exact notStarting_cons.mpr rfl
  have hnumeral : NotStarting Cut.isSign
      (m.wholeDigits ++ (pointed m.fraction? ++ (Numeral.exponentText e ++ tail))) := by
    obtain ⟨c, cs, htext, -⟩ := Numeral.head_text ⟨m, e⟩
    have h := (Numeral.notStarting_sign ⟨m, e⟩).append (by rw [htext]; simp) tail
    simpa only [Numeral.text, m.text_eq, List.append_assoc] using h
  have hsigned := cut_andThen (cut_sign sign hnumeral) (cut_digits m.isDigit_whole hpointed)
  have hmantissa := cut_andThen hsigned (cut_fraction m.isDigit_fraction hafter hpoint)
  have hall := cut_andThen hmantissa (cut_exponent e htail)
  simpa only [Cut.numeral, Operand.text, Numeral.text, m.text_eq, List.append_assoc] using hall

/-- The cut takes nothing but characters of numerals. -/
theorem Operand.isNumeralChar_text (o : Operand) : ∀ c ∈ o.text, isNumeralChar c = true := by
  intro c hc
  have hcut := cut_numeral o follows_nil
  apply takes_numeral (o.text ++ [])
  rw [hcut]
  exact hc

/-! ## Lexemes -/

theorem lexFrom_nil (afterNumber : Bool) : Lexeme.lexFrom afterNumber [] = .ok [] := by
  rw [Lexeme.lexFrom]

theorem lexFrom_of_next {afterNumber : Bool} {c : Char} {cs rest : List Char} {lexeme : Lexeme}
    (h : Lexeme.next afterNumber c cs = .ok (lexeme, rest)) :
    Lexeme.lexFrom afterNumber (c :: cs) =
      (Lexeme.lexFrom lexeme.isNumber rest).map (lexeme :: ·) := by
  rw [Lexeme.lexFrom]
  split
  · rename_i herror
    rw [h] at herror
    cases herror
  · rename_i hok
    rw [h] at hok
    cases hok
    rfl

theorem lexFrom_of_next_error {afterNumber : Bool} {c : Char} {cs : List Char}
    {reason : Malformation} (h : Lexeme.next afterNumber c cs = .error reason) :
    Lexeme.lexFrom afterNumber (c :: cs) = .error reason := by
  rw [Lexeme.lexFrom]
  split
  · next herror =>
    rw [h] at herror
    cases herror
    rfl
  · next hok =>
    rw [h] at hok
    cases hok

/-- An operand opens a number where no number stands before it. -/
theorem startsNumber_operand (o : Operand) (tail : List Char) :
    ∃ c cs, o.text ++ tail = c :: cs ∧ Lexeme.startsNumber false c cs = true := by
  obtain ⟨sign, n⟩ := o
  obtain ⟨c, cs, htext, hstart⟩ := n.head_text
  cases sign with
  | none => exact ⟨c, cs ++ tail, by rw [Operand.text, htext]; rfl, by simp [Lexeme.startsNumber, hstart]⟩
  | some sign =>
    exact ⟨sign.toChar, c :: cs ++ tail, by rw [Operand.text, htext]; rfl,
      by simp [Lexeme.startsNumber, sign.isSign, hstart]⟩

/-- Where an operand stands and an operator or the end comes next, the lexer
cuts the operand. -/
theorem lexFrom_operand (o : Operand) {tail : List Char} (htail : Follows tail) :
    Lexeme.lexFrom false (o.text ++ tail) =
      (Lexeme.lexFrom true tail).map (o.lexeme :: ·) := by
  obtain ⟨c, cs, htext, hstart⟩ := startsNumber_operand o tail
  have hcut := cut_numeral o htail
  rw [htext] at hcut ⊢
  have hnext : Lexeme.next false c cs = .ok (o.lexeme, tail) := by
    simp only [Lexeme.next, hstart, ↓reduceIte, hcut, o.read_text]
    rfl
  exact lexFrom_of_next hnext

/-- Behind a number every operator character is an operator. -/
theorem lexFrom_operator (op : Operator) (cs : List Char) :
    Lexeme.lexFrom true (op.toChar :: cs) =
      (Lexeme.lexFrom false cs).map (.operator op :: ·) := by
  have hstart : Lexeme.startsNumber true op.toChar cs = false := by
    cases op <;> simp [Lexeme.startsNumber, Operator.toChar, Cut.startsNumeral]
  have hnext : Lexeme.next true op.toChar cs = .ok (.operator op, cs) := by
    simp [Lexeme.next, hstart, ofChar_toChar]
  exact lexFrom_of_next hnext

/-! ## Whole texts -/

/-- The characters of a chain of operands. -/
def Chain.text (chain : Chain Operand) : List Char :=
  chain.spell Operand.text fun op => [op.toChar]

/-- The lexemes of a chain of operands. -/
def Chain.lexemes (chain : Chain Operand) : List Lexeme :=
  chain.spell (fun o => [o.lexeme]) fun op => [.operator op]

theorem Chain.text_cons (o o' : Operand) (op : Operator) (rest : List (Operator × Operand)) :
    Chain.text ⟨o, (op, o') :: rest⟩ = o.text ++ op.toChar :: Chain.text ⟨o', rest⟩ := by
  simp [Chain.text, Chain.spell]

theorem Chain.lexemes_cons (o o' : Operand) (op : Operator) (rest : List (Operator × Operand)) :
    Chain.lexemes ⟨o, (op, o') :: rest⟩ = o.lexeme :: .operator op :: Chain.lexemes ⟨o', rest⟩ := rfl

/-- The lexer finds the operands and operators of a chain. -/
theorem lexFrom_chain (o : Operand) (rest : List (Operator × Operand)) :
    Lexeme.lexFrom false (Chain.text ⟨o, rest⟩) = .ok (Chain.lexemes ⟨o, rest⟩) := by
  induction rest generalizing o with
  | nil =>
    have h := lexFrom_operand o follows_nil
    rw [lexFrom_nil] at h
    simpa [Chain.text, Chain.lexemes, Chain.spell, Except.map] using h
  | cons step rest ih =>
    obtain ⟨op, o'⟩ := step
    rw [Chain.text_cons, lexFrom_operand o (follows_operator op _), lexFrom_operator, ih,
      Chain.lexemes_cons]
    rfl

/-- The lexer finds the operands and operators of an expression. -/
theorem lex_text (e : Expression Operand) : Lexeme.lex e.text = .ok e.lexemes := by
  have h := lexFrom_chain e.chain.first e.chain.rest
  rwa [Chain.text, Chain.lexemes, Expression.spell_chain, Expression.spell_chain] at h

theorem Operand.lexeme_inj {o o' : Operand} (h : o.lexeme = o'.lexeme) : o = o' :=
  Operand.text_inj (Lexeme.number.inj h).1

theorem Chain.lexemes_inj {c c' : Chain Operand} (h : c.lexemes = c'.lexemes) : c = c' := by
  obtain ⟨o, rest⟩ := c
  obtain ⟨o', rest'⟩ := c'
  induction rest generalizing o o' rest' with
  | nil =>
    cases rest' with
    | nil =>
      obtain rfl : o = o' := Operand.lexeme_inj (List.cons.inj h).1
      rfl
    | cons step rest' => cases (List.cons.inj h).2
  | cons step rest ih =>
    obtain ⟨op, x⟩ := step
    cases rest' with
    | nil => cases (List.cons.inj h).2
    | cons step' rest' =>
      obtain ⟨op', x'⟩ := step'
      rw [lexemes_cons, lexemes_cons] at h
      obtain ⟨hfirst, htail⟩ := List.cons.inj h
      obtain ⟨hop, hrest⟩ := List.cons.inj htail
      obtain ⟨rfl, rfl⟩ := Chain.mk.inj (ih x x' rest' hrest)
      obtain rfl : o = o' := Operand.lexeme_inj hfirst
      obtain rfl := Lexeme.operator.inj hop
      rfl

/-- A text has at most one derivation. -/
theorem derivation_unique {e e' : Expression Operand} (h : e.text = e'.text) : e = e' := by
  have hlex := lex_text e
  rw [h, lex_text e'] at hlex
  have hlexemes := Except.ok.inj hlex
  rw [Expression.lexemes, Expression.lexemes, ← Expression.spell_chain, ← Expression.spell_chain]
    at hlexemes
  rw [← group_chain e, ← group_chain e', Chain.lexemes_inj hlexemes]

/-! ## Numbers in any text -/

/-- The lexeme is an operator, or a number with the text and the value of an
operand. -/
def Genuine : Lexeme → Prop
  | .number source value => ∃ o : Operand, o.text = source ∧ o.value = value
  | .operator _ => True

theorem genuine_of_next {afterNumber : Bool} {c : Char} {cs rest : List Char} {lexeme : Lexeme}
    (h : Lexeme.next afterNumber c cs = .ok (lexeme, rest)) : Genuine lexeme := by
  unfold Lexeme.next at h
  split at h
  · dsimp only at h
    split at h
    · rename_i value hread
      cases h
      exact exists_operand_of_read (takes_numeral _) hread
    · cases h
  · split at h
    · cases h
      trivial
    · cases h

theorem source_of_next {afterNumber : Bool} {c : Char} {cs rest : List Char} {lexeme : Lexeme}
    (h : Lexeme.next afterNumber c cs = .ok (lexeme, rest)) : lexeme.source ++ rest = c :: cs := by
  unfold Lexeme.next at h
  split at h
  · dsimp only at h
    split at h
    · cases h
      exact Cut.lossless_numeral _
    · cases h
  · split at h
    · rename_i op hop
      cases h
      rw [Lexeme.source, toChar_of_ofChar hop]
      rfl
    · cases h

/-- The lexemes of a text are genuine and make up the text. -/
theorem lexFrom_sound {afterNumber : Bool} {cs : List Char} {lexemes : List Lexeme}
    (h : Lexeme.lexFrom afterNumber cs = .ok lexemes) :
    (∀ lexeme ∈ lexemes, Genuine lexeme) ∧ lexemes.flatMap Lexeme.source = cs := by
  fun_induction Lexeme.lexFrom afterNumber cs generalizing lexemes with
  | case1 afterNumber =>
    cases h
    simp
  | case2 afterNumber c cs reason hnext => cases h
  | case3 afterNumber c cs lexeme rest hnext ih =>
    cases hrest : Lexeme.lexFrom lexeme.isNumber rest with
    | error reason =>
      rw [hrest] at h
      cases h
    | ok more =>
      rw [hrest] at h
      cases h
      obtain ⟨hgenuine, hsource⟩ := ih hrest
      refine ⟨List.forall_mem_cons.mpr ⟨genuine_of_next hnext, hgenuine⟩, ?_⟩
      rw [List.flatMap_cons, hsource, source_of_next hnext]

end ArithScript.Grammar
