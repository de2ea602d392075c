import Mathlib.Data.List.Infix
import ArithScript.Script
import ArithScript.Proofs.Slices
import ArithScript.Proofs.Texts

/-!
# Lines by their offsets

A scan of a source finds its lines by byte offsets: it searches the bytes for line breaks and
cuts the source there. No character but the line break has the byte that is searched for in
its UTF-8 form (`Text.toNat_eq_of_mem_utf8EncodeChar`), so a line goes from the end of one
character to the end of another. The invariant of the scan is that it starts behind the lines
read so far and the break of each of them (`Script.foldlM_next?`). Hence no slice fails
(`Script.scan_slices`), and what is found are the statements of the lines that the breaks
separate (`Script.statements_scanned`).
-/

namespace ArithScript

/-! ## Bytes of a text -/

namespace Text

variable {byte : UInt8}

theorem offsets_append (first second : String) : offsets byte (first ++ second) =
    offsets byte first ++ (offsets byte second).map (first.utf8ByteSize + ·) := by
  have hshift : second.toByteArray.data.toList.zipIdx (0 + first.toByteArray.data.toList.length) =
      second.toByteArray.data.toList.zipIdx.map (Prod.map id (· + first.utf8ByteSize)) := by
    rw [List.map_snd_add_zipIdx_eq_zipIdx, Nat.add_comm]
    rfl
  rw [offsets, String.toByteArray_append, ByteArray.toList_data_append, List.zipIdx_append,
    List.filterMap_append, hshift, List.filterMap_map, offsets, offsets, List.map_filterMap]
  congr 2
  funext ⟨found, offset⟩
  dsimp only [Function.comp_apply, Prod.map, id]
  split
  · exact congrArg some (Nat.add_comm ..)
  · rfl

theorem offsets_eq_nil {text : String} (hascii : byte.toNat < 128)
    (h : ∀ c ∈ text.toList, c.toNat ≠ byte.toNat) : offsets byte text = [] := by
  rw [offsets, List.filterMap_eq_nil_iff]
  rintro ⟨found, offset⟩ hfound
  refine if_neg fun heq => ?_
  have hmem := List.fst_mem_of_mem_zipIdx hfound
  rw [← String.utf8Encode_toList, List.utf8Encode, List.data_toByteArray] at hmem
  obtain ⟨c, hc, hbyte⟩ := List.mem_flatMap.mp hmem
  exact h c hc (toNat_eq_of_mem_utf8EncodeChar hascii (heq ▸ hbyte))

end Text

namespace Script

/-! ## Ends of lines -/

variable {line rest : String}

theorem offsets_line (hline : '\n' ∉ line.toList) : Text.offsets '\n'.toUInt8 line = [] := by
  refine Text.offsets_eq_nil (by decide) fun c hc hbreak => hline ?_
  have hchar : c = '\n' := Char.toNat_inj.mp hbreak
  rwa [← hchar]

theorem lineEnds_line (hline : '\n' ∉ line.toList) : lineEnds line = [line.utf8ByteSize] := by
  rw [lineEnds, offsets_line hline, List.nil_append]

theorem lineEnds_append (hline : '\n' ∉ line.toList) : lineEnds (line ++ "\n" ++ rest) =
    line.utf8ByteSize :: (lineEnds rest).map ((line ++ "\n").utf8ByteSize + ·) := by
  have hbreak : Text.offsets '\n'.toUInt8 "\n" = [0] := by decide +kernel
  rw [lineEnds, Text.offsets_append, Text.offsets_append, offsets_line hline, hbreak,
    List.nil_append, lineEnds, List.map_append, String.utf8ByteSize_append (t := rest)]
  rfl

/-! ## Lines of a source -/

/-- The lines of a source, numbered from 1. What follows the last line break is
a line too. -/
def numberedLines (source : String) : List Statement :=
  ((Text.pieces '\n' source).zipIdx 1).map fun (line, number) => ⟨number, dropReturn line⟩

/-- The statements on lines that are numbered from `number` on. -/
def statementsOn (number : Nat) (lines : List String) : List Statement :=
  ((lines.zipIdx number).map fun (line, number) => (⟨number, dropReturn line⟩ : Statement)).filter
    fun statement => isStatement statement.text

theorem statementsOn_cons (number : Nat) (line : String) (lines : List String) :
    statementsOn number (line :: lines) =
      statementsOn number [line] ++ statementsOn (number + 1) lines := by
  rw [statementsOn, List.zipIdx_cons, List.map_cons, ← List.singleton_append, List.filter_append]
  rfl

theorem mem_of_mem_dropReturn {text : String} {c : Char} (h : c ∈ (dropReturn text).toList) :
    c ∈ text.toList := by
  unfold dropReturn at h
  split at h
  · rw [String.toList_ofList] at h
    exact List.mem_of_mem_dropLast h
  · exact h

/-! ## Scans -/

/-- A scan that stands behind `front` reads the line that comes there. -/
theorem Scan.next?_line (front line back : String) (number : Nat) (found : Array Statement) :
    Scan.next? (front ++ line ++ back) ⟨front.utf8ByteSize, number, found⟩
        (front.utf8ByteSize + line.utf8ByteSize) =
      some ⟨front.utf8ByteSize + line.utf8ByteSize + 1, number + 1,
        found ++ (statementsOn number [line]).toArray⟩ := by
  rw [Scan.next?, Text.slice?_append]
  by_cases hkept : isStatement (dropReturn line) = true
  · have honly : statementsOn number [line] = [⟨number, dropReturn line⟩] :=
      List.filter_cons_of_pos hkept
    simp only [bind, Option.bind, pure]
    rw [if_pos hkept, honly]
    rfl
  · have hnone : statementsOn number [line] = [] := List.filter_cons_of_neg hkept
    simp only [bind, Option.bind, pure]
    rw [if_neg hkept, hnone]
    simp

/-- The scan of the lines behind `front`, by induction on the lines. -/
theorem foldlM_next? {lines : List String} (hne : lines ≠ [])
    (hlines : ∀ line ∈ lines, '\n' ∉ line.toList) (front : String) (number : Nat)
    (found : Array Statement) :
    ((lineEnds ("\n".intercalate lines)).map (front.utf8ByteSize + ·)).foldlM
        (Scan.next? (front ++ "\n".intercalate lines)) ⟨front.utf8ByteSize, number, found⟩ =
      some ⟨(front ++ "\n".intercalate lines).utf8ByteSize + 1, number + lines.length,
        found ++ (statementsOn number lines).toArray⟩ := by
  induction lines generalizing front number found with
  | nil => exact absurd rfl hne
  | cons line lines ih =>
    obtain ⟨hline, hlines⟩ := List.forall_mem_cons.mp hlines
    cases lines with
    | nil =>
      have hstep := Scan.next?_line front line "" number found
      rw [String.append_empty] at hstep
      rw [String.intercalate_singleton, lineEnds_line hline, List.map_singleton,
        List.foldlM_cons, hstep, String.utf8ByteSize_append]
      rfl
    | cons next lines =>
      obtain ⟨rest, hrest⟩ : ∃ rest, "\n".intercalate (next :: lines) = rest := ⟨_, rfl⟩
      -- The line and its break go to the front, behind which the scan of the rest starts.
      have hstep := Scan.next?_line front line ("\n" ++ rest) number found
      have hscan := ih (List.cons_ne_nil _ _) hlines (front ++ line ++ "\n") (number + 1)
        (found ++ (statementsOn number [line]).toArray)
      have hbehind : (front ++ line ++ "\n").utf8ByteSize =
          front.utf8ByteSize + line.utf8ByteSize + 1 := by
        rw [String.utf8ByteSize_append, String.utf8ByteSize_append]
        rfl
      have hshift : (front.utf8ByteSize + ·) ∘ ((line ++ "\n").utf8ByteSize + ·) =
          ((front ++ line ++ "\n").utf8ByteSize + ·) := by
        funext offset
        simp only [Function.comp_apply, String.utf8ByteSize_append, Nat.add_assoc]
      rw [← String.append_assoc, ← hbehind] at hstep
      rw [hrest] at hscan
      rw [String.intercalate_cons_cons, hrest, lineEnds_append hline, List.map_cons,
        List.foldlM_cons, ← String.append_assoc, ← String.append_assoc, hstep, List.map_map, hshift]
      refine hscan.trans ?_
      rw [statementsOn_cons number line (next :: lines), Array.append_assoc,
        List.append_toArray (statementsOn number [line]), Nat.add_assoc, Nat.add_comm 1]
      rfl

/-- The scan of a source reads all its lines. -/
theorem scan?_eq (source : String) : scan? source =
    some ⟨source.utf8ByteSize + 1, 1 + (Text.pieces '\n' source).length,
      (statementsOn 1 (Text.pieces '\n' source)).toArray⟩ := by
  obtain ⟨hne, hlines, -⟩ := Text.pieces_eq_iff.mp (rfl : Text.pieces '\n' source = _)
  have hscan := foldlM_next? hne hlines "" 1 #[]
  have hjoined : "\n".intercalate (Text.pieces '\n' source) = source :=
    Text.intercalate_pieces '\n' source
  have hstart : ("".utf8ByteSize + · : Nat → Nat) = id := funext fun _ => Nat.zero_add _
  rw [hjoined, hstart, List.map_id, String.empty_append, Array.empty_append] at hscan
  exact hscan

theorem statements_eq (source : String) :
    statements source = (numberedLines source).filter fun line => isStatement line.text := by
  rw [statements, scan?_eq]
  rfl

/-- What the scan stands at and where it cuts are the two ends of a slice, at every end of
a line. -/
theorem scan_slices {source : String} {before after : List Nat} {stop : Nat}
    (h : lineEnds source = before ++ stop :: after) :
    ∃ scan, before.foldlM (Scan.next? source) Scan.first = some scan ∧
      scan.start ≤ stop ∧ String.Pos.Raw.IsValid source ⟨scan.start⟩ ∧
        String.Pos.Raw.IsValid source ⟨stop⟩ := by
  have hscan := scan?_eq source
  rw [scan?, h, List.foldlM_append, Option.bind_eq_bind, Option.bind_eq_some_iff] at hscan
  obtain ⟨scan, hbefore, hscan⟩ := hscan
  rw [List.foldlM_cons, Option.bind_eq_bind, Option.bind_eq_some_iff] at hscan
  obtain ⟨next, hnext, -⟩ := hscan
  rw [Scan.next?, Option.bind_eq_bind, Option.bind_eq_some_iff] at hnext
  obtain ⟨line, hslice, -⟩ := hnext
  exact ⟨scan, hbefore, Text.bounds_of_slice? hslice⟩

/-! ## Statements of a source -/

/-- The line is the text with a carriage return behind it, or the text itself where there is
no such character at its end. -/
inductive Stripped : (line text : String) → Prop
  | returned (text : String) : Stripped (text ++ "\r") text
  | bare {text : String} (h : text.toList.getLast? ≠ some '\r') : Stripped text text

theorem dropReturn_eq_iff {line text : String} : dropReturn line = text ↔ Stripped line text := by
  constructor
  · rintro rfl
    unfold dropReturn
    split
    · rename_i hlast
      have hline : line = String.ofList line.toList.dropLast ++ "\r" := by
        rw [← String.toList_inj, String.toList_append, String.toList_ofList]
        exact (List.dropLast_append_getLast? _ hlast).symm
      generalize line.toList.dropLast = cs at hline ⊢
      rw [hline]
      exact .returned _
    · exact .bare ‹_›
  · rintro (_ | h)
    · have hlast : (text ++ "\r").toList = text.toList ++ ['\r'] := String.toList_append
      rw [dropReturn, hlast, List.getLast?_concat, if_pos rfl, List.dropLast_concat,
        String.ofList_toList]
    · exact if_neg h

theorem isStatement_iff {text : String} : isStatement text = true ↔
    Text.trim text ≠ "" ∧ ¬ ['/', '/'] <+: (Text.trim text).toList := by
  have hslashes (cs : List Char) : cs.take 2 = ['/', '/'] ↔ ['/', '/'] <+: cs := by
    rw [List.prefix_iff_eq_take, eq_comm]
    rfl
  rw [isStatement, Bool.and_eq_true, Bool.not_eq_true', List.isEmpty_eq_false_iff, bne_iff_ne,
    ne_eq, ne_eq, String.toList_eq_nil_iff, hslashes]

theorem mem_statements {source : String} {statement : Statement} :
    statement ∈ statements source ↔
      ∃ line, (line, statement.number) ∈ (Text.pieces '\n' source).zipIdx 1 ∧
        Stripped line statement.text ∧ Text.trim statement.text ≠ "" ∧
          ¬ ['/', '/'] <+: (Text.trim statement.text).toList := by
  rw [statements_eq, List.mem_filter, isStatement_iff, numberedLines, List.mem_map]
  constructor
  · rintro ⟨⟨⟨line, number⟩, hline, rfl⟩, hkept⟩
    exact ⟨line, hline, dropReturn_eq_iff.mp rfl, hkept⟩
  · rintro ⟨line, hline, hstripped, hkept⟩
    exact ⟨⟨(line, statement.number), hline,
      congrArg (Statement.mk _) (dropReturn_eq_iff.mpr hstripped)⟩, hkept⟩

theorem pairwise_number_statements (source : String) :
    (statements source).Pairwise (·.number < ·.number) := by
  have hnumbers : ((Text.pieces '\n' source).zipIdx 1).Pairwise (·.2 < ·.2) := by
    rw [← List.pairwise_map (f := Prod.snd) (R := (· < ·)), List.zipIdx_map_snd]
    exact List.pairwise_lt_range'
  rw [statements_eq, numberedLines]
  refine List.Pairwise.filter _ ?_
  rw [List.pairwise_map]
  exact hnumbers

theorem oneLine_statement {source : String} {statement : Statement}
    (h : statement ∈ statements source) : '\n' ∉ statement.text.toList := by
  obtain ⟨-, hlines, -⟩ := Text.pieces_eq_iff.mp (rfl : Text.pieces '\n' source = _)
  obtain ⟨line, hline, hstripped, -⟩ := mem_statements.mp h
  intro hbreak
  rw [← dropReturn_eq_iff.mpr hstripped] at hbreak
  exact hlines line (List.fst_mem_of_mem_zipIdx hline) (mem_of_mem_dropReturn hbreak)

/-- **The statements of a source**: the scan reads every source, and what it cuts out at the
end of a line is always a slice. There are lines without line breaks that the line breaks
join to the source, and a statement has the number of a line and its text, without one
carriage return at its end; that text is not blank and does not start with `//` when it is
trimmed. All such lines are there, in order of their numbers. -/
theorem statements_scanned (source : String) :
    (∃ scan, scan? source = some scan ∧ scan.found.toList = statements source) ∧
    (∀ before stop after, lineEnds source = before ++ stop :: after →
      ∃ scan, before.foldlM (Scan.next? source) Scan.first = some scan ∧
        scan.start ≤ stop ∧ stop ≤ source.utf8ByteSize ∧
          String.Pos.Raw.IsValid source ⟨scan.start⟩ ∧ String.Pos.Raw.IsValid source ⟨stop⟩) ∧
    (∃ lines, lines ≠ [] ∧ (∀ line ∈ lines, '\n' ∉ line.toList) ∧
      "\n".intercalate lines = source ∧
      ∀ statement, statement ∈ statements source ↔
        ∃ line, (line, statement.number) ∈ lines.zipIdx 1 ∧ Stripped line statement.text ∧
          Text.trim statement.text ≠ "" ∧
            ¬ ['/', '/'] <+: (Text.trim statement.text).toList) ∧
    (statements source).Pairwise (·.number < ·.number) ∧
    ∀ statement ∈ statements source, '\n' ∉ statement.text.toList := by
  obtain ⟨hne, hlines, -⟩ := Text.pieces_eq_iff.mp (rfl : Text.pieces '\n' source = _)
  refine ⟨⟨_, scan?_eq source, ?_⟩, fun before stop after hends => ?_,
    ⟨_, hne, hlines, Text.intercalate_pieces '\n' source, fun _ => mem_statements⟩,
    pairwise_number_statements source, fun _ => oneLine_statement⟩
  · rw [statements_eq]
    rfl
  · obtain ⟨scan, hbefore, hle, hstart, hstop⟩ := scan_slices hends
    exact ⟨scan, hbefore, hle, hstop.le_rawEndPos, hstart, hstop⟩

/-- A line may start behind a character of two bytes and a break. -/
theorem scan_behind_accent :
    lineEnds "é\nb" = [2] ++ 4 :: [] ∧
      ∃ scan, [2].foldlM (Scan.next? "é\nb") Scan.first = some scan ∧
        scan.start ≤ 4 ∧ 4 ≤ "é\nb".utf8ByteSize ∧
          String.Pos.Raw.IsValid "é\nb" ⟨scan.start⟩ ∧ String.Pos.Raw.IsValid "é\nb" ⟨4⟩ := by
  have hends : lineEnds "é\nb" = [2] ++ 4 :: [] := by decide +kernel
  exact ⟨hends, (statements_scanned "é\nb").2.1 [2] 4 [] hends⟩

end Script

end ArithScript
