import PostfixSheet.Proofs.Text.Utf8RoundTrip
import PostfixSheet.Table.Encoding

/-! Records that are written with an escape byte. Each one is a single line, and cutting the line at the
delimiters that are not escaped, then undoing the escapes, gives its fields back. -/

namespace PostfixSheet

def breakBytes : List UInt8 :=
  [carriageReturn, lineFeed, 114, 110]

/-- Cuts bytes at the delimiters. One right behind an escape is kept, unless that escape is itself escaped. -/
def cutEscaped (delimiter escape : UInt8) : Bool → List UInt8 → List (List UInt8)
  | _, [] => [[]]
  | escaped, byte :: rest =>
      if byte = delimiter ∧ escaped = false then [] :: cutEscaped delimiter escape false rest
      else (cutEscaped delimiter escape (byte == escape && !escaped) rest).modifyHead (byte :: ·)

def escapedMeaning (byte : UInt8) : UInt8 :=
  if byte = 114 then carriageReturn else if byte = 110 then lineFeed else byte

def unescape (escape : UInt8) : Bool → List UInt8 → List UInt8
  | _, [] => []
  | true, byte :: rest => escapedMeaning byte :: unescape escape false rest
  | false, byte :: rest =>
      if byte = escape then unescape escape true rest else byte :: unescape escape false rest

def escapedFields (delimiter escape : UInt8) (line : List UInt8) : List (List UInt8) :=
  (cutEscaped delimiter escape false line).map (unescape escape false)

namespace Dialect

/-- A dialect with an escape byte. It and the delimiter can be told from each other, from line breaks, and from
the letters that are written for these. -/
structure Escaping (dialect : Dialect) (escape : UInt8) : Prop where
  honored : dialect.escape = some escape
  distinct : dialect.delimiter ≠ escape
  delimiterPlain : dialect.delimiter ∉ breakBytes
  escapePlain : escape ∉ breakBytes

section Fields

variable {dialect : Dialect} {escape : UInt8} (escaping : dialect.Escaping escape)

include escaping

theorem encodeField_escaped (field : List UInt8) :
    dialect.encodeField field = field.flatMap (dialect.escapeByte escape) := by
  simp [encodeField, escaping.honored]

theorem escapeByte_cases (byte : UInt8) :
    (∃ shown, dialect.escapeByte escape byte = [escape, shown] ∧ isLineBreak shown = false ∧
      escapedMeaning shown = byte) ∨
    (dialect.escapeByte escape byte = [byte] ∧ isLineBreak byte = false ∧
      byte ≠ dialect.delimiter ∧ byte ≠ escape) := by
  have delimiterPlain := escaping.delimiterPlain
  have escapePlain := escaping.escapePlain
  simp only [breakBytes, List.mem_cons, List.not_mem_nil, or_false, not_or] at delimiterPlain escapePlain
  by_cases isReturn : byte = carriageReturn
  · exact Or.inl ⟨114, by simp [escapeByte, isReturn], by decide, by rw [isReturn]; rfl⟩
  · by_cases isFeed : byte = lineFeed
    · exact Or.inl ⟨110, by simp [escapeByte, isFeed]; decide, by decide, by rw [isFeed]; rfl⟩
    · have inside : isLineBreak byte = false := by simp [isLineBreak, isReturn, isFeed]
      by_cases special : byte = dialect.delimiter ∨ byte = escape
      · refine Or.inl ⟨byte, by simp [escapeByte, isReturn, isFeed, special], inside, ?_⟩
        rcases special with rfl | rfl
        · simp [escapedMeaning, delimiterPlain]
        · simp [escapedMeaning, escapePlain]
      · exact Or.inr ⟨by simp [escapeByte, isReturn, isFeed, special], inside, not_or.mp special⟩

theorem cutEscaped_escapeByte (byte : UInt8) (rest : List UInt8) :
    cutEscaped dialect.delimiter escape false (dialect.escapeByte escape byte ++ rest) =
      (cutEscaped dialect.delimiter escape false rest).modifyHead
        (dialect.escapeByte escape byte ++ ·) := by
  have distinct := escaping.distinct
  rcases escapeByte_cases escaping byte with ⟨shown, written, _⟩ | ⟨written, _, notDelimiter, notEscape⟩
  · simp [written, cutEscaped, distinct.symm, List.modifyHead_modifyHead, Function.comp_def]
  · have plain : (byte == escape) = false := beq_false_of_ne notEscape
    simp [written, cutEscaped, notDelimiter, plain]

theorem cutEscaped_field (field rest : List UInt8) :
    cutEscaped dialect.delimiter escape false (dialect.encodeField field ++ rest) =
      (cutEscaped dialect.delimiter escape false rest).modifyHead (dialect.encodeField field ++ ·) := by
  rw [encodeField_escaped escaping]
  induction field with
  | nil => exact (congrFun List.modifyHead_id _).symm
  | cons byte more ih =>
      rw [List.flatMap_cons, List.append_assoc, cutEscaped_escapeByte escaping, ih,
        List.modifyHead_modifyHead]
      simp [Function.comp_def]

theorem cutEscaped_fields (first : List UInt8) (more : List (List UInt8)) :
    cutEscaped dialect.delimiter escape false
        ([dialect.delimiter].intercalate ((first :: more).map dialect.encodeField)) =
      (first :: more).map dialect.encodeField := by
  induction more generalizing first with
  | nil =>
      have cut := cutEscaped_field escaping first []
      simpa [cutEscaped] using cut
  | cons second more ih =>
      have later := ih second
      rw [List.map_cons, List.map_cons, List.intercalate_cons_cons, ← List.map_cons, List.append_assoc,
        cutEscaped_field escaping, List.singleton_append, cutEscaped, if_pos ⟨rfl, rfl⟩, later]
      simp

theorem unescape_encodeField (field : List UInt8) :
    unescape escape false (dialect.encodeField field) = field := by
  rw [encodeField_escaped escaping]
  induction field with
  | nil => rfl
  | cons byte more ih =>
      rw [List.flatMap_cons]
      rcases escapeByte_cases escaping byte with ⟨shown, written, _, meaning⟩ | ⟨written, _, _, notEscape⟩
      · simp [written, unescape, meaning, ih]
      · simp [written, unescape, notEscape, ih]

theorem isLineBreak_escaping :
    isLineBreak dialect.delimiter = false ∧ isLineBreak escape = false := by
  have delimiterPlain := escaping.delimiterPlain
  have escapePlain := escaping.escapePlain
  simp only [breakBytes, List.mem_cons, not_or] at delimiterPlain escapePlain
  simp [isLineBreak, delimiterPlain, escapePlain]

theorem isLineBreak_encodeField (field : List UInt8) :
    ∀ byte ∈ dialect.encodeField field, isLineBreak byte = false := by
  rw [encodeField_escaped escaping]
  intro byte member
  obtain ⟨source, _, written⟩ := List.mem_flatMap.mp member
  rcases escapeByte_cases escaping source with ⟨shown, same, inside, _⟩ | ⟨same, inside, _⟩
  · rw [same, List.mem_cons, List.mem_singleton] at written
    rcases written with rfl | rfl
    · exact (isLineBreak_escaping escaping).2
    · exact inside
  · rw [same, List.mem_singleton] at written
    rw [written]
    exact inside

theorem isLineBreak_fields (fields : List (List UInt8)) :
    ∀ byte ∈ [dialect.delimiter].intercalate (fields.map dialect.encodeField),
      isLineBreak byte = false := by
  induction fields with
  | nil => simp
  | cons first more ih =>
      cases more with
      | nil => simpa using isLineBreak_encodeField escaping first
      | cons second more =>
          rw [List.map_cons] at ih ⊢
          rw [List.map_cons, List.intercalate_cons_cons, List.forall_mem_append, List.forall_mem_append,
            List.forall_mem_singleton]
          exact ⟨⟨isLineBreak_encodeField escaping first, (isLineBreak_escaping escaping).1⟩, ih⟩

theorem recordBody_escaped (fields : List String) (nonempty : fields ≠ []) (visible : fields ≠ [""]) :
    dialect.recordBody fields =
      [dialect.delimiter].intercalate ((fields.map encodeText).map dialect.encodeField) := by
  rw [recordBody, List.map_map]
  apply if_neg
  rw [List.isEmpty_iff]
  intro empty
  cases fields with
  | nil => contradiction
  | cons first more =>
      cases more with
      | cons second more => simp [List.intercalate_cons_cons] at empty
      | nil =>
          rw [List.map_singleton, List.intercalate_singleton] at empty
          have noBytes := unescape_encodeField escaping (encodeText first)
          rw [empty] at noBytes
          have noText : first = "" := encodeText_injective noBytes.symm
          exact visible (by rw [noText])

theorem escapedFields_recordBody (fields : List String) (nonempty : fields ≠ [])
    (visible : fields ≠ [""]) :
    escapedFields dialect.delimiter escape (dialect.recordBody fields) = fields.map encodeText := by
  rw [recordBody_escaped escaping fields nonempty visible, escapedFields]
  cases fields with
  | nil => contradiction
  | cons first more =>
      rw [List.map_cons, cutEscaped_fields escaping, List.map_map]
      have undone : unescape escape false ∘ dialect.encodeField = id :=
        funext (unescape_encodeField escaping)
      rw [undone, List.map_id]

end Fields

end Dialect

/-- A record that is written with an escape byte takes up one line without other line breaks, whose fields read
from left to right are those of the record, and no other record is written as that line. -/
theorem encodeRecord_unambiguous (dialect : Dialect) (escape : UInt8) (escaping : dialect.Escaping escape)
    (fields : List String) (nonempty : fields ≠ []) (visible : fields ≠ [""]) :
    (∃ line, dialect.encodeRecord fields = line ++ dialect.terminator.bytes ∧
      (∀ byte ∈ line, byte ≠ carriageReturn ∧ byte ≠ lineFeed) ∧
      escapedFields dialect.delimiter escape line = fields.map encodeText) ∧
    ∀ other : List String, other ≠ [] → other ≠ [""] →
      dialect.encodeRecord other = dialect.encodeRecord fields → other = fields := by
  have oneLine : ∀ byte ∈ dialect.recordBody fields, isLineBreak byte = false := by
    rw [Dialect.recordBody_escaped escaping fields nonempty visible]
    exact Dialect.isLineBreak_fields escaping _
  have read := Dialect.escapedFields_recordBody escaping fields nonempty visible
  constructor
  · refine ⟨dialect.recordBody fields, rfl, ?_, read⟩
    intro byte member
    simpa [isLineBreak] using oneLine byte member
  · intro other otherNonempty otherVisible same
    have sameBody : dialect.recordBody other = dialect.recordBody fields :=
      List.append_cancel_right same
    have otherRead := Dialect.escapedFields_recordBody escaping other otherNonempty otherVisible
    rw [sameBody, read] at otherRead
    exact ((List.map_inj_right fun _ _ => @encodeText_injective _ _).mp otherRead).symm

def escapedRow : List String :=
  ["a;\\", "", "\\;r", "x\r\n\r", "\\"]

theorem encodeRecord_unambiguous_escapedRow :
    let dialect : Dialect := { delimiter := 59, terminator := .crlf }
    let line := encodeText "a\\;\\\\;;\\\\\\;r;x\\r\\n\\r;\\\\"
    dialect.Escaping 92 ∧ dialect.encodeRecord escapedRow = line ++ [carriageReturn, lineFeed] ∧
      (∀ byte ∈ line, byte ≠ carriageReturn ∧ byte ≠ lineFeed) ∧
      escapedFields 59 92 line = escapedRow.map encodeText ∧
      dialect.encodeRecord ["a", "\\", "", "\\", "r", "x\r\n\r", "\\"] ≠
        dialect.encodeRecord escapedRow := by
  intro dialect line
  have escaping : dialect.Escaping 92 := ⟨rfl, by decide, by decide, by decide⟩
  have written : dialect.encodeRecord escapedRow = line ++ [carriageReturn, lineFeed] := by
    decide +kernel
  obtain ⟨⟨body, sent, inside, read⟩, unique⟩ :=
    encodeRecord_unambiguous dialect 92 escaping escapedRow (by decide) (by decide)
  obtain rfl : body = line := List.append_cancel_right (sent.symm.trans written)
  refine ⟨escaping, written, inside, read, fun same => ?_⟩
  have equal := unique _ (by decide) (by decide) same
  simp [escapedRow] at equal

end PostfixSheet
