import PostfixSheet.Proofs.Table.AddressRange
import PostfixSheet.Proofs.Table.CutDocuments
import PostfixSheet.Proofs.Table.WrittenRows

/-! Documents that are texts. Scanning and writing move only bytes below 0x80, so the fields and the rows
of a text are texts again, and evaluating it does not fail. -/

namespace PostfixSheet

/-- No special byte is part of a longer character. The bytes may be equal or line breaks. -/
structure Dialect.Ascii (dialect : Dialect) : Prop where
  delimiter : dialect.delimiter.toNat < 0x80
  quote : dialect.quote.toNat < 0x80
  escape : ∀ escape, dialect.escape = some escape → escape.toNat < 0x80

/-- A byte that does not separate, quote or escape anything and ends no line. -/
structure Dialect.Inside (dialect : Dialect) (byte : UInt8) : Prop where
  delimiter : byte ≠ dialect.delimiter
  quote : byte ≠ dialect.quote
  escape : dialect.escape ≠ some byte
  lineBreak : isLineBreak byte = false

theorem isText_terminator (terminator : Terminator) : IsText terminator.bytes := by
  apply isText_ascii
  cases terminator <;> simp [Terminator.bytes, carriageReturn, lineFeed]

section Dialect

variable {dialect : Dialect} (ascii : dialect.Ascii)

include ascii

theorem inside_of_high (byte : UInt8) (high : 0x80 ≤ byte.toNat) : dialect.Inside byte := by
  have other (special : UInt8) (low : special.toNat < 0x80) : byte ≠ special := by
    rintro rfl
    omega
  constructor
  · exact other _ ascii.delimiter
  · exact other _ ascii.quote
  · intro same
    have low := ascii.escape byte same
    omega
  · exact isLineBreak_of_high byte high

theorem scan_high (state : ScanState) (byte : UInt8) (high : 0x80 ≤ byte.toNat) :
    (dialect.scan state byte).2 = .keep := by
  obtain ⟨delimiter, quote, escape, lineBreak⟩ := inside_of_high ascii byte high
  have unquoted : dialect.scanUnquoted byte = (.unquoted, .keep) := by
    simp [Dialect.scanUnquoted, delimiter, lineBreak]
  have fieldStart : dialect.scanFieldStart byte = (.unquoted, .keep) := by
    simp [Dialect.scanFieldStart, quote, unquoted]
  cases state with
  | recordStart => simp [Dialect.scan, lineBreak, fieldStart]
  | fieldStart => simp [Dialect.scan, fieldStart]
  | unquoted => simp [Dialect.scan, unquoted]
  | quoted => simp [Dialect.scan, quote, escape]
  | escaped => rfl
  | afterQuote => simp [Dialect.scan, quote, unquoted]

theorem scanRecords_high (record : OpenRecord) (bytes rest : List UInt8)
    (high : ∀ byte ∈ bytes, 0x80 ≤ byte.toNat) :
    ∃ state, scanRecords dialect record (bytes ++ rest) =
      scanRecords dialect
        ⟨state, bytes.reverse ++ record.source, bytes.reverse ++ record.field, record.fields⟩
        rest := by
  induction bytes generalizing record with
  | nil => exact ⟨record.state, rfl⟩
  | cons byte more ih =>
      have kept := scan_high ascii record.state byte (high byte (by simp))
      obtain ⟨state, scanned⟩ := ih (record.absorb byte (dialect.scan record.state byte))
        fun other member => high other (by simp [member])
      refine ⟨state, ?_⟩
      rw [List.cons_append, scanRecords_absorb dialect record byte _ (by simp [kept]), scanned]
      simp [OpenRecord.absorb, kept]

end Dialect

namespace OpenRecord

structure Texts (record : OpenRecord) : Prop where
  field : IsText record.field.reverse
  fields : ∀ field ∈ record.fields, IsText field

variable {record : OpenRecord} (texts : record.Texts)

include texts

theorem Texts.close : record.close.Decodable := by
  intro field member
  simp only [OpenRecord.close, List.mem_reverse, List.mem_cons] at member
  rcases member with rfl | member
  · exact texts.field
  · exact texts.fields field member

theorem Texts.absorb (byte : UInt8) (low : byte.toNat < 0x80) (step : ScanState × ScanEffect) :
    (record.absorb byte step).Texts := by
  obtain ⟨state, effect⟩ := step
  cases effect with
  | drop => exact ⟨texts.field, texts.fields⟩
  | endRecord => exact ⟨texts.field, texts.fields⟩
  | keep =>
      refine ⟨?_, texts.fields⟩
      simp only [OpenRecord.absorb, List.reverse_cons]
      exact texts.field.append (isText_single byte low)
  | endField =>
      refine ⟨isText_nil, ?_⟩
      simp only [OpenRecord.absorb, List.forall_mem_cons]
      exact ⟨texts.field, texts.fields⟩

end OpenRecord

theorem scanRecords_decodable {dialect : Dialect} (ascii : dialect.Ascii) (record : OpenRecord)
    (texts : record.Texts) (characters : List Char) :
    ∀ raw ∈ (scanRecords dialect record (encodeChars characters)).1, raw.Decodable := by
  have fresh : ({} : OpenRecord).Texts := ⟨isText_nil, by simp⟩
  induction characters generalizing record with
  | nil =>
      intro raw member
      simp only [encodeChars, List.flatMap_nil, scanRecords] at member
      split at member
      · simp at member
      · rw [List.mem_singleton.mp member]
        exact texts.close
  | cons character rest ih =>
      rw [encodeChars, List.flatMap_cons, ← encodeChars]
      rcases utf8EncodeChar_cases character with ⟨byte, _, low, single⟩ | high
      · rw [single, List.singleton_append]
        rcases scan_cases dialect record.state byte with
          ⟨atStart, _, skipped⟩ | ⟨_, _, ended⟩ | ⟨_, _, read⟩
        · rw [scanRecords_skip dialect record byte _ skipped atStart]
          exact ih _ ⟨texts.field, texts.fields⟩
        · rw [scanRecords_finish dialect record byte _ ended, List.forall_mem_cons]
          exact ⟨texts.close, ih {} fresh⟩
        · rw [scanRecords_absorb dialect record byte _ read]
          exact ih _ (texts.absorb byte low _)
      · obtain ⟨state, scanned⟩ := scanRecords_high ascii record _ (encodeChars rest) high
        rw [scanned]
        refine ih _ ⟨?_, texts.fields⟩
        simp only [List.reverse_append, List.reverse_reverse]
        exact texts.field.append (isText_character character)

theorem splitMark_encodeText (text : String) :
    ∃ characters, (splitMark (encodeText text)).2 = encodeChars characters := by
  by_cases marked : byteOrderMark <+: encodeText text
  · obtain ⟨characters, begins⟩ := begins_of_encodeText_begins '\uFEFF' text marked
    refine ⟨characters, ?_⟩
    rw [encodeText, ← begins]
    rfl
  · exact ⟨text.toList, by rw [splitMark_of_no_mark _ marked]; rfl⟩

section Written

variable {dialect : Dialect} (ascii : dialect.Ascii)

include ascii

theorem readDocument_encodeText (text : String) :
    ∃ trailing, (readDocument dialect (encodeText text)).ending = .ok trailing := by
  obtain ⟨characters, begins⟩ := splitMark_encodeText text
  have decodable := scanRecords_decodable ascii
    { source := (splitMark (encodeText text)).1.reverse } ⟨isText_nil, by simp⟩ characters
  rw [← begins] at decodable
  have whole := (readFrom_append (rawRecords dialect (encodeText text)).2 {} _ [] decodable).2
  rw [List.append_nil] at whole
  exact ⟨_, congrArg Document.ending whole⟩

theorem isText_escapeByte (escape byte : UInt8) (honored : dialect.escape = some escape)
    (low : byte.toNat < 0x80) : IsText (dialect.escapeByte escape byte) := by
  have escapeLow := ascii.escape escape honored
  apply isText_ascii
  simp only [Dialect.escapeByte]
  split
  · simp [escapeLow]
  · split
    · simp [escapeLow]
    · split
      · simp [escapeLow, low]
      · simp [low]

theorem isText_encodeField (field : List UInt8) (text : IsText field) :
    IsText (dialect.encodeField field) := by
  have quoteText := isText_single dialect.quote ascii.quote
  simp only [Dialect.encodeField]
  split
  · rename_i escape honored
    refine text.flatMap _ (fun byte low => isText_escapeByte ascii escape byte honored low) ?_
    intro byte high
    obtain ⟨delimiter, _, other, lineBreak⟩ := inside_of_high ascii byte high
    rw [← Bool.not_eq_true, isLineBreak_iff, not_or] at lineBreak
    have notEscape : byte ≠ escape := by
      rintro rfl
      exact other honored
    simp [Dialect.escapeByte, lineBreak, delimiter, notEscape]
  · split
    · refine quoteText.append (IsText.append ?_ quoteText)
      refine text.flatMap _ ?_ fun byte high => if_neg (inside_of_high ascii byte high).quote
      intro byte low
      split
      · exact (isText_single byte low).append (isText_single byte low)
      · exact isText_single byte low
    · exact text

theorem isText_recordBody (fields : List String) : IsText (dialect.recordBody fields) := by
  have quoteText := isText_single dialect.quote ascii.quote
  have delimiterText := isText_single dialect.delimiter ascii.delimiter
  simp only [Dialect.recordBody]
  split
  · exact quoteText.append quoteText
  · apply isText_intercalate _ _ delimiterText
    intro piece member
    obtain ⟨field, _, rfl⟩ := List.mem_map.mp member
    exact isText_encodeField ascii _ ⟨field, rfl⟩

theorem isText_encodeRow (row : List String) : IsText (dialect.encodeRow row) := by
  cases row with
  | nil => exact isText_terminator dialect.terminator
  | cons field more => exact (isText_recordBody ascii _).append (isText_terminator _)

end Written

theorem run_isText (evaluator : Evaluator) (ascii : evaluator.settings.toDialect.Ascii)
    (bytes : List UInt8) : IsText (evaluator.run bytes).output := by
  obtain ⟨rows, written⟩ := evaluator.runFrom_rows _ .empty {} _
    (document_visible evaluator.settings.toDialect bytes)
  rw [Run.output, Evaluator.run, written]
  refine isText_flatten _ fun piece member => ?_
  obtain ⟨row, _, rfl⟩ := List.mem_map.mp member
  exact isText_encodeRow ascii row

/-- A text within the reach of addresses is evaluated to its end and into a text: every field can be
decoded, no formula stops the run, and what is written is UTF-8. -/
theorem evaluateText_total (evaluator : Evaluator) (ascii : evaluator.settings.toDialect.Ascii)
    (text : String) (short : (encodeText text).length < 2 ^ 32) :
    (∃ trailing,
      (readDocument evaluator.settings.toDialect (encodeText text)).ending = .ok trailing) ∧
    ∃ statistics output, (evaluator.run (encodeText text)).result = .ok statistics ∧
      (evaluator.run (encodeText text)).output = encodeText output ∧
      evaluator.evaluateText text = .ok output := by
  obtain ⟨trailing, complete⟩ := readDocument_encodeText ascii text
  obtain ⟨output, written⟩ := run_isText evaluator ascii (encodeText text)
  obtain ⟨statistics, finished⟩ :=
    (run_ends evaluator (encodeText text) trailing complete).1 (document_indexed _ _ short)
  exact ⟨⟨trailing, complete⟩, statistics, output, finished, written,
    (evaluator.evaluateText_eq_ok_iff text output).mpr ⟨⟨statistics, finished⟩, written⟩⟩

def returnSeparated : Settings := { delimiter := carriageReturn }

def openQuote : String :=
  "\u00E9\r=A9\n\"\\\u20AC"

theorem evaluateText_total_openQuote :
    returnSeparated.toDialect.Ascii ∧ (encodeText openQuote).length < 2 ^ 32 ∧
      (readDocument returnSeparated.toDialect (encodeText openQuote)).records =
        [⟨1, 0, ["\u00E9", "=A9"]⟩, ⟨3, 0, ["\u20AC"]⟩] ∧
      (Evaluator.mk returnSeparated .empty).evaluateText openQuote =
        .ok "\u00E9\r#N/A\n\u20AC\n" := by
  have ascii : returnSeparated.toDialect.Ascii := by
    constructor
    · decide
    · decide
    · rintro escape honored
      rw [← Option.some.inj honored]
      decide
  have short : (encodeText openQuote).length < 2 ^ 32 := by decide +kernel
  have read : (readDocument returnSeparated.toDialect (encodeText openQuote)).records =
      [⟨1, 0, ["\u00E9", "=A9"]⟩, ⟨3, 0, ["\u20AC"]⟩] := by decide +kernel
  have shown : ((Evaluator.mk returnSeparated .empty).run (encodeText openQuote)).output =
      encodeText "\u00E9\r#N/A\n\u20AC\n" := by decide +kernel
  obtain ⟨_, _, output, _, written, evaluated⟩ :=
    evaluateText_total (.mk returnSeparated .empty) ascii openQuote short
  have same := decodeText_encodeText output
  rw [← written, shown, decodeText_encodeText, Except.ok.injEq] at same
  exact ⟨ascii, short, read, by rw [evaluated, same]⟩

end PostfixSheet
