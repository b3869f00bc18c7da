import PostfixSheet.Proofs.Table.ScannedRecords
import PostfixSheet.Table.Encoding

/-! What the scanner makes of a record that was written without an escape byte: it gives the bytes of the
fields back, and its source is what was written. -/

namespace PostfixSheet

/-- A dialect that doubles quotes, and whose delimiter, quotes and line breaks can be told apart. -/
structure Dialect.Doubling (dialect : Dialect) : Prop where
  unescaped : dialect.escape = none
  distinct : dialect.delimiter ≠ dialect.quote
  delimiterInside : isLineBreak dialect.delimiter = false
  quoteInside : isLineBreak dialect.quote = false

structure Dialect.BehindField (dialect : Dialect) (state : ScanState) : Prop where
  delimiter : dialect.scan state dialect.delimiter = (.fieldStart, .endField)
  lineBreak : ∀ byte, isLineBreak byte = true → dialect.scan state byte = (.recordStart, .endRecord)

theorem scanRecords_begin (dialect : Dialect) (source : List UInt8) (first : UInt8) (rest : List UInt8)
    (inside : isLineBreak first = false) :
    scanRecords dialect { source } (first :: rest) =
      scanRecords dialect { state := .fieldStart, source } (first :: rest) := by
  have same : dialect.scan .recordStart first = dialect.scan .fieldStart first := by
    simp [Dialect.scan, inside]
  simp only [scanRecords, same]
  rfl

theorem scanRecords_plain (dialect : Dialect) (state : ScanState) (source field : List UInt8)
    (fields : List (List UInt8)) (bytes rest : List UInt8)
    (plain : dialect.needsQuotes bytes = false)
    (ready : state = .fieldStart ∨ state = .unquoted) :
    ∃ final, (final = .fieldStart ∨ final = .unquoted) ∧
      scanRecords dialect ⟨state, source, field, fields⟩ (bytes ++ rest) =
        scanRecords dialect ⟨final, bytes.reverse ++ source, bytes.reverse ++ field, fields⟩ rest := by
  induction bytes generalizing state source field with
  | nil => exact ⟨state, ready, rfl⟩
  | cons byte more ih =>
      simp only [Dialect.needsQuotes, List.any_cons, Bool.or_eq_false_iff, beq_eq_false_iff_ne] at plain
      obtain ⟨⟨⟨notDelimiter, notQuote⟩, notBreak⟩, later⟩ := plain
      have kept : dialect.scan state byte = (.unquoted, .keep) := by
        rcases ready with rfl | rfl
        · simp [Dialect.scan, Dialect.scanFieldStart, Dialect.scanUnquoted, notDelimiter, notQuote,
            notBreak]
        · simp [Dialect.scan, Dialect.scanUnquoted, notDelimiter, notBreak]
      obtain ⟨final, ends, scanned⟩ :=
        ih .unquoted (byte :: source) (byte :: field) (by simpa [Dialect.needsQuotes] using later)
          (Or.inr rfl)
      refine ⟨final, ends, ?_⟩
      rw [List.cons_append, scanRecords_absorb dialect _ byte _ (by simp [kept])]
      simp only [OpenRecord.absorb, kept]
      simpa using scanned

section Fields

variable {dialect : Dialect} (doubling : dialect.Doubling)

include doubling

theorem ne_special_of_isLineBreak (byte : UInt8) (isBreak : isLineBreak byte = true) :
    byte ≠ dialect.delimiter ∧ byte ≠ dialect.quote := by
  constructor
  · intro same
    rw [same, doubling.delimiterInside] at isBreak
    contradiction
  · intro same
    rw [same, doubling.quoteInside] at isBreak
    contradiction

theorem behindField_of_ends (state : ScanState)
    (ends : state = .fieldStart ∨ state = .unquoted ∨ state = .afterQuote) :
    dialect.BehindField state := by
  have distinct := doubling.distinct
  constructor
  · rcases ends with rfl | rfl | rfl
    · simp [Dialect.scan, Dialect.scanFieldStart, Dialect.scanUnquoted, distinct]
    · simp [Dialect.scan, Dialect.scanUnquoted]
    · simp [Dialect.scan, Dialect.scanUnquoted, distinct]
  · intro byte isBreak
    obtain ⟨notDelimiter, notQuote⟩ := ne_special_of_isLineBreak doubling byte isBreak
    rcases ends with rfl | rfl | rfl
    · simp [Dialect.scan, Dialect.scanFieldStart, Dialect.scanUnquoted, notDelimiter, notQuote,
        isBreak]
    · simp [Dialect.scan, Dialect.scanUnquoted, notDelimiter, isBreak]
    · simp [Dialect.scan, Dialect.scanUnquoted, notDelimiter, notQuote, isBreak]

theorem scanRecords_doubled (source field : List UInt8) (fields : List (List UInt8))
    (bytes rest : List UInt8) :
    let doubled := bytes.flatMap fun byte => if byte = dialect.quote then [byte, byte] else [byte]
    scanRecords dialect ⟨.quoted, source, field, fields⟩ (doubled ++ rest) =
      scanRecords dialect ⟨.quoted, doubled.reverse ++ source, bytes.reverse ++ field, fields⟩
        rest := by
  induction bytes generalizing source field with
  | nil => rfl
  | cons byte more ih =>
      by_cases isQuote : byte = dialect.quote
      · subst byte
        have opened : dialect.scan .quoted dialect.quote = (.afterQuote, .drop) := by
          simp [Dialect.scan]
        have kept : dialect.scan .afterQuote dialect.quote = (.quoted, .keep) := by
          simp [Dialect.scan, doubling.unescaped]
        have later := ih (dialect.quote :: dialect.quote :: source) (dialect.quote :: field)
        simp only [List.flatMap_cons, if_true, List.cons_append, List.nil_append]
        rw [scanRecords_absorb dialect _ _ _ (by simp [opened])]
        simp only [OpenRecord.absorb, opened]
        rw [scanRecords_absorb dialect _ _ _ (by simp [kept])]
        simp only [OpenRecord.absorb, kept]
        simpa using later
      · have kept : dialect.scan .quoted byte = (.quoted, .keep) := by
          simp [Dialect.scan, isQuote, doubling.unescaped]
        have later := ih (byte :: source) (byte :: field)
        simp only [List.flatMap_cons, isQuote, if_false, List.cons_append, List.nil_append]
        rw [scanRecords_absorb dialect _ _ _ (by simp [kept])]
        simp only [OpenRecord.absorb, kept]
        simpa using later

theorem scanRecords_quoted (source : List UInt8) (fields : List (List UInt8))
    (bytes rest : List UInt8) :
    scanRecords dialect ⟨.fieldStart, source, [], fields⟩ (dialect.quoteField bytes ++ rest) =
      scanRecords dialect
        ⟨.afterQuote, (dialect.quoteField bytes).reverse ++ source, bytes.reverse, fields⟩ rest := by
  have opened : dialect.scan .fieldStart dialect.quote = (.quoted, .drop) := by
    simp [Dialect.scan, Dialect.scanFieldStart]
  have closed : dialect.scan .quoted dialect.quote = (.afterQuote, .drop) := by simp [Dialect.scan]
  have inner := scanRecords_doubled doubling (dialect.quote :: source) [] fields bytes
    (dialect.quote :: rest)
  simp only [Dialect.quoteField, List.cons_append, List.append_assoc, List.nil_append]
  rw [scanRecords_absorb dialect _ _ _ (by simp [opened])]
  simp only [OpenRecord.absorb, opened]
  rw [inner, scanRecords_absorb dialect _ _ _ (by simp [closed])]
  simp [OpenRecord.absorb, closed]

theorem scanRecords_field (source : List UInt8) (fields : List (List UInt8))
    (bytes rest : List UInt8) :
    ∃ state, dialect.BehindField state ∧
      scanRecords dialect ⟨.fieldStart, source, [], fields⟩ (dialect.encodeField bytes ++ rest) =
        scanRecords dialect
          ⟨state, (dialect.encodeField bytes).reverse ++ source, bytes.reverse, fields⟩ rest := by
  simp only [Dialect.encodeField, doubling.unescaped]
  cases quoted : dialect.needsQuotes bytes with
  | true =>
      refine ⟨.afterQuote, behindField_of_ends doubling _ (Or.inr (Or.inr rfl)), ?_⟩
      exact scanRecords_quoted doubling source fields bytes rest
  | false =>
      obtain ⟨state, ends, scanned⟩ :=
        scanRecords_plain dialect .fieldStart source [] fields bytes rest quoted (Or.inl rfl)
      refine ⟨state, behindField_of_ends doubling _ ?_, by simpa using scanned⟩
      rcases ends with atStart | inside
      · exact Or.inl atStart
      · exact Or.inr (Or.inl inside)

theorem scanRecords_fields (source : List UInt8) (before : List (List UInt8))
    (first : List UInt8) (more : List (List UInt8)) (last : UInt8) (rest : List UInt8)
    (isBreak : isLineBreak last = true) :
    let body := [dialect.delimiter].intercalate ((first :: more).map dialect.encodeField)
    scanRecords dialect ⟨.fieldStart, source, [], before⟩ (body ++ last :: rest) =
      (⟨source.reverse ++ body ++ [last], before.reverse ++ first :: more⟩ ::
          (scanRecords dialect {} rest).1, (scanRecords dialect {} rest).2) := by
  induction more generalizing source before first with
  | nil =>
      obtain ⟨state, behind, scanned⟩ :=
        scanRecords_field doubling source before first (last :: rest)
      simp only [List.map_cons, List.map_nil, List.intercalate_singleton]
      rw [scanned, scanRecords_finish dialect _ last rest (behind.lineBreak last isBreak)]
      simp [OpenRecord.close, OpenRecord.sip]
  | cons second more ih =>
      obtain ⟨state, behind, scanned⟩ := scanRecords_field doubling source before first
        (dialect.delimiter :: ([dialect.delimiter].intercalate
          ((second :: more).map dialect.encodeField) ++ last :: rest))
      have later := ih (dialect.delimiter :: ((dialect.encodeField first).reverse ++ source))
        (first :: before) second
      simp only [List.map_cons] at scanned later ⊢
      rw [List.intercalate_cons_cons]
      simp only [List.append_assoc, List.cons_append, List.nil_append]
      rw [scanned, scanRecords_absorb dialect _ _ _ (by simp [behind.delimiter])]
      simp only [OpenRecord.absorb, behind.delimiter, List.reverse_reverse]
      rw [later]
      simp

theorem encodeField_head (bytes : List UInt8) (first : UInt8)
    (head : (dialect.encodeField bytes).head? = some first) : isLineBreak first = false := by
  simp only [Dialect.encodeField, doubling.unescaped] at head
  split at head
  · simp only [Dialect.quoteField, List.head?_cons, Option.some.injEq] at head
    rw [← head]
    exact doubling.quoteInside
  · rename_i plain
    simp only [Dialect.needsQuotes, List.any_eq_true, not_exists, not_and, Bool.not_eq_true,
      Bool.or_eq_false_iff] at plain
    exact (plain first (List.mem_of_head? head)).2

theorem encodeField_eq_nil (bytes : List UInt8) (empty : dialect.encodeField bytes = []) :
    bytes = [] := by
  simp only [Dialect.encodeField, doubling.unescaped] at empty
  split at empty
  · simp [Dialect.quoteField] at empty
  · exact empty

theorem recordBody_eq_cons (fields : List String) (nonempty : fields ≠ []) :
    ∃ first rest, dialect.recordBody fields = first :: rest ∧ isLineBreak first = false := by
  simp only [Dialect.recordBody]
  split
  · exact ⟨dialect.quote, [dialect.quote], rfl, doubling.quoteInside⟩
  · rename_i visible
    cases fields with
    | nil => contradiction
    | cons text more =>
        cases encoded : dialect.encodeField (encodeText text) with
        | cons first rest =>
            have inside := encodeField_head doubling (encodeText text) first (by simp [encoded])
            cases more <;> exact ⟨first, _, by simp [encoded]; rfl, inside⟩
        | nil =>
            cases more with
            | nil => simp [encoded] at visible
            | cons second more =>
                exact ⟨dialect.delimiter, _, by simp [encoded]; rfl, doubling.delimiterInside⟩

theorem scanRecords_recordBody (skipped : List UInt8) (fields : List String) (nonempty : fields ≠ [])
    (last : UInt8) (isBreak : isLineBreak last = true) (rest : List UInt8) :
    scanRecords dialect { source := skipped.reverse } (dialect.recordBody fields ++ last :: rest) =
      (⟨skipped ++ dialect.recordBody fields ++ [last], fields.map encodeText⟩ ::
          (scanRecords dialect {} rest).1, (scanRecords dialect {} rest).2) := by
  obtain ⟨first, behind, begins, inside⟩ := recordBody_eq_cons doubling fields nonempty
  have started := scanRecords_begin dialect skipped.reverse first
    (behind ++ last :: rest) inside
  rw [← List.cons_append, ← begins] at started
  rw [started]
  cases fields with
  | nil => contradiction
  | cons text more =>
      by_cases empty : [dialect.delimiter].intercalate
          (((text :: more).map encodeText).map dialect.encodeField) = []
      · cases more with
        | cons second more => simp [List.intercalate_cons_cons] at empty
        | nil =>
            simp only [List.map_cons, List.map_nil, List.intercalate_singleton] at empty
            have noBytes := encodeField_eq_nil doubling (encodeText text) empty
            have written : dialect.recordBody [text] = dialect.quoteField [] := by
              simp [Dialect.recordBody, Dialect.quoteField, empty]
            have behind := behindField_of_ends doubling .afterQuote (Or.inr (Or.inr rfl))
            rw [written, scanRecords_quoted doubling,
              scanRecords_finish dialect _ last rest (behind.lineBreak last isBreak)]
            simp [OpenRecord.close, OpenRecord.sip, noBytes]
      · have written : dialect.recordBody (text :: more) = [dialect.delimiter].intercalate
            (((text :: more).map encodeText).map dialect.encodeField) := by
          rw [List.map_map] at empty ⊢
          exact if_neg fun isEmpty => empty (List.isEmpty_iff.mp isEmpty)
        have scanned := scanRecords_fields doubling skipped.reverse [] (encodeText text)
          (more.map encodeText) last rest isBreak
        rw [written]
        simpa using scanned

end Fields

end PostfixSheet
