import PostfixSheet.Proofs.Table.EncodedRecords
import PostfixSheet.Proofs.Table.Placement
import PostfixSheet.Proofs.Text.Utf8RoundTrip

/-! Rows that are written without an escape byte are read back: the same fields in the same order, and the
same number of blank rows between them. -/

namespace PostfixSheet

namespace Dialect

/-- A row as it is written; one without fields is a blank line. -/
def encodeRow (dialect : Dialect) : List String → List UInt8
  | [] => dialect.terminator.bytes
  | text :: more => dialect.encodeRecord (text :: more)

def encodeRows (dialect : Dialect) (rows : List (List String)) : List UInt8 :=
  rows.flatMap dialect.encodeRow

theorem encodeRow_visible (dialect : Dialect) (row : List String) (visible : row ≠ []) :
    dialect.encodeRow row = dialect.encodeRecord row := by
  cases row with
  | nil => contradiction
  | cons text more => rfl

end Dialect

def Record.rows (record : Record) : List (List String) :=
  List.replicate record.blankBefore [] ++ [record.fields]

/-- Some line breaks were skipped since the last count, and make up a number of blank rows. -/
structure Awaiting (terminator : Terminator) (count : LineCount) (skipped : List UInt8)
    (blanks : Nat) : Prop where
  atLineStart : count.atLineStart = true
  breaks : ∀ byte ∈ skipped, isLineBreak byte = true
  line : (count.pass skipped).line = count.line + blanks
  paired : (count.pass skipped).afterReturn = true → terminator = .cr

theorem decodeFields_encodeText (index : Nat) (texts : List String) :
    decodeFields index (texts.map encodeText) = .ok texts := by
  induction texts generalizing index with
  | nil => rfl
  | cons text rest ih => simp only [List.map_cons, decodeFields, decodeText_encodeText, ih]

namespace Terminator

theorem isLineBreak_of_mem (terminator : Terminator) :
    ∀ byte ∈ terminator.bytes, isLineBreak byte = true := by
  cases terminator <;> simp [bytes, isLineBreak]

theorem one_break (terminator : Terminator) (afterReturn : Bool)
    (other : afterReturn = true → terminator ≠ .lf) :
    terminator.bytes.count carriageReturn + loneFeeds afterReturn terminator.bytes = 1 := by
  cases afterReturn with
  | true =>
      cases terminator with
      | lf => exact absurd rfl (other rfl)
      | crlf => decide
      | cr => decide
  | false => cases terminator <;> decide

theorem bytes_eq_cons (terminator : Terminator) :
    ∃ last behind, terminator.bytes = last :: behind := by
  cases terminator <;> exact ⟨_, _, rfl⟩

theorem no_break_behind (terminator : Terminator) (last : UInt8) (behind : List UInt8)
    (split : terminator.bytes = last :: behind) :
    behind.count carriageReturn + loneFeeds (last == carriageReturn) behind = 0 := by
  cases terminator <;> obtain ⟨rfl, rfl⟩ := List.cons.inj split <;> decide

theorem last_return (terminator : Terminator)
    (isReturn : terminator.bytes.getLast? = some carriageReturn) : terminator = .cr := by
  cases terminator with
  | lf => simp [bytes, carriageReturn, lineFeed] at isReturn
  | crlf => simp [bytes, carriageReturn, lineFeed] at isReturn
  | cr => rfl

end Terminator

theorem Awaiting.returns {terminator : Terminator} {count : LineCount} {skipped : List UInt8}
    {blanks : Nat} (awaiting : Awaiting terminator count skipped blanks) :
    Awaiting .cr count skipped blanks :=
  ⟨awaiting.atLineStart, awaiting.breaks, awaiting.line, fun _ => rfl⟩

theorem awaiting_start (terminator : Terminator) : Awaiting terminator {} [] 0 := by
  constructor <;> simp [LineCount.pass]

theorem paired_behind (terminator : Terminator) (count : LineCount) (bytes : List UInt8) :
    (count.pass (bytes ++ terminator.bytes)).afterReturn = true → terminator = .cr := by
  intro after
  cases ends : terminator.bytes.getLast? with
  | none => cases terminator <;> simp [Terminator.bytes] at ends
  | some last =>
      rw [LineCount.pass_afterReturn _ _ last (by simp [List.getLast?_append, ends])] at after
      rw [beq_iff_eq.mp after] at ends
      exact terminator.last_return ends

theorem Awaiting.skip {terminator : Terminator} {count : LineCount} {skipped : List UInt8}
    {blanks : Nat} (awaiting : Awaiting terminator count skipped blanks) (next : Terminator)
    (other : (count.pass skipped).afterReturn = true → next ≠ .lf) :
    Awaiting next count (skipped ++ next.bytes) (blanks + 1) := by
  constructor
  · exact awaiting.atLineStart
  · intro byte member
    rcases List.mem_append.mp member with older | newer
    · exact awaiting.breaks byte older
    · exact next.isLineBreak_of_mem byte newer
  · rw [← LineCount.pass_append, LineCount.pass_line, awaiting.line, next.one_break _ other,
      Nat.add_assoc]
  · exact paired_behind next count skipped

theorem Awaiting.blank {terminator : Terminator} {count : LineCount} {skipped : List UInt8}
    {blanks : Nat} (awaiting : Awaiting terminator count skipped blanks) :
    Awaiting terminator count (skipped ++ terminator.bytes) (blanks + 1) := by
  apply awaiting.skip terminator
  intro after
  rw [awaiting.paired after]
  decide

theorem awaiting_record (terminator : Terminator) (count : LineCount) (bytes : List UInt8)
    (last : UInt8) (behind : List UInt8) (split : terminator.bytes = last :: behind) :
    Awaiting terminator (count.pass (bytes ++ [last])) behind 0 := by
  have isBreak := terminator.isLineBreak_of_mem
  rw [split] at isBreak
  have after := LineCount.pass_afterReturn count (bytes ++ [last]) last (by simp)
  constructor
  · rw [LineCount.pass_atLineStart, lineStarts_append, lineStarts_cons, isBreak last (by simp)]
    rfl
  · intro byte member
    exact isBreak byte (by simp [member])
  · rw [LineCount.pass_line, after, terminator.no_break_behind last behind split]
  · have paired := paired_behind terminator count bytes
    rw [split, List.append_cons, ← LineCount.pass_append] at paired
    exact paired

theorem scanRecords_breaks (dialect : Dialect) (skipped bytes rest : List UInt8)
    (breaks : ∀ byte ∈ bytes, isLineBreak byte = true) :
    scanRecords dialect { source := skipped.reverse } (bytes ++ rest) =
      scanRecords dialect { source := (skipped ++ bytes).reverse } rest := by
  induction bytes generalizing skipped with
  | nil => simp
  | cons byte more ih =>
      have isBreak := breaks byte (by simp)
      have dropped : dialect.scan .recordStart byte = (.recordStart, .drop) := by
        simp [Dialect.scan, isBreak]
      have later := ih (skipped ++ [byte]) fun other member => breaks other (by simp [member])
      rw [List.cons_append, scanRecords_skip dialect _ byte _ dropped rfl]
      simpa [OpenRecord.sip] using later

theorem rawRecords_breaks (dialect : Dialect) (bytes rest : List UInt8)
    (breaks : ∀ byte ∈ bytes, isLineBreak byte = true) (noMark : ¬byteOrderMark <+: bytes ++ rest) :
    rawRecords dialect (bytes ++ rest) = scanRecords dialect { source := bytes.reverse } rest := by
  rw [rawRecords, splitMark_of_no_mark _ noMark]
  exact scanRecords_breaks dialect [] bytes rest breaks

theorem rawRecords_feeds (dialect : Dialect) (count : Nat) (positive : 0 < count)
    (rest : List UInt8) :
    rawRecords dialect (List.replicate count lineFeed ++ rest) =
      scanRecords dialect { source := List.replicate count lineFeed } rest := by
  have noMark : ¬byteOrderMark <+: List.replicate count lineFeed ++ rest := by
    obtain ⟨more, rfl⟩ := Nat.exists_eq_succ_of_ne_zero positive.ne'
    simp [byteOrderMark, List.replicate_succ, lineFeed]
  rw [rawRecords_breaks dialect _ rest (isLineBreak_feeds count) noMark, List.reverse_replicate]

theorem takeWhile_skipped (skipped body : List UInt8) (first : UInt8) (rest : List UInt8)
    (breaks : ∀ byte ∈ skipped, isLineBreak byte = true) (begins : body = first :: rest)
    (inside : isLineBreak first = false) :
    (skipped ++ body).takeWhile isLineBreak = skipped := by
  rw [List.takeWhile_append_of_pos breaks, begins]
  simp [inside]

def readOn (dialect : Dialect) (point : ReadingPoint) (skipped bytes : List UInt8) : Document :=
  let scanned := scanRecords dialect { source := skipped.reverse } bytes
  readFrom scanned.2 point scanned.1

section Reading

variable {dialect : Dialect} {point : ReadingPoint} {skipped : List UInt8} {blanks : Nat}

theorem Awaiting.blanksSince {terminator : Terminator} {count : LineCount}
    (awaiting : Awaiting terminator count skipped blanks) :
    (count.pass skipped).blanksSince count = blanks := by
  rw [LineCount.blanksSince, awaiting.atLineStart, awaiting.line]
  simp

theorem readOn_nil {terminator : Terminator}
    (awaiting : Awaiting terminator point.lines skipped blanks) :
    readOn dialect point skipped [] = ⟨[], .ok blanks⟩ := by
  simp only [readOn, scanRecords, if_true, readFrom, List.reverse_reverse, awaiting.blanksSince]

theorem readOn_blank (terminator : Terminator) (rest : List UInt8) :
    readOn dialect point skipped (terminator.bytes ++ rest) =
      readOn dialect point (skipped ++ terminator.bytes) rest := by
  rw [readOn, scanRecords_breaks dialect skipped _ rest terminator.isLineBreak_of_mem, readOn]

theorem readOn_body {terminator : Terminator}
    (awaiting : Awaiting terminator point.lines skipped blanks) (fields : List String)
    (body : List UInt8) (first : UInt8) (more : List UInt8) (begins : body = first :: more)
    (inside : isLineBreak first = false) (last : UInt8) (behind rest : List UInt8)
    (breaks : ∀ byte ∈ behind, isLineBreak byte = true)
    (scanned : scanRecords dialect { source := skipped.reverse } (body ++ last :: (behind ++ rest)) =
      (⟨skipped ++ body ++ [last], fields.map encodeText⟩ ::
        (scanRecords dialect {} (behind ++ rest)).1, (scanRecords dialect {} (behind ++ rest)).2)) :
    ∃ next, next.lines = point.lines.pass (skipped ++ body ++ [last]) ∧
      readOn dialect point skipped (body ++ last :: (behind ++ rest)) =
        ⟨⟨(point.lines.pass skipped).line, blanks, fields⟩ ::
          (readOn dialect next behind rest).records, (readOn dialect next behind rest).ending⟩ := by
  have resumed := scanRecords_breaks dialect [] behind rest breaks
  simp only [List.reverse_nil, List.nil_append] at resumed
  have placed := place_eq point.lines (skipped ++ body ++ [last])
  rw [List.append_assoc, takeWhile_skipped skipped _ first (more ++ [last]) awaiting.breaks
    (by simp [begins]) inside, awaiting.blanksSince, ← List.append_assoc] at placed
  generalize skipped ++ body ++ [last] = source at scanned placed ⊢
  refine ⟨point.next (point.lines.pass source) source, rfl, ?_⟩
  rw [readOn, scanned, resumed]
  simp only [readFrom, decodeFields_encodeText, placed]
  rfl

theorem readOn_record (doubling : dialect.Doubling)
    (awaiting : Awaiting dialect.terminator point.lines skipped blanks) (fields : List String)
    (nonempty : fields ≠ []) (rest : List UInt8) :
    ∃ line next behind, Awaiting dialect.terminator next.lines behind 0 ∧
      readOn dialect point skipped (dialect.encodeRecord fields ++ rest) =
        ⟨⟨line, blanks, fields⟩ :: (readOn dialect next behind rest).records,
          (readOn dialect next behind rest).ending⟩ := by
  obtain ⟨last, behind, split⟩ := dialect.terminator.bytes_eq_cons
  have isBreak := dialect.terminator.isLineBreak_of_mem
  rw [split] at isBreak
  obtain ⟨first, body, begins, inside⟩ := recordBody_eq_cons doubling fields nonempty
  have written : dialect.encodeRecord fields ++ rest =
      dialect.recordBody fields ++ last :: (behind ++ rest) := by
    simp [Dialect.encodeRecord, split]
  have scanned := scanRecords_recordBody doubling skipped fields nonempty last
    (isBreak last (by simp)) (behind ++ rest)
  obtain ⟨next, passed, read⟩ := readOn_body awaiting fields _ first body begins inside last behind
    rest (fun byte member => isBreak byte (by simp [member])) scanned
  refine ⟨_, next, behind, ?_, by rw [written, read]⟩
  rw [passed]
  exact awaiting_record dialect.terminator point.lines _ last behind split

theorem readOn_encodeRows (doubling : dialect.Doubling) (point : ReadingPoint)
    (awaiting : Awaiting dialect.terminator point.lines skipped blanks) (rows : List (List String)) :
    ∃ trailing, (readOn dialect point skipped (dialect.encodeRows rows)).ending = .ok trailing ∧
      List.replicate blanks [] ++ rows =
        (readOn dialect point skipped (dialect.encodeRows rows)).records.flatMap Record.rows ++
          List.replicate trailing [] ∧
      ∀ record ∈ (readOn dialect point skipped (dialect.encodeRows rows)).records,
        record.fields ≠ [] := by
  induction rows generalizing point skipped blanks with
  | nil =>
      have read : readOn dialect point skipped [] = _ := readOn_nil awaiting
      simp only [Dialect.encodeRows, List.flatMap_nil, read]
      exact ⟨blanks, rfl, by simp, by simp⟩
  | cons row rest ih =>
      simp only [Dialect.encodeRows, List.flatMap_cons] at ih ⊢
      cases row with
      | nil =>
          obtain ⟨trailing, complete, rebuilt, visible⟩ := ih point awaiting.blank
          rw [Dialect.encodeRow, readOn_blank]
          refine ⟨trailing, complete, ?_, visible⟩
          rw [← rebuilt, List.replicate_succ', List.append_assoc]
          rfl
      | cons text more =>
          obtain ⟨line, next, behind, later, read⟩ := readOn_record doubling awaiting (text :: more)
            (by simp) (rest.flatMap dialect.encodeRow)
          obtain ⟨trailing, complete, rebuilt, visible⟩ := ih next later
          rw [Dialect.encodeRow, read]
          refine ⟨trailing, complete, ?_, ?_⟩
          · rw [List.flatMap_cons, List.append_assoc, ← rebuilt]
            simp [Record.rows]
          · intro record member
            rcases List.mem_cons.mp member with same | further
            · rw [same]
              simp
            · exact visible record further

end Reading

theorem filter_rows (records : List Record) (visible : ∀ record ∈ records, record.fields ≠ []) :
    (records.flatMap Record.rows).filter (fun row => !row.isEmpty) = records.map Record.fields := by
  induction records with
  | nil => rfl
  | cons record rest ih =>
      have shown : record.fields.isEmpty = false := by
        simpa using visible record (by simp)
      rw [List.flatMap_cons, List.filter_append, ih fun later member => visible later (by simp [member])]
      simp [Record.rows, shown]

/-- Rows written without an escape byte are read back. The records are the rows that are not blank, and
each stands behind as many blank lines as blank rows were written in front of it. -/
theorem readDocument_encodeRows (dialect : Dialect) (doubling : dialect.Doubling)
    (rows : List (List String)) (noMark : ¬byteOrderMark <+: dialect.encodeRows rows) :
    let document := readDocument dialect (dialect.encodeRows rows)
    document.records.map Record.fields = rows.filter (fun row => !row.isEmpty) ∧
      ∃ trailing, document.ending = .ok trailing ∧
        rows = document.records.flatMap Record.rows ++ List.replicate trailing [] := by
  obtain ⟨trailing, complete, rebuilt, visible⟩ :=
    readOn_encodeRows doubling {} (awaiting_start dialect.terminator) rows
  have same : readOn dialect {} [] (dialect.encodeRows rows) =
      readDocument dialect (dialect.encodeRows rows) := by
    rw [readOn, readDocument, rawRecords, splitMark_of_no_mark _ noMark]
  rw [same] at complete rebuilt visible
  rw [List.replicate_zero, List.nil_append] at rebuilt
  refine ⟨?_, trailing, complete, rebuilt⟩
  have filtered := congrArg (List.filter fun row => !row.isEmpty) rebuilt
  rw [filtered, List.filter_append, filter_rows _ visible]
  simp

def awkwardRows : List (List String) :=
  [["a,b", ""], [], ["\"é\"\r\n"], [""], [], []]

def awkwardDialect : Dialect :=
  { escape := none, terminator := .crlf }

theorem readDocument_encodeRows_awkwardRows :
    awkwardDialect.Doubling ∧ (¬byteOrderMark <+: awkwardDialect.encodeRows awkwardRows) ∧
      let document := readDocument awkwardDialect (awkwardDialect.encodeRows awkwardRows)
      document.records.map Record.fields = [["a,b", ""], ["\"é\"\r\n"], [""]] ∧
        ∃ trailing, document.ending = .ok trailing ∧
          awkwardRows = document.records.flatMap Record.rows ++ List.replicate trailing [] := by
  have doubling : awkwardDialect.Doubling := ⟨rfl, by decide, by decide, by decide⟩
  have noMark : ¬byteOrderMark <+: awkwardDialect.encodeRows awkwardRows := by decide +kernel
  exact ⟨doubling, noMark, readDocument_encodeRows awkwardDialect doubling awkwardRows noMark⟩

end PostfixSheet
