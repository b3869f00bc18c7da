import PostfixSheet.Proofs.Table.CutDocuments
import PostfixSheet.Proofs.Table.LinePieces
import PostfixSheet.Table.Reader

/-! What a reader does to the bytes of a document. The reads count the lines of slices that lie side by side
and make up the document in the end, none of the corrections in the reader is ever needed, and what the reads
return are the records of the document. -/

namespace PostfixSheet

structure Reading where
  before : Reader
  record : Record
  behind : Reader

def Reading.slice (reading : Reading) : List UInt8 :=
  reading.before.uncounted reading.behind.counted

def Reading.pieces (reading : Reading) : List (List UInt8) :=
  [reading.slice.takeWhile isLineBreak, reading.slice.dropWhile isLineBreak]

/-- Reads of a document from its start, each of which returned a record, and the reader behind them. -/
inductive Reads (dialect : Dialect) (bytes : List UInt8) : List Reading → Reader → Prop
  | start : Reads dialect bytes [] { input := bytes }
  | read {readings reader record next} (earlier : Reads dialect bytes readings reader)
      (returned : reader.read dialect = .ok (some (record, next))) :
      Reads dialect bytes (readings ++ [⟨reader, record, next⟩]) next

/-- A read in which every offset is in place, and no number is taken away from a smaller one. -/
structure Reading.InPlace (reading : Reading) : Prop where
  scanned : reading.behind.point.byte ≤ reading.before.input.length
  forward : reading.before.counted ≤ reading.behind.counted
  sliced : (slice? reading.before.input reading.before.counted reading.behind.counted).isSome
  lineStart : reading.before.point.lines.atLineStart = true
  counted : reading.before.point.lines.line ≤ reading.record.line
  blanks : reading.record.blankBefore = reading.record.line - reading.before.point.lines.line
  numbered : 1 ≤ reading.record.line

theorem slice?_of_le {bytes : List UInt8} {start stop : Nat} (ordered : start ≤ stop)
    (inside : stop ≤ bytes.length) :
    slice? bytes start stop = some ((bytes.take stop).drop start) :=
  if_pos ⟨ordered, inside⟩

section Document

variable (dialect : Dialect) (bytes : List UInt8)

def readerBehind (index : Nat) : Reader where
  input := bytes
  point := .after {} ((rawRecords dialect bytes).1.take index)
  counted := (readBefore (rawRecords dialect bytes).1 index).length

theorem readerBehind_zero : readerBehind dialect bytes 0 = { input := bytes } := by
  simp [readerBehind, readBefore_zero, ReadingPoint.after]

theorem readerBehind_byte (index : Nat) :
    (readerBehind dialect bytes index).point.byte = (readerBehind dialect bytes index).counted := by
  simp only [readerBehind, ReadingPoint.after_byte]
  exact Nat.zero_add _

theorem readerBehind_lines (index : Nat) :
    (readerBehind dialect bytes index).point.lines =
      .pass {} (readBefore (rawRecords dialect bytes).1 index) := by
  simp only [readerBehind, ReadingPoint.after_lines]
  rfl

theorem counted_le_length (index : Nat) :
    (readerBehind dialect bytes index).counted ≤ bytes.length :=
  (readBefore_prefix_bytes index).length_le

theorem scanRecords_resumed (index : Nat) (begun : (readerBehind dialect bytes index).counted ≠ 0) :
    scanRecords dialect {} (bytes.drop (readerBehind dialect bytes index).counted) =
      ((rawRecords dialect bytes).1.drop index, (rawRecords dialect bytes).2) := by
  have read : (rawRecords dialect bytes).1.take index ≠ [] := by
    intro nothing
    simp [readerBehind, readBefore, nothing] at begun
  obtain ⟨cut, behind, whole, sources, _, resumed⟩ := scanRecords_cut dialect
    { source := (splitMark bytes).1.reverse } (splitMark bytes).2
    ((rawRecords dialect bytes).1.take index) ((rawRecords dialect bytes).1.drop index) read
    (List.take_append_drop index _).symm
  rw [List.reverse_reverse] at sources
  have split : readBefore (rawRecords dialect bytes).1 index ++ behind = bytes := by
    rw [readBefore, ← sources, List.append_assoc, whole, splitMark_append]
  have dropped := congrArg (List.drop (readBefore (rawRecords dialect bytes).1 index).length) split
  rw [List.drop_left] at dropped
  rw [readerBehind, ← dropped, resumed]
  rfl

theorem scanned?_readerBehind (index : Nat) :
    (readerBehind dialect bytes index).scanned? dialect = (rawRecords dialect bytes).1[index]? := by
  rw [Reader.scanned?, readerBehind_byte]
  by_cases unread : (readerBehind dialect bytes index).counted = 0
  · have nothing : (rawRecords dialect bytes).1.take index = [] := by
      cases taken : (rawRecords dialect bytes).1.take index with
      | nil => rfl
      | cons raw rest =>
          have member : raw ∈ (rawRecords dialect bytes).1 :=
            List.mem_of_mem_take (taken ▸ List.mem_cons_self)
          obtain ⟨byte, belongs, _⟩ := rawRecords_content dialect bytes raw member
          simp only [readerBehind, readBefore, taken, List.flatMap_cons, List.length_append] at unread
          have length := List.length_pos_of_mem belongs
          omega
    rw [if_pos unread, unread, List.drop_zero]
    rcases List.take_eq_nil_iff.mp nothing with rfl | empty
    · exact List.head?_eq_getElem?
    · have same : (readerBehind dialect bytes index).input = bytes := rfl
      rw [same, empty]
      rfl
  · have same : (readerBehind dialect bytes index).input = bytes := rfl
    rw [if_neg unread, same, scanRecords_resumed dialect bytes index unread, List.head?_drop]

theorem slice?_record (index : Nat) (raw : RawRecord)
    (found : (rawRecords dialect bytes).1[index]? = some raw) :
    slice? bytes (readerBehind dialect bytes index).counted
      (readerBehind dialect bytes (index + 1)).counted = some raw.source := by
  have grown := readBefore_succ _ index raw found
  have taken : bytes.take (readBefore (rawRecords dialect bytes).1 (index + 1)).length =
      readBefore (rawRecords dialect bytes).1 (index + 1) := take_readBefore (index + 1)
  have ordered : (readerBehind dialect bytes index).counted ≤
      (readerBehind dialect bytes (index + 1)).counted := by
    simp only [readerBehind, grown, List.length_append]
    omega
  rw [slice?_of_le ordered (counted_le_length dialect bytes (index + 1))]
  simp only [readerBehind, taken, Option.some.injEq]
  rw [grown, List.drop_left]

theorem readerBehind_succ (index : Nat) (raw : RawRecord)
    (found : (rawRecords dialect bytes).1[index]? = some raw) :
    let reader := readerBehind dialect bytes index
    readerBehind dialect bytes (index + 1) =
      { input := bytes
        point := reader.point.next (reader.point.lines.pass raw.source) raw.source
        counted := min (reader.point.byte + raw.source.length) bytes.length } := by
  have grown := readBefore_succ _ index raw found
  have inside := counted_le_length dialect bytes (index + 1)
  have point : (readerBehind dialect bytes (index + 1)).point =
      (readerBehind dialect bytes index).point.next
        ((readerBehind dialect bytes index).point.lines.pass raw.source) raw.source := by
    simp only [readerBehind, List.take_add_one, found, ReadingPoint.after, Option.toList_some,
      List.foldl_append]
    rfl
  simp only
  rw [readerBehind_byte, ← point]
  simp only [readerBehind, grown, List.length_append] at inside ⊢
  rw [Nat.min_eq_left inside]

theorem read_record (index : Nat) (raw : RawRecord) (fields : List String)
    (found : (rawRecords dialect bytes).1[index]? = some raw)
    (decoded : decodeFields 0 raw.fields = .ok fields) :
    let reader := readerBehind dialect bytes index
    let placement := (reader.point.lines.place raw.source).1
    reader.read dialect = .ok (some (⟨placement.line, placement.blankBefore, fields⟩,
      readerBehind dialect bytes (index + 1))) := by
  have next := readerBehind_succ dialect bytes index raw found
  have sliced := slice?_record dialect bytes index raw found
  simp only at next
  rw [next] at sliced
  simp only [Reader.read, scanned?_readerBehind, found, decoded, next]
  have slice : (readerBehind dialect bytes index).uncounted
      (min ((readerBehind dialect bytes index).point.byte + raw.source.length) bytes.length) =
        raw.source := by
    simp only [Reader.uncounted]
    exact (congrArg (Option.getD · []) sliced).trans rfl
  have input : (readerBehind dialect bytes index).input = bytes := rfl
  rw [input, slice, place_eq]

theorem read_end (index : Nat) (finished : (rawRecords dialect bytes).1[index]? = none) :
    (readerBehind dialect bytes index).read dialect = .ok none := by
  rw [Reader.read, scanned?_readerBehind, finished]

theorem read_undecodable (index : Nat) (raw : RawRecord) (field validLength : Nat)
    (found : (rawRecords dialect bytes).1[index]? = some raw)
    (undecodable : decodeFields 0 raw.fields = .error (field, validLength)) :
    let point := (readerBehind dialect bytes index).point
    (readerBehind dialect bytes index).read dialect =
      .error ⟨point.record, point.line, point.byte, field, validLength⟩ := by
  simp only [Reader.read, scanned?_readerBehind, found, undecodable]

theorem read_returned (index : Nat) (record : Record) (next : Reader)
    (returned : (readerBehind dialect bytes index).read dialect = .ok (some (record, next))) :
    ∃ raw, (rawRecords dialect bytes).1[index]? = some raw ∧
      decodeFields 0 raw.fields = .ok record.fields ∧
      (⟨record.line, record.blankBefore⟩ : Placement) =
        ((readerBehind dialect bytes index).point.lines.place raw.source).1 ∧
      next = readerBehind dialect bytes (index + 1) := by
  cases found : (rawRecords dialect bytes).1[index]? with
  | none =>
      rw [read_end dialect bytes index found] at returned
      simp at returned
  | some raw =>
      cases decoded : decodeFields 0 raw.fields with
      | error place =>
          rw [read_undecodable dialect bytes index raw place.1 place.2 found decoded] at returned
          simp at returned
      | ok fields =>
          rw [read_record dialect bytes index raw fields found decoded] at returned
          simp only [Except.ok.injEq, Option.some.injEq, Prod.mk.injEq] at returned
          obtain ⟨rfl, rfl⟩ := returned
          exact ⟨raw, rfl, decoded, rfl, rfl⟩

theorem inPlace_read (index : Nat) (record : Record) (next : Reader)
    (returned : (readerBehind dialect bytes index).read dialect = .ok (some (record, next))) :
    Reading.InPlace ⟨readerBehind dialect bytes index, record, next⟩ := by
  obtain ⟨raw, found, _, placed, rfl⟩ := read_returned dialect bytes index record next returned
  have sliced := slice?_record dialect bytes index raw found
  have starts := readBefore_lineStarts dialect bytes index
    (Or.inl (List.getElem?_eq_some_iff.mp found).1)
  have grown := readBefore_succ _ index raw found
  simp only [place_eq, readerBehind_lines, LineCount.blanksSince, LineCount.pass_atLineStart, starts,
    if_true, Nat.sub_zero, Placement.mk.injEq] at placed
  have ascending := LineCount.pass_line (.pass {} (readBefore (rawRecords dialect bytes).1 index))
    (raw.source.takeWhile isLineBreak)
  constructor
  · rw [readerBehind_byte]
    exact counted_le_length dialect bytes (index + 1)
  · simp only [readerBehind, grown, List.length_append]
    omega
  · exact Option.isSome_of_mem sliced
  · rw [readerBehind_lines, LineCount.pass_atLineStart]
    exact starts
  · simp only [readerBehind_lines]
    omega
  · simp only [readerBehind_lines]
    omega
  · simp only
    rw [placed.1, ascending, LineCount.pass_start_line]
    omega

theorem rawRecords_tail : ∃ breaks, (∀ byte ∈ breaks, isLineBreak byte = true) ∧
    ((rawRecords dialect bytes).2 = breaks ∨
      (rawRecords dialect bytes).1 = [] ∧ (rawRecords dialect bytes).2 = byteOrderMark ++ breaks) := by
  have breaks := scanRecords_tail dialect {} (splitMark bytes).2 (by simp)
  have behind := scanRecords_behind dialect {} (splitMark bytes).1 (splitMark bytes).2
  rw [List.nil_append] at behind
  refine ⟨_, breaks, ?_⟩
  simp only [rawRecords]
  rw [behind]
  by_cases noRecord : (scanRecords dialect {} (splitMark bytes).2).1 = []
  · simp only [noRecord, if_true, List.modifyHead_nil, true_and, splitMark_fst]
    split
    · exact Or.inr rfl
    · exact Or.inl rfl
  · exact Or.inl (if_neg noRecord)

variable {dialect bytes}

theorem Reads.reader_eq {readings : List Reading} {reader : Reader}
    (run : Reads dialect bytes readings reader) :
    reader = readerBehind dialect bytes readings.length := by
  induction run with
  | start => exact (readerBehind_zero dialect bytes).symm
  | read _ returned ih =>
      rw [ih] at returned
      obtain ⟨_, _, _, _, next⟩ := read_returned dialect bytes _ _ _ returned
      rw [next, List.length_append, List.length_singleton]

theorem Reads.length_le {readings : List Reading} {reader : Reader}
    (run : Reads dialect bytes readings reader) :
    readings.length ≤ (rawRecords dialect bytes).1.length := by
  cases run with
  | start => exact Nat.zero_le _
  | read earlier returned =>
      rw [earlier.reader_eq] at returned
      obtain ⟨_, found, _⟩ := read_returned dialect bytes _ _ _ returned
      rw [List.length_append, List.length_singleton]
      exact (List.getElem?_eq_some_iff.mp found).1

theorem Reads.inPlace {readings : List Reading} {reader : Reader}
    (run : Reads dialect bytes readings reader) : ∀ reading ∈ readings, reading.InPlace := by
  induction run with
  | start => simp
  | read earlier returned ih =>
      rw [earlier.reader_eq] at returned ⊢
      intro reading member
      rcases List.mem_append.mp member with older | last
      · exact ih reading older
      · rw [List.mem_singleton.mp last]
        exact inPlace_read dialect bytes _ _ _ returned

theorem Reads.slices {readings : List Reading} {reader : Reader}
    (run : Reads dialect bytes readings reader) :
    readings.flatMap Reading.slice = readBefore (rawRecords dialect bytes).1 readings.length := by
  induction run with
  | start => simp [readBefore_zero]
  | read earlier returned ih =>
      rw [earlier.reader_eq] at returned ⊢
      obtain ⟨raw, found, _, _, rfl⟩ := read_returned dialect bytes _ _ _ returned
      have sliced := slice?_record dialect bytes _ raw found
      have last : (readerBehind dialect bytes _).uncounted (readerBehind dialect bytes _).counted =
          raw.source := (congrArg (Option.getD · []) sliced).trans rfl
      rw [List.flatMap_append, ih, List.length_append, List.length_singleton,
        readBefore_succ _ _ raw found]
      simp [Reading.slice, last]

theorem Reads.pieces {readings : List Reading} {reader : Reader}
    (run : Reads dialect bytes readings reader) :
    (readings.flatMap Reading.pieces).flatten =
      readBefore (rawRecords dialect bytes).1 readings.length := by
  have cut : List.flatten ∘ Reading.pieces = Reading.slice := by
    funext reading
    simp [Reading.pieces]
  rw [← run.slices, List.flatMap, List.flatten_flatten, List.map_map, cut, List.flatMap]

theorem Reads.document {readings : List Reading} {reader : Reader}
    (run : Reads dialect bytes readings reader) :
    let later := readFrom (rawRecords dialect bytes).2 reader.point
      ((rawRecords dialect bytes).1.drop readings.length)
    readDocument dialect bytes =
      ⟨readings.map Reading.record ++ later.records, later.ending⟩ := by
  induction run with
  | start => rfl
  | @read readings reader record next earlier returned ih =>
      rw [earlier.reader_eq] at returned ih
      obtain ⟨raw, found, decoded, placed, rfl⟩ := read_returned dialect bytes _ _ _ returned
      obtain ⟨bound, same⟩ := List.getElem?_eq_some_iff.mp found
      have point := congrArg Reader.point (readerBehind_succ dialect bytes readings.length raw found)
      simp only [place_eq, Placement.mk.injEq] at placed
      rw [List.drop_eq_getElem_cons bound, same] at ih
      simp only [readFrom, decoded, place_eq, ← placed.1, ← placed.2] at ih
      simp only [ih, List.length_append, List.length_singleton, point, List.map_append, List.map_cons,
        List.map_nil, List.append_assoc, List.cons_append, List.nil_append]

theorem readBefore_append_rest (index : Nat) :
    readBefore (rawRecords dialect bytes).1 index ++
      (readerBehind dialect bytes index).uncounted bytes.length = bytes := by
  have whole := slice?_of_le (counted_le_length dialect bytes index) (Nat.le_refl bytes.length)
  have rest : (readerBehind dialect bytes index).uncounted bytes.length =
      bytes.drop (readBefore (rawRecords dialect bytes).1 index).length := by
    simp only [Reader.uncounted]
    refine (congrArg (Option.getD · []) whole).trans ?_
    rw [Option.getD_some, List.take_length]
    rfl
  rw [rest]
  nth_rewrite 1 [← take_readBefore index]
  exact List.take_append_drop _ bytes

theorem rest_at_end {index : Nat} (finished : (rawRecords dialect bytes).1[index]? = none) :
    (readerBehind dialect bytes index).uncounted bytes.length = (rawRecords dialect bytes).2 := by
  have all : (rawRecords dialect bytes).1.take index = (rawRecords dialect bytes).1 :=
    List.take_of_length_le (List.getElem?_eq_none_iff.mp finished)
  have split : readBefore (rawRecords dialect bytes).1 index ++
      (readerBehind dialect bytes index).uncounted bytes.length = bytes :=
    readBefore_append_rest index
  rw [readBefore, all] at split
  exact List.append_cancel_left (split.trans (rawRecords_sources dialect bytes).symm)

theorem none_left {index : Nat} (ended : (readerBehind dialect bytes index).read dialect = .ok none) :
    (rawRecords dialect bytes).1[index]? = none := by
  cases found : (rawRecords dialect bytes).1[index]? with
  | none => rfl
  | some raw =>
      cases decoded : decodeFields 0 raw.fields with
      | error place =>
          rw [read_undecodable dialect bytes index raw place.1 place.2 found decoded] at ended
          simp at ended
      | ok fields =>
          rw [read_record dialect bytes index raw fields found decoded] at ended
          simp at ended

theorem Reads.document_end {readings : List Reading} {reader : Reader}
    (run : Reads dialect bytes readings reader) (ended : reader.read dialect = .ok none) :
    readDocument dialect bytes = ⟨readings.map Reading.record, .ok reader.finish.1⟩ := by
  have document := run.document
  rw [run.reader_eq] at ended document ⊢
  have finished := none_left ended
  have last : (rawRecords dialect bytes).1.drop readings.length = [] :=
    List.drop_eq_nil_of_le (List.getElem?_eq_none_iff.mp finished)
  rw [last] at document
  have input : (readerBehind dialect bytes readings.length).input = bytes := rfl
  simp only [Reader.finish, input, rest_at_end finished]
  simpa [readFrom] using document

theorem Reads.document_undecodable {readings : List Reading} {reader : Reader}
    {field : UndecodableField} (run : Reads dialect bytes readings reader)
    (stopped : reader.read dialect = .error field) :
    readDocument dialect bytes = ⟨readings.map Reading.record, .error field⟩ := by
  have document := run.document
  rw [run.reader_eq] at stopped document
  cases found : (rawRecords dialect bytes).1[readings.length]? with
  | none =>
      rw [read_end dialect bytes _ found] at stopped
      simp at stopped
  | some raw =>
      obtain ⟨bound, same⟩ := List.getElem?_eq_some_iff.mp found
      rw [List.drop_eq_getElem_cons bound, same] at document
      cases decoded : decodeFields 0 raw.fields with
      | error place =>
          rw [read_undecodable dialect bytes _ raw place.1 place.2 found decoded] at stopped
          simp only [Except.error.injEq] at stopped
          simpa [readFrom, decoded, stopped] using document
      | ok fields =>
          rw [read_record dialect bytes _ raw fields found decoded] at stopped
          simp at stopped

theorem exists_reads (dialect : Dialect) (bytes : List UInt8) :
    ∃ readings reader, Reads dialect bytes readings reader ∧
      readings.map Reading.record = (readDocument dialect bytes).records ∧
      ∀ record next, reader.read dialect ≠ .ok (some (record, next)) := by
  have reached : ∀ index ≤ (readDocument dialect bytes).records.length,
      ∃ readings, readings.length = index ∧
        Reads dialect bytes readings (readerBehind dialect bytes index) := by
    intro index
    induction index with
    | zero =>
        intro _
        exact ⟨[], rfl, by rw [readerBehind_zero]; exact .start⟩
    | succ index ih =>
        intro bound
        obtain ⟨readings, length, earlier⟩ := ih (by omega)
        obtain ⟨raw, found, decoded, _⟩ := readFrom_record _ _ _ index _ (List.getElem?_eq_getElem bound)
        exact ⟨_, by simp [length], .read earlier
          (read_record dialect bytes index raw _ found decoded)⟩
  obtain ⟨readings, length, run⟩ := reached _ (Nat.le_refl _)
  obtain ⟨later, split⟩ : ∃ later, (readDocument dialect bytes).records =
      readings.map Reading.record ++ later := ⟨_, congrArg Document.records run.document⟩
  have lengths := congrArg List.length split
  rw [List.length_append, List.length_map, length] at lengths
  have nothing : later = [] := List.eq_nil_of_length_eq_zero (by omega)
  refine ⟨readings, _, run, ?_, ?_⟩
  · rw [split, nothing, List.append_nil]
  · intro record next returned
    have more := congrArg (List.length ∘ Document.records) (run.read returned).document
    simp only [Function.comp, List.length_append, List.length_map, List.length_singleton, length]
      at more
    omega

/-- The slices of the reads and the bytes left behind them make up the document, and the reader counts its
lines over them. No offset has to be taken back to the end, no slice falls back to nothing, and no count is
taken away from a smaller one. Every record starts a line, and behind the last one there are only line breaks,
with the byte-order mark if there is no record at all. -/
theorem reads_inPlace (readings : List Reading) (reader : Reader)
    (run : Reads dialect bytes readings reader) :
    let pieces := readings.flatMap Reading.pieces
    let rest := reader.uncounted bytes.length
    let finished := reader.finish
    (∀ reading ∈ readings, reading.InPlace) ∧
      pieces.flatten ++ rest = bytes ∧
      finished.2.point.lines = (pieces ++ [rest]).foldl LineCount.pass {} ∧
      reader.counted ≤ finished.2.counted ∧
      (slice? bytes reader.counted bytes.length).isSome ∧
      reader.point.lines.line ≤ finished.2.point.lines.line ∧
      (reader.read dialect = .ok none →
        readDocument dialect bytes = ⟨readings.map Reading.record, .ok finished.1⟩ ∧
          ∃ breaks, (∀ byte ∈ breaks, isLineBreak byte = true) ∧
            (rest = breaks ∨ readings = [] ∧ rest = byteOrderMark ++ breaks)) ∧
      ∀ field, reader.read dialect = .error field →
        readDocument dialect bytes = ⟨readings.map Reading.record, .error field⟩ := by
  intro pieces rest finished
  have reader_eq := run.reader_eq
  have inside := counted_le_length dialect bytes readings.length
  have split : pieces.flatten ++ rest = bytes := by
    simp only [pieces, rest, run.pieces, reader_eq]
    exact readBefore_append_rest readings.length
  have input : reader.input = bytes := by rw [reader_eq]; rfl
  have lines : finished.2.point.lines = reader.point.lines.pass rest := by
    simp only [finished, rest, Reader.finish, input]
  rw [← reader_eq] at inside
  refine ⟨run.inPlace, split, ?_, ?_, ?_, ?_, ?_, ?_⟩
  · rw [LineCount.foldl_pass, List.flatten_append, run.pieces, lines, reader_eq, readerBehind_lines,
      LineCount.pass_append]
    simp
  · simpa only [finished, Reader.finish, input] using inside
  · rw [slice?_of_le inside (Nat.le_refl _)]
    rfl
  · rw [lines, LineCount.pass_line]
    omega
  · intro ended
    refine ⟨run.document_end ended, ?_⟩
    obtain ⟨breaks, all, left⟩ := rawRecords_tail dialect bytes
    rw [reader_eq] at ended
    have finished := none_left ended
    have tail : rest = (rawRecords dialect bytes).2 := by
      simp only [rest, reader_eq]
      exact rest_at_end finished
    refine ⟨breaks, all, left.imp (tail.trans ·) ?_⟩
    rintro ⟨noRecord, marked⟩
    have none_read := run.length_le
    rw [noRecord, List.length_nil] at none_read
    exact ⟨List.eq_nil_of_length_eq_zero (Nat.le_zero.mp none_read), tail.trans marked⟩
  · exact fun field stopped => run.document_undecodable stopped

end Document

def sharedBreaks : List UInt8 :=
  encodeText "\n1\r\n\"a\r\nb\",x\n\r\n"

theorem reads_inPlace_sharedBreaks :
    ∃ readings reader, Reads {} sharedBreaks readings reader ∧ reader.read {} = .ok none ∧
      readings.map Reading.pieces =
        [[encodeText "\n", encodeText "1\r"], [encodeText "\n", encodeText "\"a\r\nb\",x\n"]] ∧
      reader.uncounted sharedBreaks.length = encodeText "\r\n" ∧
      (∀ reading ∈ readings, reading.InPlace) ∧ reader.finish.2.point.lines = ⟨6, false, true⟩ ∧
      readDocument {} sharedBreaks = ⟨[⟨2, 1, ["1"]⟩, ⟨3, 0, ["a\r\nb", "x"]⟩], .ok 1⟩ := by
  have first : Reader.read {} { input := sharedBreaks } =
      .ok (some (⟨2, 1, ["1"]⟩, ⟨sharedBreaks, ⟨⟨3, true, true⟩, 1, 2, 3⟩, 3⟩)) := rfl
  have second : Reader.read {} ⟨sharedBreaks, ⟨⟨3, true, true⟩, 1, 2, 3⟩, 3⟩ =
      .ok (some (⟨3, 0, ["a\r\nb", "x"]⟩, ⟨sharedBreaks, ⟨⟨5, false, true⟩, 2, 5, 13⟩, 13⟩)) := rfl
  have ended : Reader.read {} ⟨sharedBreaks, ⟨⟨5, false, true⟩, 2, 5, 13⟩, 13⟩ = .ok none := rfl
  have run := (Reads.start.read first).read second
  obtain ⟨inPlace, _, lines, _, _, _, document, _⟩ := reads_inPlace _ _ run
  exact ⟨_, _, run, ended, rfl, rfl, inPlace, lines, (document ended).1⟩

end PostfixSheet
