import PostfixSheet.Proofs.Table.PlainLines
import PostfixSheet.Proofs.Table.Reevaluation

/-! Evaluating in place. Where a text has no quotes, and no result needs any, each line is written as it
was read, with results in place of the formulas between its delimiters. -/

namespace PostfixSheet

namespace Dialect

variable (dialect : Dialect)

/-- A text that is written as it is, and never taken for a blank line. -/
structure Clean (text : String) : Prop where
  visible : text ≠ ""
  inside : ∀ byte ∈ encodeText text, dialect.Inside byte

instance (byte : UInt8) : Decidable (dialect.Inside byte) :=
  decidable_of_iff (byte ≠ dialect.delimiter ∧ byte ≠ dialect.quote ∧
      dialect.escape ≠ some byte ∧ isLineBreak byte = false)
    ⟨fun ⟨delimiter, quote, escape, lineBreak⟩ => ⟨delimiter, quote, escape, lineBreak⟩,
      fun ⟨delimiter, quote, escape, lineBreak⟩ => ⟨delimiter, quote, escape, lineBreak⟩⟩

instance (text : String) : Decidable (dialect.Clean text) :=
  decidable_of_iff (text ≠ "" ∧ ∀ byte ∈ encodeText text, dialect.Inside byte)
    ⟨fun ⟨visible, inside⟩ => ⟨visible, inside⟩, fun ⟨visible, inside⟩ => ⟨visible, inside⟩⟩

variable {dialect}

theorem encodeField_inside (field : List UInt8) (inside : ∀ byte ∈ field, dialect.Inside byte) :
    dialect.encodeField field = field := by
  rw [encodeField]
  split
  · rename_i escape honored
    have kept : field.flatMap (dialect.escapeByte escape) = field.flatMap fun byte => [byte] := by
      apply List.flatMap_congr
      intro byte member
      obtain ⟨notDelimiter, _, other, notBreak⟩ := inside byte member
      rw [← Bool.not_eq_true, isLineBreak_iff, not_or] at notBreak
      have notEscape : byte ≠ escape := by
        rintro rfl
        exact other honored
      simp [escapeByte, notBreak, notDelimiter, notEscape]
    rw [kept, List.flatMap_singleton']
  · have plain : dialect.needsQuotes field = false := by
      rw [needsQuotes, List.any_eq_false]
      intro byte member
      obtain ⟨notDelimiter, notQuote, _, notBreak⟩ := inside byte member
      simp [notDelimiter, notQuote, notBreak]
    simp [plain]

theorem joined_ne_nil (texts : List String) (nonempty : texts ≠ [])
    (visible : ∀ text, texts = [text] → text ≠ "") : dialect.joined texts ≠ [] := by
  cases texts with
  | nil => contradiction
  | cons first rest =>
      cases rest with
      | nil =>
          have characters : first.toList ≠ [] := by simpa using visible first rfl
          rw [joined, List.map_singleton, List.intercalate_singleton]
          exact encodeChars_ne_nil first.toList characters
      | cons second more => simp [joined, List.intercalate_cons_cons]

theorem encodeRow_joined (texts : List String)
    (inside : ∀ text ∈ texts, ∀ byte ∈ encodeText text, dialect.Inside byte)
    (visible : ∀ text, texts = [text] → text ≠ "") :
    dialect.encodeRow texts = dialect.joined texts ++ dialect.terminator.bytes := by
  by_cases blank : texts = []
  · subst texts
    rfl
  · have same : texts.map (fun text => dialect.encodeField (encodeText text)) =
        texts.map encodeText := by
      apply List.map_congr_left
      intro text member
      exact encodeField_inside _ (inside text member)
    have nonempty := dialect.joined_ne_nil texts blank visible
    rw [joined] at nonempty ⊢
    rw [dialect.encodeRow_visible texts blank, encodeRecord, recordBody, same]
    simp [nonempty]

end Dialect

namespace Evaluator

variable (evaluator : Evaluator)

def lineCells (evaluator : Evaluator) : Nat → Bindings → List (List String) → List (List Cell)
  | _, _, [] => []
  | row, bindings, fields :: rest =>
      let (cells, next) := evaluator.cells (UInt32.ofNat row) 0 bindings fields
      cells :: evaluator.lineCells (row + 1) next rest

/-- The cells of a text without quotes, in one row for each line. -/
def textCells (text : String) : List (List Cell) :=
  evaluator.lineCells 0 .empty ((textLines text.toList).map evaluator.settings.lineFields)

theorem cells_getElem? (row : UInt32) (column : Nat) (bindings : Bindings) (texts : List String)
    (index : Nat) (cell : Cell)
    (found : (evaluator.cells row column bindings texts).1[index]? = some cell) :
    cell.address = ⟨row, UInt32.ofNat (column + index)⟩ ∧
      ∃ lookup, cell.result = evaluator.result lookup cell.text := by
  induction texts generalizing column bindings index with
  | nil => simp [cells] at found
  | cons text rest ih =>
      simp only [cells] at found
      cases index with
      | zero =>
          simp only [List.getElem?_cons_zero, Option.some.injEq] at found
          subst found
          exact ⟨rfl, _, rfl⟩
      | succ index =>
          obtain ⟨address, result⟩ := ih (column + 1) _ index found
          refine ⟨?_, result⟩
          rw [address, Nat.add_right_comm, Nat.add_assoc]

theorem lineCells_getElem? (row : Nat) (bindings : Bindings) (rows : List (List String))
    (index : Nat) (cells : List Cell)
    (found : (evaluator.lineCells row bindings rows)[index]? = some cells) :
    ∃ fields reached, rows[index]? = some fields ∧
      cells = (evaluator.cells (UInt32.ofNat (row + index)) 0 reached fields).1 := by
  induction rows generalizing row bindings index with
  | nil => simp [lineCells] at found
  | cons fields rest ih =>
      simp only [lineCells] at found
      cases index with
      | zero =>
          simp only [List.getElem?_cons_zero, Option.some.injEq] at found
          exact ⟨fields, bindings, rfl, found.symm⟩
      | succ index =>
          rw [← Nat.add_assoc, Nat.add_right_comm]
          exact ih (row + 1) _ index found

theorem encodeTable_recordsOfRows (bindings : Bindings) (row blanks : Nat)
    (rows : List (List String)) :
    let read := recordsOfRows row blanks rows
    evaluator.settings.encodeTable read.1 (evaluator.shownRows bindings read.1) ++
        List.replicate read.2 evaluator.settings.terminator.bytes =
      List.replicate blanks evaluator.settings.terminator.bytes ++
        (evaluator.lineCells row bindings rows).map fun cells =>
          evaluator.settings.encodeRow (cells.map (Cell.output evaluator.settings)) := by
  induction rows generalizing bindings row blanks with
  | nil => simp [recordsOfRows, lineCells, Dialect.encodeTable]
  | cons fields rest ih =>
      by_cases blank : fields = []
      · subst fields
        have later := ih bindings (row + 1) (blanks + 1)
        rw [List.replicate_succ', List.append_assoc] at later
        exact later
      · have later := ih (evaluator.cells (UInt32.ofNat row) 0 bindings fields).2 (row + 1) 0
        have size := evaluator.cells_length (UInt32.ofNat row) 0 bindings fields
        have shown : (evaluator.cells (UInt32.ofNat row) 0 bindings fields).1.map
            (Cell.output evaluator.settings) ≠ [] := by
          intro empty
          rw [List.map_eq_nil_iff.mp empty] at size
          exact blank (List.length_eq_zero_iff.mp size.symm)
        rw [recordsOfRows_visible _ _ _ _ blank]
        simp only [shownRows, cellRows, lineCells, Nat.add_sub_cancel, List.map_cons,
          Dialect.encodeTable, List.zip_cons_cons, List.flatMap_cons, List.replicate_zero,
          List.nil_append] at later ⊢
        rw [Dialect.encodeRow_visible _ _ shown, List.append_assoc, later]
        simp

theorem runFrom_writes_prefix (trailing : Nat) (bindings : Bindings) (statistics : Statistics)
    (records : List Record) :
    (evaluator.runFrom (.ok trailing) bindings statistics records).writes <+:
      evaluator.settings.encodeTable records (evaluator.shownRows bindings records) ++
        List.replicate trailing evaluator.settings.terminator.bytes := by
  induction records generalizing bindings statistics with
  | nil => simp [runFrom, Run.writes, filterMap_blankLines, Dialect.encodeTable]
  | cons record rest ih =>
      simp only [shownRows, cellRows, List.map_cons, Dialect.encodeTable, List.zip_cons_cons,
        List.flatMap_cons, List.append_assoc] at ih ⊢
      rcases evaluator.runFrom_cons (.ok trailing) bindings statistics record rest with
        ⟨_, stopped⟩ | ⟨_, stopped⟩ | ⟨_, _, cells, next, computed, continued⟩
      · rw [stopped, Run.writes, filterMap_blankLines]
        exact List.prefix_append _ _
      · rw [stopped, Run.writes, List.filterMap_append, filterMap_blankLines, filterMap_reports,
          List.append_nil]
        exact List.prefix_append _ _
      · rw [continued, computed]
        simp only [Run.writes, Run.after, List.filterMap_append, filterMap_blankLines,
          filterMap_reports, List.append_assoc, List.prefix_append_right_inj]
        exact List.cons_prefix_cons.mpr ⟨rfl, ih next _⟩

theorem cells_texts (row : UInt32) (column : Nat) (bindings : Bindings) (texts : List String) :
    (evaluator.cells row column bindings texts).1.map Cell.text = texts := by
  induction texts generalizing column bindings with
  | nil => rfl
  | cons text rest ih => simp only [cells, List.map_cons, ih]

theorem lineCells_texts (row : Nat) (bindings : Bindings) (rows : List (List String)) :
    (evaluator.lineCells row bindings rows).map (List.map Cell.text) = rows := by
  induction rows generalizing row bindings with
  | nil => rfl
  | cons fields rest ih => simp only [lineCells, List.map_cons, cells_texts, ih]

theorem output_plain (lookup : Lookup) (cell : Cell)
    (result : cell.result = evaluator.result lookup cell.text)
    (plain : evaluator.isFormula cell.text = false) : cell.output evaluator.settings = cell.text := by
  rcases evaluator.result_cases lookup cell.text with ⟨_, shown⟩ | ⟨marked, _⟩ | ⟨marked, _⟩
  · rw [Cell.output, result, shown]
  · simp [plain] at marked
  · simp [plain] at marked

variable (text : String)

theorem textCells_getElem? (row column : Nat) (cells : List Cell) (cell : Cell)
    (found : (evaluator.textCells text)[row]? = some cells) (inside : cells[column]? = some cell) :
    ∃ line, (textLines text.toList)[row]? = some line ∧
      cells.map Cell.text = evaluator.settings.lineFields line ∧
      cell.address = ⟨UInt32.ofNat row, UInt32.ofNat column⟩ ∧
      (evaluator.isFormula cell.text = false → cell.output evaluator.settings = cell.text) := by
  obtain ⟨fields, reached, foundFields, rfl⟩ := evaluator.lineCells_getElem? 0 _ _ row cells found
  rw [List.getElem?_map, Option.map_eq_some_iff] at foundFields
  obtain ⟨line, foundLine, rfl⟩ := foundFields
  obtain ⟨address, lookup, result⟩ := evaluator.cells_getElem? _ _ _ _ column cell inside
  rw [Nat.zero_add, Nat.zero_add] at address
  exact ⟨line, foundLine, evaluator.cells_texts _ _ _ _, address,
    evaluator.output_plain lookup cell result⟩

theorem textCells_indexed (indexed : ∀ record ∈ (recordsOfRows 0 0
      ((textLines text.toList).map evaluator.settings.lineFields)).1,
      record.line ≤ maxIndex + 1 ∧ record.fields.length ≤ maxIndex + 1)
    (row column : Nat) (cells : List Cell) (cell : Cell)
    (found : (evaluator.textCells text)[row]? = some cells) (inside : cells[column]? = some cell) :
    cell.address.row.toNat = row ∧ cell.address.column.toNat = column := by
  obtain ⟨line, foundLine, texts, address, _⟩ :=
    evaluator.textCells_getElem? text row column cells cell found inside
  have bound := (List.getElem?_eq_some_iff.mp inside).1
  have size := congrArg List.length texts
  rw [List.length_map] at size
  have visible : evaluator.settings.lineFields line ≠ [] := by
    intro blank
    rw [blank] at size
    simp only [List.length_nil] at size
    omega
  obtain ⟨lower, narrow⟩ := (recordsOfRows_indexed 0 0 _ _ _).mp indexed row _
    (by rw [List.getElem?_map, foundLine, Option.map_some]) visible
  rw [address]
  exact ⟨toNat_ofNat_of_le_maxIndex row (by omega), toNat_ofNat_of_le_maxIndex column (by omega)⟩

section Written

variable {evaluator} {text} (separating : evaluator.settings.toDialect.Separating)
  (clean : ∀ cells ∈ evaluator.textCells text, ∀ cell ∈ cells,
    evaluator.isFormula cell.text = true →
      evaluator.settings.toDialect.Clean (cell.output evaluator.settings))

include separating clean

theorem outputs_visible (cells : List Cell) (member : cells ∈ evaluator.textCells text)
    (shown : String) (only : cells.map (Cell.output evaluator.settings) = [shown]) : shown ≠ "" := by
  obtain ⟨cell, rfl, rfl⟩ := List.map_eq_singleton_iff.mp only
  cases marked : evaluator.isFormula cell.text with
  | true => exact (clean _ member cell (by simp) marked).visible
  | false =>
      obtain ⟨row, found⟩ := List.mem_iff_getElem?.mp member
      obtain ⟨line, _, texts, _, kept⟩ :=
        evaluator.textCells_getElem? text row 0 _ cell found rfl
      have joined := evaluator.settings.lineFields_joined separating.low line
      rw [List.map_singleton] at texts
      rw [← texts, Dialect.joined, List.map_singleton, List.intercalate_singleton] at joined
      rw [kept marked]
      intro empty
      rw [empty] at joined
      have blank : line = [] := by
        by_contra visible
        exact encodeChars_ne_nil line visible joined.symm
      rw [(evaluator.settings.lineFields_eq_nil line).mpr blank] at texts
      simp at texts

variable (plain : ∀ byte ∈ encodeText text,
  byte ≠ evaluator.settings.quote ∧ evaluator.settings.escape ≠ some byte)

include plain

theorem outputs_inside (cells : List Cell) (member : cells ∈ evaluator.textCells text) (cell : Cell)
    (belongs : cell ∈ cells) :
    ∀ byte ∈ encodeText (cell.output evaluator.settings),
      evaluator.settings.toDialect.Inside byte := by
  intro byte inside
  cases marked : evaluator.isFormula cell.text with
  | true => exact (clean cells member cell belongs marked).inside byte inside
  | false =>
      obtain ⟨row, found⟩ := List.mem_iff_getElem?.mp member
      obtain ⟨column, foundCell⟩ := List.mem_iff_getElem?.mp belongs
      obtain ⟨line, foundLine, texts, _, kept⟩ :=
        evaluator.textCells_getElem? text row column cells cell found foundCell
      have field : cell.text ∈ evaluator.settings.lineFields line := by
        rw [← texts]
        exact List.mem_map_of_mem belongs
      obtain ⟨unended, inText⟩ := textLines_inside text.toList line (List.mem_of_getElem? foundLine)
      rw [kept marked] at inside
      obtain ⟨notDelimiter, inLine⟩ := evaluator.settings.lineFields_bytes separating.low line _
        field byte inside
      obtain ⟨notQuote, notEscape⟩ := plain byte (encodeChars_subset inText byte inLine)
      exact ⟨notDelimiter, notQuote, notEscape, unended.bytes byte inLine⟩

theorem rewritten_eq :
    let read := recordsOfRows 0 0 ((textLines text.toList).map evaluator.settings.lineFields)
    evaluator.settings.encodeTable read.1 (evaluator.shownRows .empty read.1) ++
        List.replicate read.2 evaluator.settings.terminator.bytes =
      (evaluator.textCells text).map fun cells =>
        evaluator.settings.joined (cells.map (Cell.output evaluator.settings)) ++
          evaluator.settings.terminator.bytes := by
  intro read
  rw [encodeTable_recordsOfRows, List.replicate_zero, List.nil_append]
  apply List.map_congr_left
  intro cells member
  apply Dialect.encodeRow_joined
  · intro shown belongs
    obtain ⟨cell, inRow, rfl⟩ := List.mem_map.mp belongs
    exact outputs_inside separating clean plain cells member cell inRow
  · exact outputs_visible separating clean cells member

end Written

theorem textCells_inReach (evaluator : Evaluator) (text : String) :
    (∀ (row : Nat) (cells : List Cell), (evaluator.textCells text)[row]? = some cells →
        cells ≠ [] → row ≤ maxIndex ∧ cells.length ≤ maxIndex + 1) ↔
      ∀ record ∈ (recordsOfRows 0 0
        ((textLines text.toList).map evaluator.settings.lineFields)).1, record.InRange := by
  have texts : (evaluator.textCells text).map (List.map Cell.text) =
      (textLines text.toList).map evaluator.settings.lineFields :=
    evaluator.lineCells_texts 0 .empty _
  rw [← texts]
  refine Iff.trans ?_ (recordsOfRows_indexed 0 0 _ _ _).symm
  constructor
  · intro reach index fields found visible
    rw [List.getElem?_map, Option.map_eq_some_iff] at found
    obtain ⟨cells, foundCells, rfl⟩ := found
    rw [ne_eq, List.map_eq_nil_iff] at visible
    obtain ⟨near, narrow⟩ := reach index cells foundCells visible
    exact ⟨by omega, by rwa [List.length_map]⟩
  · intro indexed row cells found visible
    obtain ⟨near, narrow⟩ := indexed row (cells.map Cell.text)
      (by rw [List.getElem?_map, found, Option.map_some]) (by simpa using visible)
    exact ⟨by omega, by rwa [List.length_map] at narrow⟩

/-- Where nothing has to be quoted, evaluating rewrites a text in place: every line is written in its turn,
with the result of each formula between the delimiters where the formula stood, and with all other bytes
as they were. Only a cell beyond the addresses can stop the evaluation within it. -/
theorem evaluate_inPlace (separating : evaluator.settings.toDialect.Separating)
    (noMark : ¬['\uFEFF'] <+: text.toList)
    (plain : ∀ byte ∈ encodeText text,
      byte ≠ evaluator.settings.quote ∧ evaluator.settings.escape ≠ some byte)
    (clean : ∀ cells ∈ evaluator.textCells text, ∀ cell ∈ cells,
      evaluator.isFormula cell.text = true →
        evaluator.settings.toDialect.Clean (cell.output evaluator.settings)) :
    let dialect := evaluator.settings.toDialect
    let lines := textLines text.toList
    let rows := evaluator.textCells text
    let rewritten := rows.map fun cells =>
      dialect.joined (cells.map (Cell.output evaluator.settings)) ++ dialect.terminator.bytes
    let evaluation := evaluator.evaluate (.ok (encodeText text)) {}
    let inReach := ∀ (row : Nat) (cells : List Cell), rows[row]? = some cells → cells ≠ [] →
      row ≤ maxIndex ∧ cells.length ≤ maxIndex + 1
    sourceLines (encodeText text) = lines.map encodeChars ∧
      rows.map (List.map Cell.text) = lines.map dialect.lineFields ∧
      (∀ line ∈ lines, encodeChars line = dialect.joined (dialect.lineFields line)) ∧
      (∀ (row column : Nat) (cells : List Cell) (cell : Cell), rows[row]? = some cells →
        cells[column]? = some cell → cell.address = ⟨UInt32.ofNat row, UInt32.ofNat column⟩ ∧
          (evaluator.isFormula cell.text = false → cell.output evaluator.settings = cell.text)) ∧
      evaluation.written <+: rewritten ∧
      (inReach → ∃ statistics, evaluation.result = .ok statistics ∧
        evaluation.written = rewritten ∧
        ∀ (row column : Nat) (cells : List Cell) (cell : Cell), rows[row]? = some cells →
          cells[column]? = some cell →
            cell.address.row.toNat = row ∧ cell.address.column.toNat = column) ∧
      (¬inReach → UInt32.size ≤ (encodeText text).length ∧
        ∃ error, evaluation.result = .error (.address error)) := by
  have read := readDocument_text separating text (fun byte member => (plain byte member).1)
    (noMark_encodeText text noMark)
  obtain ⟨written, ended⟩ := evaluator.evaluate_unlimited (encodeText text)
  have table := rewritten_eq separating clean plain
  obtain ⟨finishes, stops⟩ :=
    run_ends evaluator (encodeText text) _ (congrArg Document.ending read)
  rw [read] at finishes stops
  refine ⟨sourceLines_encodeChars text.toList, evaluator.lineCells_texts 0 .empty _, ?_, ?_, ?_,
    fun reach => ?_, fun beyond => ?_⟩
  · intro line _
    exact (evaluator.settings.lineFields_joined separating.low line).symm
  · intro row column cells cell found inside
    obtain ⟨_, _, _, address, kept⟩ :=
      evaluator.textCells_getElem? text row column cells cell found inside
    exact ⟨address, kept⟩
  · rw [written, Evaluator.run, read, ← table]
    exact evaluator.runFrom_writes_prefix _ _ _ _
  · obtain ⟨statistics, finished⟩ := finishes ((evaluator.textCells_inReach text).mp reach)
    obtain ⟨trailing, complete, ordered, rowsWritten, _⟩ :=
      run_cells evaluator (encodeText text) statistics finished
    rw [read] at complete ordered rowsWritten
    obtain rfl : _ = trailing := by simpa using complete
    refine ⟨statistics, ended.trans finished, ?_, ?_⟩
    · rw [written, rowsWritten, table]
    · intro row column cells cell found inside
      exact evaluator.textCells_indexed text ordered.indexed row column cells cell found inside
  · obtain ⟨long, error, stopped⟩ := stops ((evaluator.textCells_inReach text).not.mp beyond)
    exact ⟨long, error, ended.trans stopped⟩

end Evaluator

def raggedSheet : String :=
  ",x,\r\n\r=1 2 +,=A9,\n\u00E9"

theorem evaluate_inPlace_raggedSheet :
    let evaluator : Evaluator := .mk {} .empty
    let evaluation := evaluator.evaluate (.ok (encodeText raggedSheet)) {}
    textLines raggedSheet.toList =
        [",x,".toList, [], "=1 2 +,=A9,".toList, "\u00E9".toList] ∧
      evaluation.result.toOption.map Statistics.rows = some 4 ∧
      evaluation.written = [encodeText ",x,\n", [lineFeed], encodeText "3.0,#N/A,\n",
        encodeText "\u00E9\n"] := by
  intro evaluator evaluation
  have separating : evaluator.settings.toDialect.Separating := ⟨by decide, by decide⟩
  have noMark : ¬['\uFEFF'] <+: raggedSheet.toList := by decide +kernel
  have plain : ∀ byte ∈ encodeText raggedSheet,
      byte ≠ evaluator.settings.quote ∧ evaluator.settings.escape ≠ some byte := by
    decide +kernel
  have clean : ∀ cells ∈ evaluator.textCells raggedSheet, ∀ cell ∈ cells,
      evaluator.isFormula cell.text = true →
        evaluator.settings.toDialect.Clean (cell.output evaluator.settings) := by
    decide +kernel
  have short : (encodeText raggedSheet).length < UInt32.size := by decide +kernel
  obtain ⟨_, _, _, _, _, finishes, stops⟩ :=
    evaluator.evaluate_inPlace raggedSheet separating noMark plain clean
  obtain ⟨_, _, written, _⟩ := finishes (by
    by_contra beyond
    exact absurd (stops beyond).1 (Nat.not_le.mpr short))
  refine ⟨by decide +kernel, by decide +kernel, ?_⟩
  rw [written]
  decide +kernel

section FarLine

variable (count : Nat)

theorem textLines_farLine :
    textLines (List.replicate count '\n' ++ ['x']) = List.replicate count [] ++ [['x']] := by
  induction count with
  | zero => rfl
  | succ count ih => simp [List.replicate_succ, textLines, ih]

theorem rawRecords_farLine (positive : 0 < count) :
    rawRecords {} (List.replicate count lineFeed ++ [120]) =
      ([⟨List.replicate count lineFeed ++ [120], [[120]]⟩], []) := by
  have scanned (skipped : List UInt8) : scanRecords {} { source := skipped } [120] =
      ([⟨(120 :: skipped).reverse, [[120]]⟩], []) := rfl
  rw [rawRecords_feeds {} count positive, scanned]
  simp

end FarLine

/-- A line behind too many others has no row, and is not written. -/
theorem evaluate_inPlace_farLine :
    let evaluator : Evaluator := {}
    let text := String.ofList (List.replicate UInt32.size '\n' ++ ['x'])
    evaluator.settings.toDialect.Separating ∧ (¬['\uFEFF'] <+: text.toList) ∧
      (∀ byte ∈ encodeText text,
        byte ≠ evaluator.settings.quote ∧ evaluator.settings.escape ≠ some byte) ∧
      (∀ cells ∈ evaluator.textCells text, ∀ cell ∈ cells,
        evaluator.isFormula cell.text = false) ∧
      textLines text.toList = List.replicate UInt32.size [] ++ [['x']] ∧
      (evaluator.evaluate (.ok (encodeText text)) {}).written =
        List.replicate UInt32.size [lineFeed] ∧
      ∀ statistics, (evaluator.evaluate (.ok (encodeText text)) {}).result ≠ .ok statistics := by
  have far : maxIndex < UInt32.size := by decide
  generalize UInt32.size = count at far
  intro evaluator text
  have lines : textLines text.toList = List.replicate count [] ++ [['x']] := by
    rw [String.toList_ofList, textLines_farLine]
  have encoded : encodeText text = List.replicate count lineFeed ++ [120] := by
    rw [encodeText, String.toList_ofList, encodeChars_append, encodeChars_feeds]
    rfl
  obtain ⟨written, stopped⟩ := evaluator.evaluate_behindFeeds far
    (rawRecords_farLine count (by omega)) rfl (show decodeFields 0 [[120]] = .ok ["x"] from rfl)
  rw [← encoded] at written stopped
  refine ⟨⟨by decide, by decide⟩, ?_, ?_, ?_, lines, written, ?_⟩
  · obtain ⟨more, rfl⟩ := Nat.exists_eq_succ_of_ne_zero (n := count) (by omega)
    simp [text, List.replicate_succ]
  · rw [encoded]
    intro byte member
    rcases List.mem_append.mp member with feed | last
    · rw [List.eq_of_mem_replicate feed]
      decide
    · rw [List.mem_singleton.mp last]
      decide
  · intro cells member cell belongs
    have texts := evaluator.lineCells_texts 0 .empty
      ((textLines text.toList).map evaluator.settings.lineFields)
    have inside : cells.map Cell.text ∈ (textLines text.toList).map evaluator.settings.lineFields := by
      rw [← texts]
      exact List.mem_map_of_mem member
    obtain ⟨line, belongsLine, fields⟩ := List.mem_map.mp inside
    have field : cell.text ∈ evaluator.settings.lineFields line := by
      rw [fields]
      exact List.mem_map_of_mem belongs
    rw [lines, List.mem_append, List.mem_singleton] at belongsLine
    rcases belongsLine with blank | rfl
    · rw [List.eq_of_mem_replicate blank] at field
      simp [Dialect.lineFields] at field
    · have only : evaluator.settings.lineFields ['x'] = ["x"] := by decide +kernel
      rw [only, List.mem_singleton] at field
      rw [field]
      decide +kernel
  · intro statistics finished
    simp [stopped] at finished

end PostfixSheet
