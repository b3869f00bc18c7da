import PostfixSheet.Proofs.Table.DocumentOrder
import PostfixSheet.Proofs.Table.FieldBreaks
import PostfixSheet.Proofs.Table.RowRoundTrip

/-! A table with other fields in its records. Written without an escape byte and read again, it has the
same blank lines and just these fields, though its records may lie on other lines. -/

namespace PostfixSheet

def Record.content (record : Record) : Nat × List String :=
  (record.blankBefore, record.fields)

def replaceFields (records : List Record) (rows : List (List String)) : List Record :=
  (records.zip rows).map fun entry => { entry.1 with fields := entry.2 }

theorem replaceFields_content (records : List Record) (rows : List (List String)) :
    (replaceFields records rows).map Record.content =
      (records.map Record.blankBefore).zip rows := by
  rw [replaceFields, List.map_map, List.zip_map_left]
  rfl

theorem replaceFields_visible (records : List Record) (rows : List (List String))
    (visible : ∀ row ∈ rows, row ≠ []) :
    ∀ record ∈ replaceFields records rows, record.fields ≠ [] := by
  intro record member
  obtain ⟨entry, belongs, rfl⟩ := List.mem_map.mp member
  exact visible entry.2 (List.of_mem_zip belongs).2

theorem flatMap_rows_congr (first second : List Record)
    (same : first.map Record.content = second.map Record.content) :
    first.flatMap Record.rows = second.flatMap Record.rows := by
  have rows (records : List Record) : records.flatMap Record.rows =
      (records.map Record.content).flatMap
        fun content => List.replicate content.1 [] ++ [content.2] := by
    rw [List.flatMap_map]
    rfl
  rw [rows, rows, same]

section Unique

theorem blankRows_unique (first second : Nat) (left right : List String)
    (before after : List (List String)) (leftVisible : left ≠ []) (rightVisible : right ≠ [])
    (same : List.replicate first [] ++ left :: before =
      List.replicate second [] ++ right :: after) :
    first = second ∧ left = right ∧ before = after := by
  induction first generalizing second with
  | zero =>
      cases second with
      | zero => simpa using same
      | succ second => simp [List.replicate_succ, leftVisible] at same
  | succ first ih =>
      cases second with
      | zero => simp [List.replicate_succ, rightVisible.symm] at same
      | succ second =>
          simp only [List.replicate_succ, List.cons_append, List.cons.injEq, true_and] at same
          obtain ⟨counts, rest⟩ := ih second same
          exact ⟨by omega, rest⟩

theorem rows_ne_replicate (record : Record) (records : List Record) (more fewer : Nat)
    (visible : record.fields ≠ []) :
    (record :: records).flatMap Record.rows ++ List.replicate more [] ≠
      List.replicate fewer [] := by
  intro same
  have member : record.fields ∈ List.replicate fewer [] := by
    rw [← same]
    simp [Record.rows]
  exact visible (List.eq_of_mem_replicate member)

theorem rows_unique (first second : List Record) (more fewer : Nat)
    (firstVisible : ∀ record ∈ first, record.fields ≠ [])
    (secondVisible : ∀ record ∈ second, record.fields ≠ [])
    (same : first.flatMap Record.rows ++ List.replicate more [] =
      second.flatMap Record.rows ++ List.replicate fewer []) :
    first.map Record.content = second.map Record.content ∧ more = fewer := by
  induction first generalizing second with
  | nil =>
      cases second with
      | nil => exact ⟨rfl, by simpa using congrArg List.length same⟩
      | cons record rest =>
          exact (rows_ne_replicate record rest fewer more (secondVisible record (by simp))
            same.symm).elim
  | cons record rest ih =>
      cases second with
      | nil =>
          exact (rows_ne_replicate record rest more fewer (firstVisible record (by simp)) same).elim
      | cons other later =>
          simp only [List.flatMap_cons, Record.rows, List.append_assoc, List.singleton_append] at same
          obtain ⟨blanks, fields, behind⟩ := blankRows_unique _ _ _ _ _ _
            (firstVisible record (by simp)) (secondVisible other (by simp)) same
          obtain ⟨contents, counts⟩ := ih later (fun _ member => firstVisible _ (by simp [member]))
            (fun _ member => secondVisible _ (by simp [member])) behind
          exact ⟨by simp [Record.content, blanks, fields, contents], counts⟩

end Unique

theorem readDocument_rows (dialect : Dialect) (doubling : dialect.Doubling) (records : List Record)
    (trailing : Nat) (visible : ∀ record ∈ records, record.fields ≠ []) (bytes : List UInt8)
    (written : bytes = dialect.encodeRows (records.flatMap Record.rows ++ List.replicate trailing []))
    (noMark : ¬byteOrderMark <+: bytes) :
    (readDocument dialect bytes).ending = .ok trailing ∧
      (readDocument dialect bytes).records.map Record.content = records.map Record.content := by
  obtain ⟨read, complete, rebuilt, readVisible⟩ := readOn_encodeRows doubling {}
    (awaiting_start dialect.terminator) (records.flatMap Record.rows ++ List.replicate trailing [])
  have same : readOn dialect {} [] bytes = readDocument dialect bytes := by
    rw [readOn, readDocument, rawRecords, splitMark_of_no_mark _ noMark]
  rw [← written, same] at complete rebuilt readVisible
  obtain ⟨contents, counts⟩ := rows_unique _ _ _ _ visible readVisible rebuilt
  exact ⟨by rw [complete, counts], contents.symm⟩

section Written

variable (dialect : Dialect)

theorem encodeRows_blank (count : Nat) :
    dialect.encodeRows (List.replicate count []) =
      (List.replicate count dialect.terminator.bytes).flatten := by
  simp [Dialect.encodeRows, Dialect.encodeRow, List.flatMap_replicate]

theorem encodeRows_append (first second : List (List String)) :
    dialect.encodeRows (first ++ second) = dialect.encodeRows first ++ dialect.encodeRows second :=
  List.flatMap_append

theorem encodeTable_flatten (records : List Record) (rows : List (List String)) (trailing : Nat)
    (visible : ∀ row ∈ rows, row ≠ []) :
    (dialect.encodeTable records rows ++
        List.replicate trailing dialect.terminator.bytes).flatten =
      dialect.encodeRows ((replaceFields records rows).flatMap Record.rows ++
        List.replicate trailing []) := by
  rw [encodeRows_append, encodeRows_blank, List.flatten_append, List.append_cancel_right_eq]
  induction records generalizing rows with
  | nil => rfl
  | cons record rest ih =>
      cases rows with
      | nil => rfl
      | cons row more =>
          have shown := dialect.encodeRow_visible row (visible row (by simp))
          have later := ih more fun member belongs => visible member (by simp [belongs])
          simp only [Dialect.encodeTable, replaceFields, List.zip_cons_cons, List.flatMap_cons,
            List.map_cons, List.flatten_append, Record.rows, encodeRows_append,
            encodeRows_blank] at later ⊢
          rw [later]
          simp [Dialect.encodeRows, shown]

end Written

theorem scanRecords_visible (dialect : Dialect) (record : OpenRecord) (bytes : List UInt8) :
    ∀ raw ∈ (scanRecords dialect record bytes).1, raw.fields ≠ [] := by
  have closed (record : OpenRecord) : record.close.fields ≠ [] := by simp [OpenRecord.close]
  exact scanRecords_forall dialect (fun _ => True) _ trivial (fun _ _ _ _ => trivial)
    (fun _ _ _ _ => trivial) (fun record _ _ => ⟨closed record, fun _ => closed _⟩) record trivial
    bytes

theorem document_visible (dialect : Dialect) (bytes : List UInt8) :
    ∀ record ∈ (readDocument dialect bytes).records, record.fields ≠ [] := by
  intro record member
  obtain ⟨index, found⟩ := List.mem_iff_getElem?.mp member
  obtain ⟨raw, rawFound, decoded, _⟩ := record_placed dialect bytes index record found
  intro empty
  have fields := decodeFields_eq 0 raw.fields record.fields decoded
  rw [empty] at fields
  exact scanRecords_visible _ _ _ raw (List.mem_of_getElem? rawFound) fields

end PostfixSheet
