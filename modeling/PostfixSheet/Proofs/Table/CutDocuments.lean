import PostfixSheet.Proofs.Table.FieldBreaks
import PostfixSheet.Proofs.Table.RecordLines
import PostfixSheet.Proofs.Table.RowRoundTrip

/-! Documents that are cut behind a record. The records in front of the cut are read as before, and nothing
is left behind them. -/

namespace PostfixSheet

def RawRecord.Decodable (raw : RawRecord) : Prop :=
  ∀ field ∈ raw.fields, IsText field

theorem decodeFields_ok_iff (index : Nat) (fields : List (List UInt8)) :
    (∃ texts, decodeFields index fields = .ok texts) ↔ ∀ field ∈ fields, IsText field := by
  constructor
  · rintro ⟨texts, decoded⟩ field member
    rw [decodeFields_eq index fields texts decoded] at member
    obtain ⟨text, _, rfl⟩ := List.mem_map.mp member
    exact ⟨text, rfl⟩
  · intro decodable
    have encoded : fields ∈ Set.range (List.map encodeText) := by
      rw [Set.range_list_map]
      exact fun field member => (decodable field member).imp fun _ => Eq.symm
    obtain ⟨texts, rfl⟩ := encoded
    exact ⟨texts, decodeFields_encodeText index texts⟩

def ReadingPoint.after (point : ReadingPoint) (raws : List RawRecord) : ReadingPoint :=
  raws.foldl (fun point raw => point.next (point.lines.pass raw.source) raw.source) point

theorem ReadingPoint.after_record (point : ReadingPoint) (raws : List RawRecord) :
    (point.after raws).record = point.record + raws.length := by
  induction raws generalizing point with
  | nil => rfl
  | cons raw rest ih =>
      rw [after, List.foldl_cons, ← after, ih, List.length_cons]
      simp only [next]
      omega

theorem ReadingPoint.after_byte (point : ReadingPoint) (raws : List RawRecord) :
    (point.after raws).byte = point.byte + (raws.flatMap RawRecord.source).length := by
  induction raws generalizing point with
  | nil => rfl
  | cons raw rest ih =>
      rw [after, List.foldl_cons, ← after, ih, List.flatMap_cons, List.length_append]
      simp only [next]
      omega

theorem ReadingPoint.after_lines (point : ReadingPoint) (raws : List RawRecord) :
    (point.after raws).lines = point.lines.pass (raws.flatMap RawRecord.source) := by
  induction raws generalizing point with
  | nil => rfl
  | cons raw rest ih =>
      rw [after, List.foldl_cons, ← after, ih, List.flatMap_cons, ← LineCount.pass_append]
      rfl

theorem readFrom_append (tail : List UInt8) (point : ReadingPoint) (front later : List RawRecord)
    (decodable : ∀ raw ∈ front, raw.Decodable) :
    (readFrom [] point front).ending = .ok 0 ∧
      readFrom tail point (front ++ later) =
        ⟨(readFrom [] point front).records ++ (readFrom tail (point.after front) later).records,
          (readFrom tail (point.after front) later).ending⟩ := by
  induction front generalizing point with
  | nil =>
      refine ⟨?_, rfl⟩
      simp [readFrom, LineCount.blanksSince, LineCount.pass]
  | cons raw rest ih =>
      obtain ⟨texts, decoded⟩ :=
        (decodeFields_ok_iff 0 raw.fields).mpr (decodable raw (by simp))
      obtain ⟨complete, continued⟩ := ih (point.next (point.lines.pass raw.source) raw.source)
        fun other member => decodable other (by simp [member])
      simp only [List.cons_append, readFrom, decoded, place_eq, complete, continued, true_and]
      rfl

theorem scanRecords_cut (dialect : Dialect) (record : OpenRecord) (bytes : List UInt8)
    (front later : List RawRecord) (some_record : front ≠ [])
    (found : (scanRecords dialect record bytes).1 = front ++ later) :
    ∃ cut behind, cut ++ behind = bytes ∧
      record.source.reverse ++ cut = front.flatMap RawRecord.source ∧
      scanRecords dialect record cut = (front, []) ∧
      scanRecords dialect {} behind = (later, (scanRecords dialect record bytes).2) := by
  induction bytes generalizing record front with
  | nil =>
      simp only [scanRecords] at found ⊢
      split at found
      · exact (some_record (List.append_eq_nil_iff.mp found.symm).1).elim
      · rename_i inside
        obtain ⟨rfl, rfl⟩ : front = [record.close] ∧ later = [] := by
          cases front with
          | nil => contradiction
          | cons first more => simp_all
        exact ⟨[], [], rfl, by simp [OpenRecord.close], by simp [scanRecords, inside],
          by simp [scanRecords, inside]⟩
  | cons byte rest ih =>
      rcases scan_cases dialect record.state byte with
        ⟨atStart, _, skipped⟩ | ⟨_, _, ended⟩ | ⟨_, _, read⟩
      · rw [scanRecords_skip dialect record byte rest skipped atStart] at found ⊢
        obtain ⟨cut, behind, whole, sources, scanned, resumed⟩ := ih (record.sip byte) front
          some_record found
        refine ⟨byte :: cut, behind, by simp [whole], ?_, ?_, resumed⟩
        · rw [← sources]
          simp [OpenRecord.sip]
        · rw [scanRecords_skip dialect record byte cut skipped atStart, scanned]
      · rw [scanRecords_finish dialect record byte rest ended] at found ⊢
        cases front with
        | nil => contradiction
        | cons first more =>
            obtain ⟨rfl, others⟩ := List.cons.inj found
            by_cases last : more = []
            · subst more
              refine ⟨[byte], rest, rfl, by simp [OpenRecord.close, OpenRecord.sip], ?_, ?_⟩
              · rw [scanRecords_finish dialect record byte [] ended]
                rfl
              · exact Prod.ext others rfl
            · obtain ⟨cut, behind, whole, sources, scanned, resumed⟩ := ih {} more last others
              refine ⟨byte :: cut, behind, by simp [whole], ?_, ?_, resumed⟩
              · rw [List.flatMap_cons, ← sources]
                simp [OpenRecord.close, OpenRecord.sip]
              · rw [scanRecords_finish dialect record byte cut ended, scanned]
      · rw [scanRecords_absorb dialect record byte rest read] at found ⊢
        obtain ⟨cut, behind, whole, sources, scanned, resumed⟩ := ih _ front some_record found
        refine ⟨byte :: cut, behind, by simp [whole], ?_, ?_, resumed⟩
        · rw [← sources]
          simp [OpenRecord.absorb]
        · rw [scanRecords_absorb dialect record byte cut read, scanned]

section Document

variable (dialect : Dialect) (bytes : List UInt8)

theorem splitMark_prefix (cut : List UInt8) (begins : cut <+: (splitMark bytes).2) :
    splitMark ((splitMark bytes).1 ++ cut) = ((splitMark bytes).1, cut) := by
  have whole := splitMark_append bytes
  rw [splitMark_fst] at whole ⊢
  split at whole
  · rename_i marked
    rw [if_pos marked]
    rfl
  · rename_i noMark
    rw [if_neg noMark]
    rw [List.nil_append] at whole ⊢
    rw [whole] at begins
    exact splitMark_of_no_mark cut fun marked => noMark (marked.trans begins)

theorem rawRecords_readBefore (index : Nat) :
    rawRecords dialect (readBefore (rawRecords dialect bytes).1 index) =
      ((rawRecords dialect bytes).1.take index, []) := by
  by_cases nothing : (rawRecords dialect bytes).1.take index = []
  · rw [readBefore, nothing]
    rfl
  · obtain ⟨cut, behind, whole, sources, scanned, _⟩ := scanRecords_cut dialect
      { source := (splitMark bytes).1.reverse } (splitMark bytes).2
      ((rawRecords dialect bytes).1.take index) ((rawRecords dialect bytes).1.drop index) nothing
      (List.take_append_drop index _).symm
    rw [List.reverse_reverse] at sources
    rw [readBefore, ← sources, rawRecords, splitMark_prefix bytes cut ⟨behind, whole⟩]
    exact scanned

theorem readDocument_readBefore (index : Nat)
    (decodable : ∀ raw ∈ (rawRecords dialect bytes).1.take index, raw.Decodable) :
    (readDocument dialect (readBefore (rawRecords dialect bytes).1 index)).ending = .ok 0 ∧
      readDocument dialect bytes =
        let point := ReadingPoint.after {} ((rawRecords dialect bytes).1.take index)
        let later := readFrom (rawRecords dialect bytes).2 point
          ((rawRecords dialect bytes).1.drop index)
        ⟨(readDocument dialect (readBefore (rawRecords dialect bytes).1 index)).records ++
          later.records, later.ending⟩ := by
  obtain ⟨complete, whole⟩ := readFrom_append (rawRecords dialect bytes).2 {}
    ((rawRecords dialect bytes).1.take index) ((rawRecords dialect bytes).1.drop index) decodable
  rw [List.take_append_drop] at whole
  have cut : readDocument dialect (readBefore (rawRecords dialect bytes).1 index) =
      readFrom [] {} ((rawRecords dialect bytes).1.take index) := by
    rw [readDocument, rawRecords_readBefore]
  rw [cut]
  exact ⟨complete, whole⟩

end Document

end PostfixSheet
