import PostfixSheet.Proofs.Table.DocumentOrder
import PostfixSheet.Proofs.Table.WrittenRows

/-! How far addresses reach. A document has to be very long before one of its records or fields lies beyond
them. -/

namespace PostfixSheet

/-- A record that has an address for each of its cells. -/
def Record.InRange (record : Record) : Prop :=
  record.line ≤ maxIndex + 1 ∧ record.fields.length ≤ maxIndex + 1

instance (record : Record) : Decidable record.InRange :=
  inferInstanceAs (Decidable (_ ∧ _))

theorem scanRecords_fields_length (dialect : Dialect) (record : OpenRecord)
    (bounded : record.fields.length ≤ record.source.length) (bytes : List UInt8) :
    ∀ raw ∈ (scanRecords dialect record bytes).1, raw.fields.length ≤ raw.source.length + 1 := by
  have closed (record : OpenRecord) (bounded : record.fields.length ≤ record.source.length) :
      record.close.fields.length ≤ record.close.source.length + 1 := by
    simpa [OpenRecord.close] using bounded
  have sipped (record : OpenRecord) (byte : UInt8)
      (bounded : record.fields.length ≤ record.source.length) :
      (record.sip byte).fields.length ≤ (record.sip byte).source.length :=
    Nat.le_succ_of_le bounded
  refine scanRecords_forall dialect (fun record => record.fields.length ≤ record.source.length) _
    (Nat.le_refl 0) ?_ ?_ ?_ record bounded bytes
  · exact fun record byte bounded _ => sipped record byte bounded
  · intro record byte bounded _
    simp only [OpenRecord.absorb, List.length_cons]
    split
    · rw [List.length_cons]
      omega
    · omega
  · exact fun record bounded _ =>
      ⟨closed record bounded, fun byte => closed _ (sipped record byte bounded)⟩

theorem source_length_le (dialect : Dialect) (bytes : List UInt8) :
    ∀ raw ∈ (rawRecords dialect bytes).1, raw.source.length ≤ bytes.length := by
  intro raw member
  have inside : raw.source.Sublist ((rawRecords dialect bytes).1.flatMap RawRecord.source) :=
    List.sublist_flatten_of_mem (List.mem_map_of_mem member)
  have whole := congrArg List.length (rawRecords_sources dialect bytes)
  have bound := inside.length_le
  rw [List.length_append] at whole
  omega

theorem document_indexed (dialect : Dialect) (bytes : List UInt8) (short : bytes.length < UInt32.size) :
    ∀ record ∈ (readDocument dialect bytes).records, record.InRange := by
  intro record member
  obtain ⟨index, found⟩ := List.mem_iff_getElem?.mp member
  obtain ⟨raw, rawFound, decoded, _⟩ := record_placed dialect bytes index record found
  have rawMember := List.mem_of_getElem? rawFound
  have line := record_line_le dialect bytes index record found
  have breaks := lineBreaks_le_length bytes
  have fields := scanRecords_fields_length dialect _ (Nat.zero_le _) _ raw rawMember
  have source := source_length_le dialect bytes raw rawMember
  have same : raw.fields.length = record.fields.length := by
    rw [decodeFields_eq 0 raw.fields record.fields decoded, List.length_map]
  simp only [Record.InRange, maxIndex]
  omega

theorem Evaluator.runFrom_indexed (evaluator : Evaluator) (trailing : Nat) (bindings : Bindings)
    (statistics : Statistics) (records : List Record)
    (indexed : ∀ record ∈ records, record.InRange) :
    ∃ final, (evaluator.runFrom (.ok trailing) bindings statistics records).result = .ok final := by
  rcases evaluator.runFrom_ends trailing bindings statistics records with
    finished | ⟨record, member, beyond⟩
  · exact finished
  · obtain ⟨near, narrow⟩ := indexed record member
    rcases beyond with ⟨far, _⟩ | ⟨wide, _⟩
    · omega
    · omega

theorem Evaluator.runFrom_beyond (evaluator : Evaluator) (ending : Except UndecodableField Nat)
    (bindings : Bindings) (statistics : Statistics) (records : List Record)
    (beyond : ¬∀ record ∈ records, record.InRange) :
    ∃ error, (evaluator.runFrom ending bindings statistics records).result =
      .error (.address error) := by
  induction records generalizing bindings statistics with
  | nil => simp at beyond
  | cons record rest ih =>
      rcases evaluator.runFrom_cons ending bindings statistics record rest with
        ⟨_, stopped⟩ | ⟨_, stopped⟩ | ⟨line, fields, cells, next, _, continued⟩
      · exact ⟨_, by rw [stopped]⟩
      · exact ⟨_, by rw [stopped]⟩
      · rw [continued]
        exact ih next _ fun others => beyond (List.forall_mem_cons.mpr ⟨⟨line, fields⟩, others⟩)

theorem place_behindFeeds (count : Nat) (first : UInt8) (rest : List UInt8)
    (inside : isLineBreak first = false) :
    (LineCount.place {} (List.replicate count lineFeed ++ first :: rest)).1 =
      ⟨count + 1, count⟩ := by
  have leading : (List.replicate count lineFeed ++ first :: rest).takeWhile isLineBreak =
      List.replicate count lineFeed := by
    rw [List.takeWhile_append_of_pos (isLineBreak_feeds count), List.takeWhile_cons_of_neg (by simp [inside]),
      List.append_nil]
  simp only [LineCount.place, leading, LineCount.blanksSince, LineCount.pass_start_line,
    lineBreaks_feeds]
  simp [Nat.add_comm]

theorem Evaluator.evaluate_behindFeeds (evaluator : Evaluator) {bytes more tail : List UInt8}
    {count : Nat} {first : UInt8} {fields : List (List UInt8)} {texts : List String}
    {later : List RawRecord} (far : maxIndex < count)
    (scanned : rawRecords evaluator.settings.toDialect bytes =
      (⟨List.replicate count lineFeed ++ first :: more, fields⟩ :: later, tail))
    (inside : isLineBreak first = false) (decoded : decodeFields 0 fields = .ok texts) :
    (evaluator.evaluate (.ok bytes) {}).written =
        List.replicate count evaluator.settings.terminator.bytes ∧
      (evaluator.evaluate (.ok bytes) {}).result =
        .error (.address (.lineOutOfRange (count + 1))) := by
  have placed := place_behindFeeds count first more inside
  have stopped : evaluator.run bytes = ⟨blankLines evaluator.settings.toDialect count,
      .error (.address (.lineOutOfRange (count + 1)))⟩ := by
    simp only [run, readDocument, scanned, readFrom, decoded, placed, runFrom, Nat.add_sub_cancel,
      if_pos far]
  obtain ⟨written, ended⟩ := evaluator.evaluate_unlimited bytes
  rw [stopped] at written ended
  exact ⟨written.trans (filterMap_blankLines evaluator.settings.toDialect count), ended⟩

/-- A document whose records can all be decoded is evaluated to its end, unless it is longer than the
addresses reach. -/
theorem run_ends (evaluator : Evaluator) (bytes : List UInt8) (trailing : Nat)
    (complete : (readDocument evaluator.settings.toDialect bytes).ending = .ok trailing) :
    let records := (readDocument evaluator.settings.toDialect bytes).records
    ((∀ record ∈ records, record.InRange) →
      ∃ statistics, (evaluator.run bytes).result = .ok statistics) ∧
    ((¬∀ record ∈ records, record.InRange) → UInt32.size ≤ bytes.length ∧
      ∃ error, (evaluator.run bytes).result = .error (.address error)) := by
  rw [Evaluator.run, complete]
  refine ⟨evaluator.runFrom_indexed trailing .empty {} _, fun beyond => ⟨?_, ?_⟩⟩
  · exact Nat.le_of_not_lt fun short => beyond (document_indexed _ bytes short)
  · exact evaluator.runFrom_beyond _ .empty {} _ beyond

end PostfixSheet
