import PostfixSheet.Proofs.Table.AddressRange
import PostfixSheet.Proofs.Table.CutDocuments
import PostfixSheet.Proofs.Table.WrittenRows

/-! Evaluating a document with a record that is not UTF-8. Up to that record everything goes as if the
document ended in front of it. -/

namespace PostfixSheet

namespace Evaluator

theorem runFrom_undecodable (evaluator : Evaluator) (field : UndecodableField) (bindings : Bindings)
    (statistics : Statistics) (records : List Record) :
    let complete := evaluator.runFrom (.ok 0) bindings statistics records
    evaluator.runFrom (.error field) bindings statistics records =
      ⟨complete.actions, match complete.result with
        | .ok _ => .error (.undecodable field)
        | .error fault => .error fault⟩ := by
  induction records generalizing bindings statistics with
  | nil => rfl
  | cons record rest ih =>
      simp only [runFrom]
      split
      · rfl
      · split
        · rfl
        · simp only [ih, Run.after]

end Evaluator

theorem readFrom_undecodable (tail : List UInt8) (point : ReadingPoint) (raw : RawRecord)
    (later : List RawRecord) (undecodable : ¬raw.Decodable) :
    ∃ error, readFrom tail point (raw :: later) = ⟨[], .error error⟩ ∧
      error.record = point.record ∧ error.byte = point.byte := by
  rw [RawRecord.Decodable, ← decodeFields_ok_iff 0] at undecodable
  simp only [readFrom]
  cases decoded : decodeFields 0 raw.fields with
  | ok texts => exact (undecodable ⟨texts, decoded⟩).elim
  | error place => exact ⟨_, rfl, rfl, rfl⟩

section Document

variable (bytes : List UInt8) (index : Nat) (raw : RawRecord)

theorem readDocument_undecodable (dialect : Dialect)
    (found : (rawRecords dialect bytes).1[index]? = some raw)
    (decodable : ∀ earlier ∈ (rawRecords dialect bytes).1.take index, earlier.Decodable)
    (undecodable : ¬raw.Decodable) :
    let cut := readBefore (rawRecords dialect bytes).1 index
    (readDocument dialect cut).ending = .ok 0 ∧
      ∃ error, readDocument dialect bytes = ⟨(readDocument dialect cut).records, .error error⟩ ∧
        error.record = index ∧ error.byte = cut.length := by
  obtain ⟨bound, same⟩ := List.getElem?_eq_some_iff.mp found
  have length : ((rawRecords dialect bytes).1.take index).length = index := by
    rw [List.length_take]
    omega
  obtain ⟨complete, split⟩ := readDocument_readBefore dialect bytes index decodable
  obtain ⟨error, stopped, record, byte⟩ := readFrom_undecodable (rawRecords dialect bytes).2
    (.after {} ((rawRecords dialect bytes).1.take index)) raw
    ((rawRecords dialect bytes).1.drop (index + 1)) undecodable
  rw [List.drop_eq_getElem_cons bound, same] at split
  simp only [stopped, List.append_nil] at split
  rw [ReadingPoint.after_record, length] at record
  rw [ReadingPoint.after_byte, ← readBefore] at byte
  exact ⟨complete, error, split, record.trans (Nat.zero_add _), byte.trans (Nat.zero_add _)⟩

/-- A record that is not UTF-8 ends the evaluation, and what was written up to then is all that is written
for the document cut behind the byte that ended the record before. When addresses run out before that, both
end in the same way. -/
theorem evaluate_undecodable (evaluator : Evaluator)
    (found : (rawRecords evaluator.settings.toDialect bytes).1[index]? = some raw)
    (decodable : ∀ earlier ∈ (rawRecords evaluator.settings.toDialect bytes).1.take index,
      ∀ field ∈ earlier.fields, IsText field)
    (undecodable : ∃ field ∈ raw.fields, ¬IsText field) :
    let raws := (rawRecords evaluator.settings.toDialect bytes).1
    let cut := readBefore raws index
    let records := (readDocument evaluator.settings.toDialect cut).records
    let whole := evaluator.evaluate (.ok bytes) {}
    let short := evaluator.evaluate (.ok cut) {}
    cut <+: bytes ∧ rawRecords evaluator.settings.toDialect cut = (raws.take index, []) ∧
      whole.written = short.written ∧
      ((∀ record ∈ records, record.InRange) → ∃ error statistics,
        whole.result = .error (.undecodable error) ∧ error.record = index ∧
          error.byte = cut.length ∧ short.result = .ok statistics) ∧
      ((¬∀ record ∈ records, record.InRange) → UInt32.size ≤ cut.length ∧
        ∃ error, whole.result = .error (.address error) ∧
          short.result = .error (.address error)) := by
  have broken : ¬raw.Decodable := by
    obtain ⟨field, member, noText⟩ := undecodable
    exact fun all => noText (all field member)
  obtain ⟨complete, error, split, record, byte⟩ :=
    readDocument_undecodable bytes index raw _ found decodable broken
  intro raws cut records whole short
  obtain ⟨wholeWritten, wholeEnded⟩ := evaluator.evaluate_unlimited bytes
  obtain ⟨shortWritten, shortEnded⟩ := evaluator.evaluate_unlimited cut
  obtain ⟨finishes, stops⟩ := run_ends evaluator cut 0 complete
  have reached : evaluator.run bytes = ⟨(evaluator.run cut).actions,
      match (evaluator.run cut).result with
        | .ok _ => .error (.undecodable error)
        | .error fault => .error fault⟩ := by
    rw [Evaluator.run, Evaluator.run, split, complete]
    exact evaluator.runFrom_undecodable error .empty {} _
  refine ⟨readBefore_prefix_bytes index, rawRecords_readBefore _ bytes index, ?_, fun inRange => ?_,
    fun beyond => ?_⟩
  · rw [wholeWritten, shortWritten, reached]
    rfl
  · obtain ⟨statistics, finished⟩ := finishes inRange
    rw [wholeEnded, shortEnded, reached]
    exact ⟨error, statistics, by rw [finished], record, byte, finished⟩
  · obtain ⟨long, fault, stopped⟩ := stops beyond
    rw [wholeEnded, shortEnded, reached]
    exact ⟨long, fault, by rw [stopped], stopped⟩

end Document

theorem not_isText_broken : ¬IsText [0xFF] := by
  rw [isText_iff]
  rintro ⟨text, accepted⟩
  simp [decodeText, decodeFrom, openChar?] at accepted

def brokenBytes : List UInt8 :=
  encodeText "x\r\n\n=A1,y\n\nz," ++ 0xFF :: encodeText "\nw"

theorem evaluate_undecodable_brokenBytes :
    let whole := (Evaluator.mk {} .empty).evaluate (.ok brokenBytes) {}
    let short := (Evaluator.mk {} .empty).evaluate (.ok (encodeText "x\r\n\n=A1,y\n")) {}
    (rawRecords {} brokenBytes).1[2]? =
        some ⟨encodeText "\nz," ++ [0xFF, 10], [encodeText "z", [0xFF]]⟩ ∧
      (∀ earlier ∈ (rawRecords {} brokenBytes).1.take 2, ∀ field ∈ earlier.fields, IsText field) ∧
      ¬IsText [0xFF] ∧
      whole.written = [encodeText "x\n", [lineFeed], encodeText "#N/A,y\n"] ∧
      whole.written = short.written ∧ short.result = .ok ⟨3, 3, 1, 0, 1⟩ ∧
      ∃ error, whole.result = .error (.undecodable error) ∧ error.record = 2 ∧ error.byte = 10 := by
  have cut : readBefore (rawRecords {} brokenBytes).1 2 = encodeText "x\r\n\n=A1,y\n" := by
    decide +kernel
  have found : (rawRecords {} brokenBytes).1[2]? =
      some ⟨encodeText "\nz," ++ [0xFF, 10], [encodeText "z", [0xFF]]⟩ := by decide +kernel
  have front : (rawRecords {} brokenBytes).1.take 2 =
      [⟨encodeText "x\r", [encodeText "x"]⟩,
        ⟨encodeText "\n\n=A1,y\n", [encodeText "=A1", encodeText "y"]⟩] := by decide +kernel
  have decodable : ∀ earlier ∈ (rawRecords {} brokenBytes).1.take 2,
      ∀ field ∈ earlier.fields, IsText field := by
    rw [front]
    simp only [List.forall_mem_cons, List.not_mem_nil, false_implies, implies_true, and_true]
    exact ⟨⟨_, rfl⟩, ⟨_, rfl⟩, _, rfl⟩
  have succeeded : ((Evaluator.mk {} .empty).evaluate (.ok (encodeText "x\r\n\n=A1,y\n")) {}).result =
      .ok ⟨3, 3, 1, 0, 1⟩ := eq_ok_of_toOption _ _ (by decide +kernel)
  have written : ((Evaluator.mk {} .empty).evaluate (.ok (encodeText "x\r\n\n=A1,y\n")) {}).written =
      [encodeText "x\n", [lineFeed], encodeText "#N/A,y\n"] := by decide +kernel
  have inRange : ∀ record ∈ (readDocument {} (encodeText "x\r\n\n=A1,y\n")).records,
      record.InRange := by decide +kernel
  obtain ⟨_, _, same, ended, _⟩ := evaluate_undecodable brokenBytes 2 _ (.mk {} .empty) found
    decodable ⟨[0xFF], by simp, not_isText_broken⟩
  rw [cut] at same ended
  obtain ⟨error, _, stopped, record, byte, _⟩ := ended inRange
  exact ⟨found, decodable, not_isText_broken, same.trans written, same, succeeded, error, stopped,
    record, byte.trans (by decide +kernel)⟩

theorem rawRecords_farRecord (count : Nat) (positive : 0 < count) :
    rawRecords {} (List.replicate count lineFeed ++ [120, lineFeed, 0xFF]) =
      ([⟨List.replicate count lineFeed ++ [120, lineFeed], [[120]]⟩, ⟨[0xFF], [[0xFF]]⟩], []) := by
  have scanned (skipped : List UInt8) : scanRecords {} { source := skipped } [120, lineFeed, 0xFF] =
      ([⟨(lineFeed :: 120 :: skipped).reverse, [[120]]⟩, ⟨[0xFF], [[0xFF]]⟩], []) := rfl
  rw [rawRecords_feeds {} count positive, scanned]
  simp

/-- Behind too many blank lines a record has no row, and the evaluation does not come to the one that is
not UTF-8. -/
theorem evaluate_undecodable_farRecord :
    let bytes := List.replicate UInt32.size lineFeed ++ [120, lineFeed, 0xFF]
    let raws := (rawRecords {} bytes).1
    let evaluator : Evaluator := {}
    raws[1]? = some ⟨[0xFF], [[0xFF]]⟩ ∧
      (∀ earlier ∈ raws.take 1, ∀ field ∈ earlier.fields, IsText field) ∧ ¬IsText [0xFF] ∧
      (∀ error, (evaluator.evaluate (.ok bytes) {}).result ≠ .error (.undecodable error)) ∧
      ∀ statistics, (evaluator.evaluate (.ok (readBefore raws 1)) {}).result ≠ .ok statistics := by
  have far : maxIndex < UInt32.size := by decide
  generalize UInt32.size = count at far
  intro bytes raws evaluator
  have scanned := rawRecords_farRecord count (by omega)
  have raws_eq : raws =
      [⟨List.replicate count lineFeed ++ [120, lineFeed], [[120]]⟩, ⟨[0xFF], [[0xFF]]⟩] :=
    congrArg Prod.fst scanned
  have cut : rawRecords {} (readBefore raws 1) =
      ([⟨List.replicate count lineFeed ++ [120, lineFeed], [[120]]⟩], []) := by
    rw [rawRecords_readBefore {} bytes 1, scanned]
    rfl
  have decoded : decodeFields 0 [[120]] = .ok ["x"] := rfl
  obtain ⟨_, wholeStopped⟩ := evaluator.evaluate_behindFeeds far scanned rfl decoded
  obtain ⟨_, shortStopped⟩ := evaluator.evaluate_behindFeeds far cut rfl decoded
  refine ⟨by rw [raws_eq]; rfl, ?_, not_isText_broken, ?_, ?_⟩
  · rw [raws_eq]
    simp only [List.take_succ_cons, List.take_zero, List.forall_mem_cons, List.not_mem_nil,
      false_implies, implies_true, and_true]
    exact ⟨"x", rfl⟩
  · intro error undecoded
    simp [wholeStopped, bytes] at undecoded
  · intro statistics finished
    simp [shortStopped] at finished

end PostfixSheet
