import PostfixSheet.Proofs.Table.ReplacedFields

/-! What reaches a sink: every write is one row of the table, and a sink that runs out of room keeps a whole
number of rows. -/

namespace PostfixSheet

theorem writes_blankLines (dialect : Dialect) (count : Nat) (result : Except Fault Statistics) :
    (Run.mk (blankLines dialect count) result).writes =
      (List.replicate count []).map dialect.encodeRow := by
  rw [Run.writes, filterMap_blankLines, List.map_replicate]
  rfl

theorem addCell_rows (statistics : Statistics) (cells : List Cell) :
    (cells.foldl Statistics.addCell statistics).rows = statistics.rows := by
  induction cells generalizing statistics with
  | nil => rfl
  | cons cell rest ih =>
      rw [List.foldl_cons, ih, Statistics.addCell]
      cases cell.result <;> rfl

namespace Evaluator

variable (evaluator : Evaluator)

theorem cells_length (row : UInt32) (column : Nat) (bindings : Bindings) (texts : List String) :
    (evaluator.cells row column bindings texts).1.length = texts.length := by
  induction texts generalizing column bindings with
  | nil => rfl
  | cons text rest ih => simp only [cells, List.length_cons, ih]

theorem runFrom_rows (ending : Except UndecodableField Nat) (bindings : Bindings)
    (statistics : Statistics) (records : List Record)
    (visible : ∀ record ∈ records, record.fields ≠ []) :
    ∃ rows : List (List String), (evaluator.runFrom ending bindings statistics records).writes =
      rows.map evaluator.settings.encodeRow := by
  induction records generalizing bindings statistics with
  | nil =>
      cases ending with
      | error field => exact ⟨[], rfl⟩
      | ok trailing => exact ⟨_, writes_blankLines _ trailing _⟩
  | cons record rest ih =>
      rcases evaluator.runFrom_cons ending bindings statistics record rest with
        ⟨_, stopped⟩ | ⟨_, stopped⟩ | ⟨_, _, cells, next, computed, continued⟩
      · rw [stopped]
        exact ⟨_, writes_blankLines _ record.blankBefore _⟩
      · rw [stopped]
        refine ⟨_, Eq.trans ?_ (writes_blankLines _ record.blankBefore (.ok {}))⟩
        simp only [Run.writes, List.filterMap_append, filterMap_reports, List.append_nil]
      · obtain ⟨rows, written⟩ := ih next _ fun other member => visible other (by simp [member])
        have shown : cells.map (Cell.output evaluator.settings) ≠ [] := by
          intro empty
          have lengths := evaluator.cells_length (UInt32.ofNat (record.line - 1)) 0 bindings
            record.fields
          rw [computed, List.map_eq_nil_iff.mp empty] at lengths
          exact visible record (by simp) (List.length_eq_zero_iff.mp lengths.symm)
        refine ⟨List.replicate record.blankBefore [] ++
          cells.map (Cell.output evaluator.settings) :: rows, ?_⟩
        have blanks := writes_blankLines evaluator.settings.toDialect record.blankBefore (.ok {})
        rw [continued]
        simp only [Run.writes, Run.after, List.filterMap_append, filterMap_reports] at written blanks ⊢
        rw [blanks, written, List.map_append, List.map_cons, Dialect.encodeRow_visible _ _ shown]
        simp [Action.write?]

theorem runFrom_rows_length (ending : Except UndecodableField Nat) (bindings : Bindings)
    (statistics final : Statistics) (records : List Record)
    (finished : (evaluator.runFrom ending bindings statistics records).result = .ok final) :
    final.rows = statistics.rows +
      (evaluator.runFrom ending bindings statistics records).writes.length := by
  induction records generalizing bindings statistics with
  | nil =>
      cases ending with
      | error field => simp [runFrom] at finished
      | ok trailing =>
          simp only [runFrom, Except.ok.injEq, writes_blankLines] at finished ⊢
          simp [← finished, Statistics.addRows]
  | cons record rest ih =>
      obtain ⟨_, _, cells, next, _, continued, written⟩ :=
        evaluator.runFrom_cons_ok ending bindings statistics final record rest finished
      rw [ih next _ continued, written]
      simp only [Statistics.addRows, addCell_rows, List.length_append, List.length_replicate,
        List.length_cons]
      omega

theorem evaluate_unlimited (bytes : List UInt8) :
    (evaluator.evaluate (.ok bytes) {}).written = (evaluator.run bytes).writes ∧
      (evaluator.evaluate (.ok bytes) {}).result = (evaluator.run bytes).result := by
  obtain ⟨written, ended⟩ := deliverFrom_unlimited {} rfl (evaluator.run bytes).result 0
    (evaluator.run bytes).actions
  refine ⟨written, ended.trans ?_⟩
  cases (evaluator.run bytes).result <;> rfl

theorem evaluate_unflushed (bytes : List UInt8) (text : String) :
    let flushed := evaluator.evaluate (.ok bytes) { flushFailure := some text }
    flushed.written = (evaluator.run bytes).writes ∧
      flushed.result = match (evaluator.run bytes).result with
        | .ok _ => .error (.io text)
        | .error fault => .error fault := by
  obtain ⟨written, ended⟩ := deliverFrom_unlimited { flushFailure := some text } rfl
    (evaluator.run bytes).result 0 (evaluator.run bytes).actions
  refine ⟨written, ended.trans ?_⟩
  cases (evaluator.run bytes).result <;> rfl

end Evaluator

theorem sum_take_le_iff (writes : List (List UInt8)) (kept room : Nat)
    (within : (writes.take kept).flatten.length ≤ room)
    (full : kept < writes.length → room < (writes.take (kept + 1)).flatten.length)
    (count : Nat) (bound : count ≤ writes.length) :
    ((writes.take count).map List.length).sum ≤ room ↔ count ≤ kept := by
  have grows (first second : Nat) (ordered : first ≤ second) :
      (writes.take first).flatten.length ≤ (writes.take second).flatten.length := by
    obtain ⟨between, split⟩ : writes.take first <+: writes.take second :=
      List.take_prefix_take_left ordered
    rw [← split, List.flatten_append, List.length_append]
    exact Nat.le_add_right _ _
  rw [← List.length_flatten]
  constructor
  · intro fits
    by_contra beyond
    have reached := grows (kept + 1) count (by omega)
    have exceeded := full (by omega)
    omega
  · intro ordered
    exact Nat.le_trans (grows count kept ordered) within

/-- A sink that runs out of room has kept the first rows of the table, as many as fit, each of them whole.
It has kept all of them when only the last flush fails, and none when there is nothing to read. -/
theorem evaluate_limited (evaluator : Evaluator) (bytes : List UInt8) (room : Nat)
    (refusal : String) :
    let whole := evaluator.evaluate (.ok bytes) {}
    let limited := evaluator.evaluate (.ok bytes) { room := some room, refusal }
    (∃ rows : List (List String), whole.written = rows.map evaluator.settings.encodeRow) ∧
    (∀ statistics, whole.result = .ok statistics → whole.written.length = statistics.rows) ∧
    (∃ kept ≤ whole.written.length,
      (∀ count ≤ whole.written.length,
        ((whole.written.take count).map List.length).sum ≤ room ↔ count ≤ kept) ∧
      limited.written = whole.written.take kept ∧
      limited.result =
        if kept < whole.written.length then .error (.io refusal) else whole.result) ∧
    (∀ text sink, evaluator.evaluate (.error text) sink = ⟨[], [], .error (.io text)⟩) ∧
    ∀ text, let flushed := evaluator.evaluate (.ok bytes) { flushFailure := some text }
      flushed.written = whole.written ∧
        flushed.result = match whole.result with
          | .ok _ => .error (.io text)
          | .error fault => .error fault := by
  obtain ⟨written, ended⟩ := evaluator.evaluate_unlimited bytes
  simp only [written, ended]
  refine ⟨?_, ?_, ?_, fun _ _ => rfl, evaluator.evaluate_unflushed bytes⟩
  · exact evaluator.runFrom_rows _ _ _ _ (document_visible evaluator.settings.toDialect bytes)
  · intro statistics finished
    rw [evaluator.runFrom_rows_length _ _ _ statistics _ finished]
    exact (Nat.zero_add _).symm
  · obtain ⟨kept, bound, within, full, keptWrites, stopped⟩ := deliverFrom_limited room refusal
      (evaluator.run bytes).result 0 (evaluator.run bytes).actions (Nat.zero_le room)
    simp only [Nat.zero_add] at within full
    exact ⟨kept, bound, sum_take_le_iff _ kept room within full, keptWrites, stopped⟩

def shortSheet : List UInt8 :=
  encodeText "=A9,x\n\ny"

theorem evaluate_limited_shortSheet :
    let whole := (Evaluator.mk {} .empty).evaluate (.ok shortSheet) {}
    let limited := (Evaluator.mk {} .empty).evaluate (.ok shortSheet) { room := some 9, refusal := "full" }
    whole.result = .ok ⟨3, 3, 1, 0, 1⟩ ∧
      whole.written = [encodeText "#N/A,x\n", [lineFeed], encodeText "y\n"] ∧
      limited.written = [encodeText "#N/A,x\n", [lineFeed]] ∧
      limited.result = .error (.io "full") := by
  have succeeded : ((Evaluator.mk {} .empty).evaluate (.ok shortSheet) {}).result =
      .ok ⟨3, 3, 1, 0, 1⟩ := eq_ok_of_toOption _ _ (by decide +kernel)
  have written : ((Evaluator.mk {} .empty).evaluate (.ok shortSheet) {}).written =
      [encodeText "#N/A,x\n", [lineFeed], encodeText "y\n"] := by decide +kernel
  obtain ⟨_, counted, ⟨kept, bound, fits, keptRows, ended⟩, _⟩ :=
    evaluate_limited (.mk {} .empty) shortSheet 9 "full"
  have size : ((Evaluator.mk {} .empty).evaluate (.ok shortSheet) {}).written.length = 3 :=
    counted _ succeeded
  have two := (fits 2 (by omega)).mp (by rw [written]; decide +kernel)
  have three := (fits 3 (by omega)).not.mp (by rw [written]; decide +kernel)
  obtain rfl : kept = 2 := by omega
  refine ⟨succeeded, written, ?_, ?_⟩
  · rw [keptRows, written]
    rfl
  · rw [ended, if_pos (by omega)]

end PostfixSheet
