import PostfixSheet.Proofs.Text.Utf8Canonical
import PostfixSheet.Table.Sink

/-! What a sink makes of a run: a delivery that succeeds has kept every write of a run that succeeds, and
one that runs out of room has kept the writes that fit. -/

namespace PostfixSheet

theorem deliverFrom_ok (sink : Sink) (result : Except Fault Statistics) (used : Nat)
    (actions : List Action) (statistics : Statistics)
    (delivered : (sink.deliverFrom result used actions).result = .ok statistics) :
    result = .ok statistics ∧
      (sink.deliverFrom result used actions).written = actions.filterMap Action.write? := by
  induction actions generalizing used with
  | nil =>
      simp only [Sink.deliverFrom] at delivered ⊢
      split at delivered
      · simp at delivered
      · exact ⟨delivered, rfl⟩
  | cons action rest ih =>
      cases action with
      | report event =>
          simp only [Sink.deliverFrom] at delivered ⊢
          exact ih used delivered
      | write bytes =>
          simp only [Sink.deliverFrom] at delivered ⊢
          split at delivered
          · rename_i accepted
            obtain ⟨same, kept⟩ := ih (used + bytes.length) delivered
            refine ⟨same, ?_⟩
            simp only [accepted, if_true, kept]
            rfl
          · simp at delivered

theorem deliverFrom_unlimited (sink : Sink) (unlimited : sink.room = none)
    (result : Except Fault Statistics) (used : Nat) (actions : List Action) :
    (sink.deliverFrom result used actions).written = actions.filterMap Action.write? ∧
      (sink.deliverFrom result used actions).result =
        (sink.deliverFrom result used []).result := by
  induction actions generalizing used with
  | nil =>
      simp only [Sink.deliverFrom]
      split <;> exact ⟨rfl, trivial⟩
  | cons action rest ih =>
      cases action with
      | report event => exact ih used
      | write bytes =>
          obtain ⟨written, ended⟩ := ih (used + bytes.length)
          simp only [Sink.deliverFrom, Sink.accepts, unlimited, if_true, written, ended]
          exact ⟨rfl, trivial⟩

theorem deliverFrom_limited (room : Nat) (refusal : String) (result : Except Fault Statistics)
    (used : Nat) (actions : List Action) (begun : used ≤ room) :
    let writes := actions.filterMap Action.write?
    let delivered := Sink.deliverFrom { room := some room, refusal } result used actions
    ∃ kept, kept ≤ writes.length ∧
      used + (writes.take kept).flatten.length ≤ room ∧
      (kept < writes.length → room < used + (writes.take (kept + 1)).flatten.length) ∧
      delivered.written = writes.take kept ∧
      delivered.result = if kept < writes.length then .error (.io refusal) else result := by
  induction actions generalizing used with
  | nil => exact ⟨0, by simpa [Sink.deliverFrom] using begun⟩
  | cons action rest ih =>
      cases action with
      | report event => exact ih used begun
      | write bytes =>
          simp only [Sink.deliverFrom, Sink.accepts, List.filterMap_cons, Action.write?,
            decide_eq_true_eq]
          by_cases fits : used + bytes.length ≤ room
          · obtain ⟨kept, bound, within, full, written, ended⟩ := ih (used + bytes.length) fits
            refine ⟨kept + 1, ?_⟩
            simp only [List.length_cons, List.take_succ_cons, List.flatten_cons, List.length_append,
              Nat.add_lt_add_iff_right, Nat.add_le_add_iff_right, fits, if_true, written, ended,
              ← Nat.add_assoc]
            exact ⟨bound, within, full, trivial, trivial⟩
          · refine ⟨0, Nat.zero_le _, begun, ?_, ?_, ?_⟩
            · intro _
              simp only [Nat.zero_add, List.take_succ_cons, List.take_zero, List.flatten_cons,
                List.flatten_nil, List.append_nil]
              omega
            · simp [fits]
            · simp [fits]

theorem deliverFrom_congr (sink : Sink) (change : Statistics → Statistics)
    (result other : Except Fault Statistics)
    (related : result.toOption = other.toOption.map change) (used : Nat) (actions : List Action) :
    let delivered := sink.deliverFrom result used actions
    let otherDelivered := sink.deliverFrom other used actions
    delivered.written = otherDelivered.written ∧ delivered.events = otherDelivered.events ∧
      delivered.result.toOption = otherDelivered.result.toOption.map change := by
  induction actions generalizing used with
  | nil =>
      simp only [Sink.deliverFrom]
      cases result <;> cases other <;> cases sink.flushFailure <;> simp_all [Except.toOption]
  | cons action rest ih =>
      cases action with
      | report event =>
          obtain ⟨written, events, results⟩ := ih used
          exact ⟨written, congrArg (event :: ·) events, results⟩
      | write bytes =>
          obtain ⟨written, events, results⟩ := ih (used + bytes.length)
          simp only [Sink.deliverFrom]
          split
          · exact ⟨congrArg (bytes :: ·) written, events, results⟩
          · exact ⟨rfl, rfl, rfl⟩

theorem evaluate_ok (evaluator : Evaluator) (source : Except String (List UInt8)) (sink : Sink)
    (statistics : Statistics)
    (delivered : (evaluator.evaluate source sink).result = .ok statistics) :
    ∃ bytes, source = .ok bytes ∧ (evaluator.run bytes).result = .ok statistics ∧
      (evaluator.evaluate source sink).written = (evaluator.run bytes).writes := by
  cases source with
  | error text => simp [Evaluator.evaluate] at delivered
  | ok bytes =>
      obtain ⟨result, kept⟩ := deliverFrom_ok sink _ 0 _ statistics delivered
      exact ⟨bytes, rfl, result, kept⟩

theorem Evaluator.evaluateText_eq_ok_iff (evaluator : Evaluator) (text output : String) :
    evaluator.evaluateText text = .ok output ↔
      (∃ statistics, (evaluator.run (encodeText text)).result = .ok statistics) ∧
        (evaluator.run (encodeText text)).output = encodeText output := by
  simp only [evaluateText]
  cases (evaluator.run (encodeText text)).result with
  | error fault => simp
  | ok statistics =>
      constructor
      · intro evaluated
        simp only at evaluated
        split at evaluated
        · rename_i decoded accepted
          simp only [Except.ok.injEq] at evaluated
          rw [← evaluated]
          exact ⟨⟨statistics, rfl⟩, (encodeText_of_decodeText _ _ accepted).symm⟩
        · simp at evaluated
      · rintro ⟨_, same⟩
        simp [same, decodeText_encodeText]

end PostfixSheet
