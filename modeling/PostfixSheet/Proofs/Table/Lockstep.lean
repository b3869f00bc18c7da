import PostfixSheet.Proofs.Table.AddressRange
import PostfixSheet.Proofs.Table.Dependence

/-! Runs in lockstep. Records of one shape stop two runs at the same place or are written by both, so
runs are compared record by record. -/

namespace PostfixSheet

theorem reports_congr {cells others : List Cell}
    (events : cells.map Cell.event? = others.map Cell.event?) : reports cells = reports others := by
  have reported (cells : List Cell) : reports cells =
      ((cells.map Cell.event?).filterMap id).map .report := by
    rw [reports, List.filterMap_map]
    rfl
  rw [reported, reported, events]

namespace Evaluator

variable (evaluator : Evaluator)

theorem cells_take (row : UInt32) (column : Nat) (bindings : Bindings) (texts : List String)
    (count : Nat) :
    (evaluator.cells row column bindings (texts.take count)).1 =
      (evaluator.cells row column bindings texts).1.take count := by
  induction texts generalizing column bindings count with
  | nil => simp [cells]
  | cons text rest ih =>
      cases count with
      | zero => rfl
      | succ count => simp only [List.take_succ_cons, cells, ih]

/-- One record in lockstep. Runs that report the same of it are related if they are so when they stop
there, and when they have written it and go on. -/
theorem runFrom_cons_lockstep {related : Run → Run → Prop}
    {ending otherEnding : Except UndecodableField Nat} {bindings otherBindings : Bindings}
    {statistics otherStatistics : Statistics} {record other : Record} {rest more : List Record}
    {cells others : List Cell} {next otherNext : Bindings} (same : record.shape = other.shape)
    (evaluated : evaluator.cells (UInt32.ofNat (record.line - 1)) 0 bindings record.fields = (cells, next))
    (otherEvaluated : evaluator.cells (UInt32.ofNat (record.line - 1)) 0 otherBindings other.fields =
      (others, otherNext))
    (events : cells.map Cell.event? = others.map Cell.event?)
    (stopped : ¬record.InRange →
      ∀ actions fault, related ⟨actions, .error fault⟩ ⟨actions, .error fault⟩)
    (continued : record.InRange →
      let front := blankLines evaluator.settings.toDialect record.blankBefore ++ reports cells
      let line := evaluator.settings.encodeRecord (cells.map (Cell.output evaluator.settings))
      let otherLine := evaluator.settings.encodeRecord (others.map (Cell.output evaluator.settings))
      let counted := (cells.foldl Statistics.addCell statistics).addRows (record.blankBefore + 1)
      let otherCounted :=
        (others.foldl Statistics.addCell otherStatistics).addRows (record.blankBefore + 1)
      related ((evaluator.runFrom ending next counted rest).after (front ++ [.write line]))
        ((evaluator.runFrom otherEnding otherNext otherCounted more).after
          (front ++ [.write otherLine]))) :
    related (evaluator.runFrom ending bindings statistics (record :: rest))
      (evaluator.runFrom otherEnding otherBindings otherStatistics (other :: more)) := by
  simp only [Record.shape, Prod.mk.injEq] at same
  obtain ⟨line, blanks, lengths⟩ := same
  simp only [runFrom, ← line, ← blanks, ← lengths]
  by_cases far : maxIndex < record.line - 1
  · rw [if_pos far, if_pos far]
    apply stopped
    rintro ⟨near, _⟩
    omega
  · rw [if_neg far, if_neg far]
    by_cases wide : maxIndex + 1 < record.fields.length
    · have taken := congrArg (List.take (maxIndex + 1)) events
      rw [← List.map_take, ← List.map_take] at taken
      rw [if_pos wide, if_pos wide, cells_take, cells_take, evaluated, otherEvaluated,
        reports_congr taken]
      apply stopped
      rintro ⟨_, narrow⟩
      omega
    · have all : record.fields.take (maxIndex + 1) = record.fields :=
        List.take_of_length_le (by omega)
      have otherAll : other.fields.take (maxIndex + 1) = other.fields :=
        List.take_of_length_le (by omega)
      rw [if_neg wide, if_neg wide, all, otherAll, evaluated, otherEvaluated, ← reports_congr events]
      exact continued ⟨by omega, by omega⟩

end Evaluator

end PostfixSheet
