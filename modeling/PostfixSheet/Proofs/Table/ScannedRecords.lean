import PostfixSheet.Table.Scanning

/-! The records that a scanner cuts out of a document: their sources lie side by side, each has a byte
that is no line break, and each but the last one of a document ends in a line break. -/

namespace PostfixSheet

theorem scan_cases (dialect : Dialect) (state : ScanState) (byte : UInt8) :
    (state = .recordStart ∧ isLineBreak byte = true ∧
        dialect.scan state byte = (.recordStart, .drop)) ∨
      (state ≠ .recordStart ∧ isLineBreak byte = true ∧
        dialect.scan state byte = (.recordStart, .endRecord)) ∨
      ((state = .recordStart → isLineBreak byte = false) ∧
        (dialect.scan state byte).1 ≠ .recordStart ∧
        (dialect.scan state byte).2 ≠ .endRecord) := by
  have unquoted : (isLineBreak byte = true ∧ dialect.scanUnquoted byte = (.recordStart, .endRecord)) ∨
      ((dialect.scanUnquoted byte).1 ≠ .recordStart ∧
        (dialect.scanUnquoted byte).2 ≠ .endRecord) := by
    simp only [Dialect.scanUnquoted]
    split
    · simp
    · split
      · rename_i isBreak
        exact Or.inl ⟨isBreak, rfl⟩
      · simp
  have fieldStart :
      (isLineBreak byte = true ∧ dialect.scanFieldStart byte = (.recordStart, .endRecord)) ∨
      ((dialect.scanFieldStart byte).1 ≠ .recordStart ∧
        (dialect.scanFieldStart byte).2 ≠ .endRecord) := by
    simp only [Dialect.scanFieldStart]
    split
    · simp
    · exact unquoted
  cases state with
  | recordStart =>
      rw [Dialect.scan]
      split
      · rename_i isBreak
        exact Or.inl ⟨rfl, isBreak, rfl⟩
      · rename_i inside
        have notBreak : isLineBreak byte = false := by simpa using inside
        rcases fieldStart with ended | read
        · rw [notBreak] at ended
          simp at ended
        · exact Or.inr (Or.inr ⟨fun _ => notBreak, read⟩)
  | fieldStart => simpa [Dialect.scan] using fieldStart
  | unquoted => simpa [Dialect.scan] using unquoted
  | quoted =>
      simp only [Dialect.scan]
      split
      · simp
      · split <;> simp
  | escaped => simp [Dialect.scan]
  | afterQuote =>
      simp only [Dialect.scan]
      split
      · simp
      · simpa using unquoted

namespace OpenRecord

def sip (record : OpenRecord) (byte : UInt8) : OpenRecord :=
  { record with source := byte :: record.source }

def absorb (record : OpenRecord) (byte : UInt8) (step : ScanState × ScanEffect) : OpenRecord where
  state := step.1
  source := byte :: record.source
  field := match step.2 with
    | .keep => byte :: record.field
    | .endField => []
    | _ => record.field
  fields := match step.2 with
    | .endField => record.field.reverse :: record.fields
    | _ => record.fields

def Begun (record : OpenRecord) : Prop :=
  record.state ≠ .recordStart → ∃ byte ∈ record.source, isLineBreak byte = false

theorem absorb_begun (record : OpenRecord) (byte : UInt8) (step : ScanState × ScanEffect)
    (begun : record.Begun) (content : record.state = .recordStart → isLineBreak byte = false) :
    ∃ read ∈ (record.absorb byte step).source, isLineBreak read = false := by
  by_cases atStart : record.state = .recordStart
  · exact ⟨byte, by simp [absorb], content atStart⟩
  · obtain ⟨earlier, member, inside⟩ := begun atStart
    exact ⟨earlier, by simp [absorb, member], inside⟩

end OpenRecord

section Steps

variable (dialect : Dialect) (record : OpenRecord) (byte : UInt8) (rest : List UInt8)

theorem scanRecords_skip (skipped : dialect.scan record.state byte = (.recordStart, .drop))
    (atStart : record.state = .recordStart) :
    scanRecords dialect record (byte :: rest) = scanRecords dialect (record.sip byte) rest := by
  rw [scanRecords]
  simp only [skipped]
  simp only [OpenRecord.sip, atStart]

theorem scanRecords_finish (ended : dialect.scan record.state byte = (.recordStart, .endRecord)) :
    scanRecords dialect record (byte :: rest) =
      ((record.sip byte).close :: (scanRecords dialect {} rest).1,
        (scanRecords dialect {} rest).2) := by
  rw [scanRecords]
  simp only [ended, OpenRecord.sip]

theorem scanRecords_absorb (read : (dialect.scan record.state byte).2 ≠ .endRecord) :
    scanRecords dialect record (byte :: rest) =
      scanRecords dialect (record.absorb byte (dialect.scan record.state byte)) rest := by
  rw [scanRecords]
  cases step : dialect.scan record.state byte with
  | mk state effect =>
      cases effect with
      | endRecord => simp [step] at read
      | drop => rfl
      | keep => rfl
      | endField => rfl

end Steps

theorem scanRecords_sources (dialect : Dialect) (record : OpenRecord) (bytes : List UInt8) :
    (scanRecords dialect record bytes).1.flatMap RawRecord.source ++
        (scanRecords dialect record bytes).2 = record.source.reverse ++ bytes := by
  induction bytes generalizing record with
  | nil =>
      simp only [scanRecords]
      split
      · simp
      · simp [OpenRecord.close]
  | cons byte rest ih =>
      rcases scan_cases dialect record.state byte with
        ⟨atStart, _, skipped⟩ | ⟨_, _, ended⟩ | ⟨_, _, read⟩
      · rw [scanRecords_skip dialect record byte rest skipped atStart, ih]
        simp [OpenRecord.sip]
      · have later := ih {}
        rw [scanRecords_finish dialect record byte rest ended]
        simp only [List.flatMap_cons, List.append_assoc]
        rw [later]
        simp [OpenRecord.close, OpenRecord.sip]
      · rw [scanRecords_absorb dialect record byte rest read, ih]
        simp [OpenRecord.absorb]

theorem scanRecords_forall (dialect : Dialect) (reading : OpenRecord → Prop)
    (found : RawRecord → Prop) (fresh : reading {})
    (sip : ∀ record byte, reading record → record.state = .recordStart → reading (record.sip byte))
    (absorb : ∀ record byte, reading record →
      (record.state = .recordStart → isLineBreak byte = false) →
        reading (record.absorb byte (dialect.scan record.state byte)))
    (close : ∀ record, reading record → record.state ≠ .recordStart →
      found record.close ∧ ∀ byte, found (record.sip byte).close)
    (record : OpenRecord) (begun : reading record) (bytes : List UInt8) :
    ∀ raw ∈ (scanRecords dialect record bytes).1, found raw := by
  induction bytes generalizing record with
  | nil =>
      intro raw member
      simp only [scanRecords] at member
      split at member
      · simp at member
      · rename_i inside
        rw [List.mem_singleton.mp member]
        exact (close record begun inside).1
  | cons byte rest ih =>
      rcases scan_cases dialect record.state byte with
        ⟨atStart, _, skipped⟩ | ⟨inside, _, ended⟩ | ⟨content, _, read⟩
      · rw [scanRecords_skip dialect record byte rest skipped atStart]
        exact ih _ (sip record byte begun atStart)
      · rw [scanRecords_finish dialect record byte rest ended, List.forall_mem_cons]
        exact ⟨(close record begun inside).2 byte, ih {} fresh⟩
      · rw [scanRecords_absorb dialect record byte rest read]
        exact ih _ (absorb record byte begun content)

theorem start_begun : ({} : OpenRecord).Begun := by
  intro begun
  contradiction

theorem scanRecords_content (dialect : Dialect) (record : OpenRecord) (begun : record.Begun)
    (bytes : List UInt8) :
    ∀ raw ∈ (scanRecords dialect record bytes).1, ∃ byte ∈ raw.source, isLineBreak byte = false := by
  refine scanRecords_forall dialect OpenRecord.Begun _ start_begun ?_ ?_ ?_ record begun bytes
  · exact fun record byte _ atStart later => (later atStart).elim
  · exact fun record byte begun content _ => record.absorb_begun byte _ begun content
  · intro record begun inside
    obtain ⟨earlier, belongs, content⟩ := begun inside
    exact ⟨⟨earlier, by simpa [OpenRecord.close] using belongs, content⟩,
      fun byte => ⟨earlier, by simp [OpenRecord.close, OpenRecord.sip, belongs], content⟩⟩

theorem scanRecords_ends (dialect : Dialect) (record : OpenRecord) (bytes : List UInt8)
    (before after : List RawRecord) (raw : RawRecord)
    (found : (scanRecords dialect record bytes).1 = before ++ raw :: after) :
    (∃ last, raw.source.getLast? = some last ∧ isLineBreak last = true) ∨
      after = [] ∧ (scanRecords dialect record bytes).2 = [] := by
  induction bytes generalizing record before with
  | nil =>
      simp only [scanRecords] at found ⊢
      split at found
      · simp at found
      · rename_i inside
        have behind : after = [] := by
          cases before with
          | nil =>
              simp only [List.nil_append, List.cons.injEq] at found
              exact found.2.symm
          | cons first more => simp at found
        exact Or.inr ⟨behind, by simp [inside]⟩
  | cons byte rest ih =>
      rcases scan_cases dialect record.state byte with
        ⟨atStart, _, skipped⟩ | ⟨_, isBreak, ended⟩ | ⟨_, _, read⟩
      · rw [scanRecords_skip dialect record byte rest skipped atStart] at found ⊢
        exact ih (record.sip byte) before found
      · rw [scanRecords_finish dialect record byte rest ended] at found ⊢
        cases before with
        | nil =>
            simp only [List.nil_append, List.cons.injEq] at found
            refine Or.inl ⟨byte, ?_, isBreak⟩
            simp [← found.1, OpenRecord.close, OpenRecord.sip]
        | cons first more =>
            simp only [List.cons_append, List.cons.injEq] at found
            exact ih {} more found.2
      · rw [scanRecords_absorb dialect record byte rest read] at found ⊢
        exact ih _ before found

theorem scanRecords_tail (dialect : Dialect) (record : OpenRecord) (bytes : List UInt8)
    (blank : ∀ byte ∈ record.source, record.state = .recordStart → isLineBreak byte = true) :
    ∀ byte ∈ (scanRecords dialect record bytes).2, isLineBreak byte = true := by
  induction bytes generalizing record with
  | nil =>
      intro byte member
      simp only [scanRecords] at member
      split at member
      · rename_i atStart
        exact blank byte (by simpa using member) atStart
      · simp at member
  | cons byte rest ih =>
      rcases scan_cases dialect record.state byte with
        ⟨atStart, isBreak, skipped⟩ | ⟨_, _, ended⟩ | ⟨_, inside, read⟩
      · rw [scanRecords_skip dialect record byte rest skipped atStart]
        apply ih
        intro earlier member _
        rcases List.mem_cons.mp member with same | older
        · subst earlier
          exact isBreak
        · exact blank earlier older atStart
      · rw [scanRecords_finish dialect record byte rest ended]
        exact ih {} (by simp)
      · rw [scanRecords_absorb dialect record byte rest read]
        exact ih _ fun _ _ atStart => (inside atStart).elim

def RawRecord.behind (skipped : List UInt8) (raw : RawRecord) : RawRecord :=
  { raw with source := skipped ++ raw.source }

theorem scanRecords_behind (dialect : Dialect) (record : OpenRecord) (skipped bytes : List UInt8) :
    scanRecords dialect { record with source := record.source ++ skipped.reverse } bytes =
      ((scanRecords dialect record bytes).1.modifyHead (.behind skipped),
        if (scanRecords dialect record bytes).1 = [] then
          skipped ++ (scanRecords dialect record bytes).2
        else (scanRecords dialect record bytes).2) := by
  induction bytes generalizing record with
  | nil =>
      simp only [scanRecords]
      split
      · simp
      · simp [OpenRecord.close, RawRecord.behind]
  | cons byte rest ih =>
      rcases scan_cases dialect record.state byte with
        ⟨atStart, _, skip⟩ | ⟨_, _, ended⟩ | ⟨_, _, read⟩
      · rw [scanRecords_skip dialect record byte rest skip atStart, ← ih (record.sip byte)]
        exact scanRecords_skip dialect _ byte rest skip atStart
      · rw [scanRecords_finish dialect record byte rest ended]
        refine (scanRecords_finish dialect
          { record with source := record.source ++ skipped.reverse } byte rest ended).trans ?_
        simp [OpenRecord.close, OpenRecord.sip, RawRecord.behind]
      · rw [scanRecords_absorb dialect record byte rest read, ← ih]
        exact scanRecords_absorb dialect _ byte rest read

end PostfixSheet
