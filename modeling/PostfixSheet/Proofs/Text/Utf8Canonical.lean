import PostfixSheet.Proofs.Text.Utf8RoundTrip

/-! Bytes that decode are the bytes of the text that they decode to, so that no text has two forms. -/

namespace PostfixSheet

theorem openChar?_cases (lead : Nat) (character : OpenChar)
    (found : openChar? lead = some character) :
    (0xC2 ≤ lead ∧ lead < 0xE0 ∧ character = ⟨lead - 0xC0, 1, 1, 0x80, 0xBF⟩) ∨
      (∃ lowest highest, 0xE0 ≤ lead ∧ lead < 0xF0 ∧
        character = ⟨lead - 0xE0, 1, 2, lowest, highest⟩ ∧ 0x80 ≤ lowest ∧ highest ≤ 0xBF ∧
        (lead = 0xE0 → 0xA0 ≤ lowest) ∧ (lead = 0xED → highest ≤ 0x9F)) ∨
      (∃ lowest highest, 0xF0 ≤ lead ∧ lead < 0xF5 ∧
        character = ⟨lead - 0xF0, 1, 3, lowest, highest⟩ ∧ 0x80 ≤ lowest ∧ highest ≤ 0xBF ∧
        (lead = 0xF0 → 0x90 ≤ lowest) ∧ (lead = 0xF4 → highest ≤ 0x8F)) := by
  have lower := openChar?_le lead character found
  by_cases two : lead < 0xE0
  · rw [openChar?_two lead lower two, Option.some.injEq] at found
    exact Or.inl ⟨lower, two, found.symm⟩
  · by_cases three : lead < 0xF0
    · refine Or.inr (Or.inl ?_)
      simp only [openChar?] at found
      rw [if_neg (by omega), if_neg two] at found
      split at found
      · exact ⟨0xA0, 0xBF, by omega, three, by simp_all, by omega⟩
      · split at found
        · exact ⟨0x80, 0x9F, by omega, three, by simp_all, by omega⟩
        · rw [Option.some.injEq] at found
          exact ⟨0x80, 0xBF, by omega, three, found.symm, by omega⟩
    · refine Or.inr (Or.inr ?_)
      simp only [openChar?] at found
      rw [if_neg (by omega), if_neg two, if_neg (by omega), if_neg (by omega), if_neg three] at found
      split at found
      · exact ⟨0x90, 0xBF, by omega, by omega, by simp_all, by omega⟩
      · split at found
        · rw [Option.some.injEq] at found
          exact ⟨0x80, 0xBF, by omega, by omega, found.symm, by omega⟩
        · split at found
          · exact ⟨0x80, 0x8F, by omega, by omega, by simp_all, by omega⟩
          · simp at found

theorem decodeFrom_open (decoded : List Char) (start : Nat) (character : OpenChar)
    (bytes : List UInt8) (characters : List Char)
    (accepted : decodeFrom decoded start (some character) bytes = .ok characters) :
    ∃ byte rest, bytes = byte :: rest ∧
      character.lowest ≤ byte.toNat ∧ byte.toNat ≤ character.highest ∧
      (if character.missing ≤ 1 then
        decodeFrom (Char.ofNat (character.value * 64 + (byte.toNat - 0x80)) :: decoded)
          (start + (character.length + 1)) none rest
      else
        decodeFrom decoded start
          (some ⟨character.value * 64 + (byte.toNat - 0x80), character.length + 1,
            character.missing - 1, 0x80, 0xBF⟩) rest) = .ok characters := by
  cases bytes with
  | nil => simp [decodeFrom] at accepted
  | cons byte rest =>
      simp only [decodeFrom] at accepted
      split at accepted
      · rename_i bounds
        exact ⟨byte, rest, rfl, bounds.1, bounds.2, accepted⟩
      · simp at accepted

theorem ofNat_eq (byte : UInt8) (value : Nat) (same : value = byte.toNat) :
    UInt8.ofNat value = byte := by
  rw [same, UInt8.ofNat_toNat]

theorem val_ofNat (value : Nat) (valid : value.isValidChar) :
    (Char.ofNat value).val.toNat = value := by
  rw [Char.ofNat, dif_pos valid]
  rfl

section Encoding

variable (lead second third fourth : UInt8)

theorem utf8EncodeChar_one (small : lead.toNat < 0x80) :
    String.utf8EncodeChar (Char.ofNat lead.toNat) = [lead] := by
  have value := val_ofNat lead.toNat (Or.inl (by omega))
  simp only [String.utf8EncodeChar, value]
  rw [if_pos (by omega), ofNat_eq lead _ rfl]

theorem utf8EncodeChar_two (lower : 0xC2 ≤ lead.toNat) (upper : lead.toNat < 0xE0)
    (secondLower : 0x80 ≤ second.toNat) (secondUpper : second.toNat ≤ 0xBF) :
    String.utf8EncodeChar (Char.ofNat ((lead.toNat - 0xC0) * 64 + (second.toNat - 0x80))) =
      [lead, second] := by
  have value := val_ofNat ((lead.toNat - 0xC0) * 64 + (second.toNat - 0x80)) (Or.inl (by omega))
  simp only [String.utf8EncodeChar, value]
  rw [if_neg (by omega), if_pos (by omega), ofNat_eq lead _ (by omega), ofNat_eq second _ (by omega)]

theorem utf8EncodeChar_three (lower : 0xE0 ≤ lead.toNat) (upper : lead.toNat < 0xF0)
    (secondLower : 0x80 ≤ second.toNat) (secondUpper : second.toNat ≤ 0xBF)
    (overlong : lead.toNat = 0xE0 → 0xA0 ≤ second.toNat)
    (surrogate : lead.toNat = 0xED → second.toNat ≤ 0x9F)
    (thirdLower : 0x80 ≤ third.toNat) (thirdUpper : third.toNat ≤ 0xBF) :
    String.utf8EncodeChar (Char.ofNat (((lead.toNat - 0xE0) * 64 + (second.toNat - 0x80)) * 64 +
      (third.toNat - 0x80))) = [lead, second, third] := by
  have value := val_ofNat
    (((lead.toNat - 0xE0) * 64 + (second.toNat - 0x80)) * 64 + (third.toNat - 0x80))
    (by simp only [Nat.isValidChar]; omega)
  simp only [String.utf8EncodeChar, value]
  rw [if_neg (by omega), if_neg (by omega), if_pos (by omega), ofNat_eq lead _ (by omega),
    ofNat_eq second _ (by omega), ofNat_eq third _ (by omega)]

theorem utf8EncodeChar_four (lower : 0xF0 ≤ lead.toNat) (upper : lead.toNat < 0xF5)
    (secondLower : 0x80 ≤ second.toNat) (secondUpper : second.toNat ≤ 0xBF)
    (overlong : lead.toNat = 0xF0 → 0x90 ≤ second.toNat)
    (largest : lead.toNat = 0xF4 → second.toNat ≤ 0x8F)
    (thirdLower : 0x80 ≤ third.toNat) (thirdUpper : third.toNat ≤ 0xBF)
    (fourthLower : 0x80 ≤ fourth.toNat) (fourthUpper : fourth.toNat ≤ 0xBF) :
    String.utf8EncodeChar (Char.ofNat ((((lead.toNat - 0xF0) * 64 + (second.toNat - 0x80)) * 64 +
      (third.toNat - 0x80)) * 64 + (fourth.toNat - 0x80))) = [lead, second, third, fourth] := by
  have value := val_ofNat ((((lead.toNat - 0xF0) * 64 + (second.toNat - 0x80)) * 64 +
    (third.toNat - 0x80)) * 64 + (fourth.toNat - 0x80)) (by simp only [Nat.isValidChar]; omega)
  simp only [String.utf8EncodeChar, value]
  rw [if_neg (by omega), if_neg (by omega), if_neg (by omega), ofNat_eq lead _ (by omega),
    ofNat_eq second _ (by omega), ofNat_eq third _ (by omega), ofNat_eq fourth _ (by omega)]

end Encoding

theorem decodeFrom_first (decoded : List Char) (start : Nat) (lead : UInt8) (rest : List UInt8)
    (characters : List Char)
    (accepted : decodeFrom decoded start none (lead :: rest) = .ok characters) :
    ∃ character later next, lead :: rest = String.utf8EncodeChar character ++ later ∧
      decodeFrom (character :: decoded) next none later = .ok characters := by
  by_cases small : lead.toNat < 0x80
  · rw [decodeFrom_ascii _ _ _ _ small] at accepted
    exact ⟨_, rest, _, by rw [utf8EncodeChar_one lead small]; rfl, accepted⟩
  · cases found : openChar? lead.toNat with
    | none => simp [decodeFrom, small, found] at accepted
    | some character =>
        rw [decodeFrom_lead _ _ _ _ _ found] at accepted
        rcases openChar?_cases _ _ found with ⟨lower, upper, rfl⟩ |
          ⟨lowest, highest, lower, upper, rfl, bounds⟩ | ⟨lowest, highest, lower, upper, rfl, bounds⟩
        · obtain ⟨second, later, rfl, above, below, read⟩ := decodeFrom_open _ _ _ _ _ accepted
          rw [if_pos (by simp)] at read
          exact ⟨_, later, _, by rw [utf8EncodeChar_two lead second lower upper above below]; rfl,
            read⟩
        · obtain ⟨second, _, rfl, above, below, read⟩ := decodeFrom_open _ _ _ _ _ accepted
          rw [if_neg (by simp)] at read
          obtain ⟨third, later, rfl, above', below', read⟩ := decodeFrom_open _ _ _ _ _ read
          rw [if_pos (by simp)] at read
          simp only at above below above' below'
          refine ⟨_, later, _, ?_, read⟩
          rw [utf8EncodeChar_three lead second third lower upper (by omega) (by omega) (by omega)
            (by omega) (by omega) (by omega)]
          rfl
        · obtain ⟨second, _, rfl, above, below, read⟩ := decodeFrom_open _ _ _ _ _ accepted
          rw [if_neg (by simp)] at read
          obtain ⟨third, _, rfl, above', below', read⟩ := decodeFrom_open _ _ _ _ _ read
          rw [if_neg (by simp)] at read
          obtain ⟨fourth, later, rfl, above'', below'', read⟩ := decodeFrom_open _ _ _ _ _ read
          rw [if_pos (by simp)] at read
          simp only at above below above' below' above'' below''
          refine ⟨_, later, _, ?_, read⟩
          rw [utf8EncodeChar_four lead second third fourth lower upper (by omega) (by omega)
            (by omega) (by omega) (by omega) (by omega) (by omega) (by omega)]
          rfl

theorem decodeFrom_canonical (decoded : List Char) (start : Nat) (bytes : List UInt8)
    (characters : List Char) (accepted : decodeFrom decoded start none bytes = .ok characters) :
    ∃ read, characters = decoded.reverse ++ read ∧ bytes = encodeChars read := by
  induction length : bytes.length using Nat.strongRecOn
    generalizing decoded start bytes with
  | ind size ih =>
      cases bytes with
      | nil =>
          simp only [decodeFrom, Except.ok.injEq] at accepted
          exact ⟨[], by simp [accepted], rfl⟩
      | cons lead rest =>
          obtain ⟨character, later, next, split, continued⟩ :=
            decodeFrom_first decoded start lead rest characters accepted
          have visible := character.utf8Size_pos
          rw [← String.length_utf8EncodeChar] at visible
          have shorter := congrArg List.length split
          rw [List.length_append] at shorter
          obtain ⟨read, whole, encoded⟩ :=
            ih later.length (by omega) (character :: decoded) next later continued rfl
          exact ⟨character :: read, by simp [whole], by rw [split, encoded]; rfl⟩

theorem encodeText_of_decodeText (bytes : List UInt8) (text : String)
    (accepted : decodeText bytes = .ok text) : encodeText text = bytes := by
  simp only [decodeText] at accepted
  split at accepted
  · rename_i characters decoded
    simp only [Except.ok.injEq] at accepted
    obtain ⟨read, whole, encoded⟩ := decodeFrom_canonical [] 0 bytes characters decoded
    rw [List.reverse_nil, List.nil_append] at whole
    rw [← accepted, encodeText, String.toList_ofList, whole, encoded]
  · simp at accepted

theorem begins_of_encodeText_begins (first : Char) (text : String)
    (begins : String.utf8EncodeChar first <+: encodeText text) : [first] <+: text.toList := by
  obtain ⟨rest, split⟩ := begins
  obtain ⟨next, step⟩ := decodeFrom_utf8EncodeChar [] 0 first rest
  have whole := decodeFrom_encodeChars text.toList [] 0
  rw [← encodeText, ← split, step] at whole
  obtain ⟨read, same, _⟩ := decodeFrom_canonical _ _ _ _ whole
  exact ⟨read, by simpa using same.symm⟩

end PostfixSheet
