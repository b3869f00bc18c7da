import PostfixSheet.Text.Utf8

/-! The bytes of a text decode to that text. -/

namespace PostfixSheet

section Steps

variable (decoded : List Char) (start : Nat) (rest : List UInt8)

theorem decodeFrom_ascii (byte : UInt8) (small : byte.toNat < 0x80) :
    decodeFrom decoded start none (byte :: rest) =
      decodeFrom (Char.ofNat byte.toNat :: decoded) (start + 1) none rest := by
  simp [decodeFrom, small]

theorem openChar?_le (lead : Nat) (character : OpenChar) (found : openChar? lead = some character) :
    0xC2 ≤ lead := by
  by_cases small : lead < 0xC2
  · simp [openChar?, small] at found
  · omega

theorem decodeFrom_lead (lead : UInt8) (character : OpenChar)
    (found : openChar? lead.toNat = some character) :
    decodeFrom decoded start none (lead :: rest) =
      decodeFrom decoded start (some character) rest := by
  have large := openChar?_le lead.toNat character found
  have notAscii : ¬lead.toNat < 0x80 := by omega
  simp only [decodeFrom, notAscii, if_false, found]

theorem decodeFrom_inner (character : OpenChar) (byte : UInt8)
    (bounds : character.lowest ≤ byte.toNat ∧ byte.toNat ≤ character.highest)
    (more : 1 < character.missing) :
    decodeFrom decoded start (some character) (byte :: rest) =
      decodeFrom decoded start
        (some ⟨character.value * 64 + (byte.toNat - 0x80), character.length + 1,
          character.missing - 1, 0x80, 0xBF⟩) rest := by
  have notLast : ¬character.missing ≤ 1 := by omega
  simp only [decodeFrom, bounds, and_self, if_true, notLast, if_false]

theorem decodeFrom_last (character : OpenChar) (byte : UInt8)
    (bounds : character.lowest ≤ byte.toNat ∧ byte.toNat ≤ character.highest)
    (last : character.missing ≤ 1) :
    decodeFrom decoded start (some character) (byte :: rest) =
      decodeFrom (Char.ofNat (character.value * 64 + (byte.toNat - 0x80)) :: decoded)
        (start + (character.length + 1)) none rest := by
  simp only [decodeFrom, bounds, and_self, if_true, last]

end Steps

theorem toNat_bounds (character : Char) :
    character.toNat < 0xD800 ∨ 0xDFFF < character.toNat ∧ character.toNat < 0x110000 :=
  character.valid

theorem openChar?_two (lead : Nat) (lower : 0xC2 ≤ lead) (upper : lead < 0xE0) :
    openChar? lead = some ⟨lead - 0xC0, 1, 1, 0x80, 0xBF⟩ := by
  rw [openChar?, if_neg (by omega), if_pos upper]

theorem openChar?_three (lead : Nat) (lower : 0xE0 ≤ lead) (upper : lead < 0xF0) :
    ∃ lowest highest, openChar? lead = some ⟨lead - 0xE0, 1, 2, lowest, highest⟩ ∧
      ∀ next, 0x80 ≤ next → next < 0xC0 → (lead = 0xE0 → 0xA0 ≤ next) →
        (lead = 0xED → next < 0xA0) → lowest ≤ next ∧ next ≤ highest := by
  by_cases first : lead = 0xE0
  · subst first
    exact ⟨0xA0, 0xBF, rfl, by omega⟩
  · by_cases surrogate : lead = 0xED
    · subst surrogate
      exact ⟨0x80, 0x9F, rfl, by omega⟩
    · refine ⟨0x80, 0xBF, ?_, by omega⟩
      rw [openChar?, if_neg (by omega), if_neg (by omega), if_neg first, if_neg surrogate,
        if_pos upper]

theorem openChar?_four (lead : Nat) (lower : 0xF0 ≤ lead) (upper : lead < 0xF5) :
    ∃ lowest highest, openChar? lead = some ⟨lead - 0xF0, 1, 3, lowest, highest⟩ ∧
      ∀ next, 0x80 ≤ next → next < 0xC0 → (lead = 0xF0 → 0x90 ≤ next) →
        (lead = 0xF4 → next < 0x90) → lowest ≤ next ∧ next ≤ highest := by
  by_cases first : lead = 0xF0
  · subst first
    exact ⟨0x90, 0xBF, rfl, by omega⟩
  · by_cases last : lead = 0xF4
    · subst last
      exact ⟨0x80, 0x8F, rfl, by omega⟩
    · refine ⟨0x80, 0xBF, ?_, by omega⟩
      rw [openChar?, if_neg (by omega), if_neg (by omega), if_neg (by omega), if_neg (by omega),
        if_neg (by omega), if_neg first, if_pos (by omega)]

theorem toNat_ofNat_of_lt (value : Nat) (bound : value < 256) :
    (UInt8.ofNat value).toNat = value := by
  simp only [UInt8.toNat_ofNat']
  omega

section Widths

variable (decoded : List Char) (start value : Nat) (rest : List UInt8)

theorem decodeFrom_two (lower : 0x80 ≤ value) (upper : value < 0x800) :
    decodeFrom decoded start none
        (UInt8.ofNat (value / 64 % 0x20 + 0xC0) :: UInt8.ofNat (value % 0x40 + 0x80) :: rest) =
      decodeFrom (Char.ofNat value :: decoded) (start + 2) none rest := by
  have lead := toNat_ofNat_of_lt (value / 64 % 0x20 + 0xC0) (by omega)
  have second := toNat_ofNat_of_lt (value % 0x40 + 0x80) (by omega)
  rw [decodeFrom_lead _ _ _ _ _ (openChar?_two _ (by omega) (by omega)),
    decodeFrom_last _ _ _ _ _ (by simp only; omega) (by simp)]
  simp only [lead, second]
  rw [show (value / 64 % 0x20 + 0xC0 - 0xC0) * 64 + (value % 0x40 + 0x80 - 0x80) = value by omega]

theorem decodeFrom_three (lower : 0x800 ≤ value) (upper : value < 0x10000)
    (scalar : value < 0xD800 ∨ 0xDFFF < value) :
    decodeFrom decoded start none
        (UInt8.ofNat (value / 4096 % 0x10 + 0xE0) :: UInt8.ofNat (value / 64 % 0x40 + 0x80) ::
          UInt8.ofNat (value % 0x40 + 0x80) :: rest) =
      decodeFrom (Char.ofNat value :: decoded) (start + 3) none rest := by
  have lead := toNat_ofNat_of_lt (value / 4096 % 0x10 + 0xE0) (by omega)
  have second := toNat_ofNat_of_lt (value / 64 % 0x40 + 0x80) (by omega)
  have third := toNat_ofNat_of_lt (value % 0x40 + 0x80) (by omega)
  obtain ⟨lowest, highest, found, allowed⟩ :=
    openChar?_three (value / 4096 % 0x10 + 0xE0) (by omega) (by omega)
  have bounds := allowed (value / 64 % 0x40 + 0x80) (by omega) (by omega) (by omega) (by omega)
  rw [← lead] at found
  rw [← second] at bounds
  rw [decodeFrom_lead _ _ _ _ _ found, decodeFrom_inner _ _ _ _ _ bounds (by simp),
    decodeFrom_last _ _ _ _ _ (by simp only; omega) (by simp)]
  simp only [lead, second, third]
  rw [show ((value / 4096 % 0x10 + 0xE0 - 0xE0) * 64 + (value / 64 % 0x40 + 0x80 - 0x80)) * 64 +
    (value % 0x40 + 0x80 - 0x80) = value by omega]

theorem decodeFrom_four (lower : 0x10000 ≤ value) (upper : value < 0x110000) :
    decodeFrom decoded start none
        (UInt8.ofNat (value / 262144 % 0x08 + 0xF0) :: UInt8.ofNat (value / 4096 % 0x40 + 0x80) ::
          UInt8.ofNat (value / 64 % 0x40 + 0x80) :: UInt8.ofNat (value % 0x40 + 0x80) :: rest) =
      decodeFrom (Char.ofNat value :: decoded) (start + 4) none rest := by
  have lead := toNat_ofNat_of_lt (value / 262144 % 0x08 + 0xF0) (by omega)
  have second := toNat_ofNat_of_lt (value / 4096 % 0x40 + 0x80) (by omega)
  have third := toNat_ofNat_of_lt (value / 64 % 0x40 + 0x80) (by omega)
  have fourth := toNat_ofNat_of_lt (value % 0x40 + 0x80) (by omega)
  obtain ⟨lowest, highest, found, allowed⟩ :=
    openChar?_four (value / 262144 % 0x08 + 0xF0) (by omega) (by omega)
  have bounds := allowed (value / 4096 % 0x40 + 0x80) (by omega) (by omega) (by omega) (by omega)
  rw [← lead] at found
  rw [← second] at bounds
  rw [decodeFrom_lead _ _ _ _ _ found, decodeFrom_inner _ _ _ _ _ bounds (by simp),
    decodeFrom_inner _ _ _ _ _ (by simp only; omega) (by simp),
    decodeFrom_last _ _ _ _ _ (by simp only; omega) (by simp)]
  simp only [lead, second, third, fourth]
  rw [show (((value / 262144 % 0x08 + 0xF0 - 0xF0) * 64 + (value / 4096 % 0x40 + 0x80 - 0x80)) * 64 +
    (value / 64 % 0x40 + 0x80 - 0x80)) * 64 + (value % 0x40 + 0x80 - 0x80) = value by omega]

end Widths

theorem decodeFrom_utf8EncodeChar (decoded : List Char) (start : Nat) (character : Char)
    (rest : List UInt8) :
    ∃ next, decodeFrom decoded start none (String.utf8EncodeChar character ++ rest) =
      decodeFrom (character :: decoded) next none rest := by
  have bounds := toNat_bounds character
  have same : Char.ofNat character.toNat = character := Char.ofNat_toNat character
  simp only [String.utf8EncodeChar]
  rw [show character.val.toNat = character.toNat from rfl]
  generalize character.toNat = value at bounds same
  subst character
  split
  · rename_i one
    have byte := toNat_ofNat_of_lt value (by omega)
    refine ⟨start + 1, ?_⟩
    rw [List.singleton_append, decodeFrom_ascii _ _ _ _ (by omega), byte]
  · split
    · exact ⟨start + 2, decodeFrom_two decoded start value rest (by omega) (by omega)⟩
    · split
      · exact ⟨start + 3, decodeFrom_three decoded start value rest (by omega) (by omega) (by omega)⟩
      · exact ⟨start + 4, decodeFrom_four decoded start value rest (by omega) (by omega)⟩

theorem decodeFrom_encodeChars (characters decoded : List Char) (start : Nat) :
    decodeFrom decoded start none (encodeChars characters) =
      .ok (decoded.reverse ++ characters) := by
  induction characters generalizing decoded start with
  | nil => simp [encodeChars, decodeFrom]
  | cons character rest ih =>
      simp only [encodeChars, List.flatMap_cons]
      obtain ⟨next, step⟩ := decodeFrom_utf8EncodeChar decoded start character (encodeChars rest)
      rw [encodeChars] at step
      rw [step, ← encodeChars, ih]
      simp

theorem decodeText_encodeText (text : String) : decodeText (encodeText text) = .ok text := by
  rw [decodeText, encodeText, decodeFrom_encodeChars]
  simp

theorem encodeText_injective : Function.Injective encodeText := by
  intro left right same
  have decoded := decodeText_encodeText left
  rw [same, decodeText_encodeText] at decoded
  exact (Except.ok.inj decoded).symm

end PostfixSheet
