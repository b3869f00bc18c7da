import Mathlib.Data.List.Basic
import PostfixSheet.Proofs.Text.Utf8Canonical

/-! Bytes that are the UTF-8 form of a text. The bytes of one character are a single byte below 0x80 or lie
all above it, so bytes below can be put in or replaced without breaking a character. -/

namespace PostfixSheet

def IsText (bytes : List UInt8) : Prop :=
  ∃ text, bytes = encodeText text

theorem isText_iff (bytes : List UInt8) :
    IsText bytes ↔ ∃ text, decodeText bytes = .ok text := by
  constructor
  · rintro ⟨text, rfl⟩
    exact ⟨text, decodeText_encodeText text⟩
  · rintro ⟨text, accepted⟩
    exact ⟨text, (encodeText_of_decodeText bytes text accepted).symm⟩

theorem encodeChars_append (left right : List Char) :
    encodeChars (left ++ right) = encodeChars left ++ encodeChars right := by
  simp [encodeChars]

theorem isText_encodeChars (characters : List Char) : IsText (encodeChars characters) :=
  ⟨String.ofList characters, by simp [encodeText]⟩

theorem isText_character (character : Char) : IsText (String.utf8EncodeChar character) := by
  have whole := isText_encodeChars [character]
  rw [encodeChars, List.flatMap_singleton] at whole
  exact whole

theorem isText_nil : IsText [] :=
  isText_encodeChars []

theorem IsText.append {left right : List UInt8} (leftText : IsText left) (rightText : IsText right) :
    IsText (left ++ right) := by
  obtain ⟨first, rfl⟩ := leftText
  obtain ⟨second, rfl⟩ := rightText
  exact ⟨first ++ second, by simp [encodeText, encodeChars]⟩

theorem isText_flatten (pieces : List (List UInt8)) (texts : ∀ piece ∈ pieces, IsText piece) :
    IsText pieces.flatten := by
  induction pieces with
  | nil => exact isText_nil
  | cons piece rest ih =>
      exact (texts piece (by simp)).append (ih fun other member => texts other (by simp [member]))

theorem isText_intercalate (separator : List UInt8) (pieces : List (List UInt8))
    (separatorText : IsText separator) (texts : ∀ piece ∈ pieces, IsText piece) :
    IsText (separator.intercalate pieces) := by
  induction pieces with
  | nil => exact isText_nil
  | cons piece rest ih =>
      have later := ih fun other member => texts other (by simp [member])
      cases rest with
      | nil =>
          rw [List.intercalate_singleton]
          exact texts piece (by simp)
      | cons second more =>
          rw [List.intercalate_cons_cons]
          exact ((texts piece (by simp)).append separatorText).append later

theorem isText_single (byte : UInt8) (ascii : byte.toNat < 0x80) : IsText [byte] := by
  rw [← utf8EncodeChar_one byte ascii]
  exact isText_character _

theorem isText_ascii (bytes : List UInt8) (ascii : ∀ byte ∈ bytes, byte.toNat < 0x80) :
    IsText bytes := by
  induction bytes with
  | nil => exact isText_nil
  | cons byte rest ih =>
      exact (isText_single byte (ascii byte (by simp))).append
        (ih fun other member => ascii other (by simp [member]))

theorem utf8EncodeChar_cases (character : Char) :
    (∃ byte, byte.toNat = character.toNat ∧ byte.toNat < 0x80 ∧
        String.utf8EncodeChar character = [byte]) ∨
      ∀ byte ∈ String.utf8EncodeChar character, 0x80 ≤ byte.toNat := by
  have bounds := toNat_bounds character
  have high (value : Nat) (lower : 0x80 ≤ value) (upper : value < 256) :
      0x80 ≤ (UInt8.ofNat value).toNat := by
    rw [toNat_ofNat_of_lt value upper]
    exact lower
  simp only [String.utf8EncodeChar]
  rw [show character.val.toNat = character.toNat from rfl]
  split
  · rename_i one
    have code := toNat_ofNat_of_lt character.toNat (by omega)
    exact Or.inl ⟨_, code, by omega, rfl⟩
  · right
    split
    · simp only [List.forall_mem_cons, List.not_mem_nil, false_implies, implies_true, and_true]
      exact ⟨high _ (by omega) (by omega), high _ (by omega) (by omega)⟩
    · split
      · simp only [List.forall_mem_cons, List.not_mem_nil, false_implies, implies_true, and_true]
        exact ⟨high _ (by omega) (by omega), high _ (by omega) (by omega),
          high _ (by omega) (by omega)⟩
      · simp only [List.forall_mem_cons, List.not_mem_nil, false_implies, implies_true, and_true]
        exact ⟨high _ (by omega) (by omega), high _ (by omega) (by omega),
          high _ (by omega) (by omega), high _ (by omega) (by omega)⟩

theorem IsText.flatMap {bytes : List UInt8} (text : IsText bytes) (replace : UInt8 → List UInt8)
    (ascii : ∀ byte, byte.toNat < 0x80 → IsText (replace byte))
    (others : ∀ byte, 0x80 ≤ byte.toNat → replace byte = [byte]) :
    IsText (bytes.flatMap replace) := by
  obtain ⟨text, rfl⟩ := text
  rw [encodeText]
  induction text.toList with
  | nil => exact isText_nil
  | cons character rest ih =>
      rw [encodeChars, List.flatMap_cons, List.flatMap_append]
      refine IsText.append ?_ ih
      rcases utf8EncodeChar_cases character with ⟨byte, _, small, single⟩ | high
      · rw [single, List.flatMap_singleton]
        exact ascii byte small
      · have unchanged : (String.utf8EncodeChar character).flatMap replace =
            String.utf8EncodeChar character := by
          rw [List.flatMap_congr fun byte member => others byte (high byte member)]
          exact List.flatMap_singleton' _
        rw [unchanged]
        exact isText_character character

end PostfixSheet
