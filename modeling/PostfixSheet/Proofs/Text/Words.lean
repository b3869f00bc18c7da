import Mathlib.Data.List.TakeWhile
import PostfixSheet.Text.Blank

/-! The words of a text: no word is empty or has a blank in it, and a text that is put together with spaces
has the words of its parts. A text is a single word exactly when trimming leaves a word. -/

namespace PostfixSheet

theorem span_append {α : Type} (test : α → Bool) (front rest : List α)
    (inside : ∀ item ∈ front, test item = true)
    (stop : ∀ first, rest.head? = some first → test first = false) :
    (front ++ rest).takeWhile test = front ∧ (front ++ rest).dropWhile test = rest := by
  rw [List.takeWhile_append_of_pos inside, List.dropWhile_append_of_pos inside]
  cases rest with
  | nil => simp
  | cons first more =>
      have other := stop first rfl
      simp [other]

def Unbroken (text : String) : Prop :=
  ∀ character ∈ text.toList, isBlank character = false

theorem closeWord_append (current : List Char) (first second : List (List Char)) :
    closeWord current (first ++ second) = closeWord current first ++ second := by
  simp only [closeWord]
  split <;> rfl

theorem wordsFrom_append (current left right : List Char) :
    wordsFrom current (left ++ ' ' :: right) = wordsFrom current left ++ wordsFrom [] right := by
  have space : isBlank ' ' = true := by decide
  induction left generalizing current with
  | nil =>
      simp only [List.nil_append, wordsFrom, space, if_true]
      rw [← closeWord_append, List.nil_append]
  | cons character rest ih =>
      simp only [List.cons_append, wordsFrom]
      split
      · rw [ih, closeWord_append]
      · exact ih (character :: current)

theorem wordsFrom_unbroken (current text : List Char)
    (unbroken : ∀ character ∈ text, isBlank character = false) :
    wordsFrom current text = closeWord (text.reverse ++ current) [] := by
  induction text generalizing current with
  | nil => rfl
  | cons character rest ih =>
      have inside := unbroken character (by simp)
      have later := ih (character :: current) fun other member => unbroken other (by simp [member])
      simp only [wordsFrom, inside, Bool.false_eq_true, if_false, later]
      simp

theorem mem_closeWord (current word : List Char) (later : List (List Char))
    (unbroken : ∀ character ∈ current, isBlank character = false)
    (member : word ∈ closeWord current later) :
    word ∈ later ∨ word ≠ [] ∧ ∀ character ∈ word, isBlank character = false := by
  simp only [closeWord] at member
  split at member
  · exact Or.inl member
  · rename_i nonempty
    rcases List.mem_cons.mp member with same | further
    · subst word
      exact Or.inr ⟨by simpa using nonempty, by simpa using unbroken⟩
    · exact Or.inl further

theorem unbroken_of_mem_wordsFrom (current text : List Char)
    (unbroken : ∀ character ∈ current, isBlank character = false) :
    ∀ word ∈ wordsFrom current text,
      word ≠ [] ∧ ∀ character ∈ word, isBlank character = false := by
  induction text generalizing current with
  | nil =>
      intro word member
      rcases mem_closeWord current word [] unbroken member with nothing | whole
      · simp at nothing
      · exact whole
  | cons character rest ih =>
      intro word member
      simp only [wordsFrom] at member
      split at member
      · rcases mem_closeWord current word _ unbroken member with further | whole
        · exact ih [] (by simp) word further
        · exact whole
      · rename_i inside
        apply ih (character :: current) ?_ word member
        intro other belongs
        rcases List.mem_cons.mp belongs with same | earlier
        · rw [same]
          simpa using inside
        · exact unbroken other earlier

theorem words_append (left right : String) :
    words (left ++ " " ++ right) = words left ++ words right := by
  have space : (" " : String).toList = [' '] := by decide
  simp [words, space, wordsFrom_append]

theorem words_unbroken (text : String) (nonempty : text ≠ "") (unbroken : Unbroken text) :
    words text = [text] := by
  have some_character : text.toList ≠ [] := by simpa using nonempty
  rw [words, wordsFrom_unbroken [] text.toList unbroken]
  simp [closeWord, some_character]

theorem unbroken_of_mem_words (text word : String) (member : word ∈ words text) :
    word ≠ "" ∧ Unbroken word := by
  obtain ⟨characters, found, same⟩ := List.mem_map.mp member
  obtain ⟨nonempty, unbroken⟩ := unbroken_of_mem_wordsFrom [] text.toList (by simp) characters found
  subst word
  exact ⟨by simpa using nonempty, by simpa [Unbroken] using unbroken⟩

section Trimming

variable {front back word : List Char} (frontBlank : ∀ character ∈ front, isBlank character = true)
  (backBlank : ∀ character ∈ back, isBlank character = true)

include frontBlank in
theorem wordsFrom_leading (text : List Char) : wordsFrom [] (front ++ text) = wordsFrom [] text := by
  induction front with
  | nil => rfl
  | cons character rest ih =>
      have blank := frontBlank character (by simp)
      have later := ih fun other member => frontBlank other (by simp [member])
      simp only [List.cons_append, wordsFrom, blank, if_true, later]
      rfl

include backBlank in
theorem wordsFrom_trailing (current : List Char) : wordsFrom current back = closeWord current [] := by
  induction back generalizing current with
  | nil => rfl
  | cons character rest ih =>
      have blank := backBlank character (by simp)
      have later := ih (fun other member => backBlank other (by simp [member])) []
      simp only [wordsFrom, blank, if_true, later]
      rfl

theorem wordsFrom_word (current rest : List Char)
    (unbroken : ∀ character ∈ word, isBlank character = false) :
    wordsFrom current (word ++ rest) = wordsFrom (word.reverse ++ current) rest := by
  induction word generalizing current with
  | nil => rfl
  | cons character more ih =>
      have inside := unbroken character (by simp)
      have later := ih (character :: current) fun other member => unbroken other (by simp [member])
      simp only [List.cons_append, wordsFrom, inside, Bool.false_eq_true, if_false, later]
      simp

theorem wordsFrom_eq_nil (current text : List Char) (nothing : wordsFrom current text = []) :
    current = [] ∧ ∀ character ∈ text, isBlank character = true := by
  induction text generalizing current with
  | nil =>
      simp only [wordsFrom, closeWord] at nothing
      split at nothing
      · rename_i empty
        exact ⟨List.isEmpty_iff.mp empty, by simp⟩
      · simp at nothing
  | cons character rest ih =>
      by_cases blank : isBlank character = true
      · simp only [wordsFrom, blank, if_true, closeWord] at nothing
        split at nothing
        · rename_i empty
          obtain ⟨_, blanks⟩ := ih [] nothing
          exact ⟨List.isEmpty_iff.mp empty, List.forall_mem_cons.mpr ⟨blank, blanks⟩⟩
        · simp at nothing
      · simp only [wordsFrom, blank, Bool.false_eq_true, if_false] at nothing
        exact absurd (ih (character :: current) nothing).1 (List.cons_ne_nil _ _)

theorem surrounded_of_wordsFrom (current text : List Char) (only : wordsFrom current text = [word]) :
    ∃ front inner back, text = front ++ inner ++ back ∧ word = current.reverse ++ inner ∧
      (∀ character ∈ front, isBlank character = true) ∧
      (∀ character ∈ back, isBlank character = true) ∧ (current ≠ [] → front = []) := by
  induction text generalizing current with
  | nil =>
      simp only [wordsFrom, closeWord] at only
      split at only
      · simp at only
      · simp only [List.cons.injEq, and_true] at only
        exact ⟨[], [], [], rfl, by simp [only], by simp, by simp, fun _ => rfl⟩
  | cons character rest ih =>
      by_cases blank : isBlank character = true
      · simp only [wordsFrom, blank, if_true, closeWord] at only
        split at only
        · rename_i empty
          obtain rfl := List.isEmpty_iff.mp empty
          obtain ⟨front, inner, back, rfl, same, frontBlank, backBlank, _⟩ := ih [] only
          exact ⟨character :: front, inner, back, rfl, same,
            List.forall_mem_cons.mpr ⟨blank, frontBlank⟩, backBlank, fun begun => absurd rfl begun⟩
        · simp only [List.cons.injEq] at only
          obtain ⟨_, blanks⟩ := wordsFrom_eq_nil [] rest only.2
          exact ⟨[], [], character :: rest, rfl, by simp [only.1], by simp,
            List.forall_mem_cons.mpr ⟨blank, blanks⟩, fun _ => rfl⟩
      · simp only [wordsFrom, blank, Bool.false_eq_true, if_false] at only
        obtain ⟨front, inner, back, rfl, rfl, _, backBlank, begun⟩ := ih (character :: current) only
        obtain rfl := begun (List.cons_ne_nil _ _)
        exact ⟨[], character :: inner, back, rfl, by simp, by simp, backBlank, fun _ => rfl⟩

include frontBlank backBlank in
theorem trimBlanks_surrounded (unbroken : ∀ character ∈ word, isBlank character = false)
    (nonempty : word ≠ []) : trimBlanks (front ++ word ++ back) = word := by
  have begins : ∀ first, (word ++ back).head? = some first → isBlank first = false := by
    intro first found
    obtain ⟨character, rest, rfl⟩ := List.exists_cons_of_ne_nil nonempty
    obtain rfl := Option.some.inj found
    exact unbroken character (by simp)
  have ends : ∀ last, word.reverse.head? = some last → isBlank last = false := by
    intro last found
    exact unbroken last (List.mem_reverse.mp (List.mem_of_head? found))
  have reversed : ∀ character ∈ back.reverse, isBlank character = true :=
    fun character member => backBlank character (List.mem_reverse.mp member)
  rw [trimBlanks, List.append_assoc, (span_append isBlank front _ frontBlank begins).2,
    List.reverse_append, (span_append isBlank _ _ reversed ends).2, List.reverse_reverse]

theorem trimBlanks_split (text : List Char) :
    ∃ front back, text = front ++ trimBlanks text ++ back ∧
      (∀ character ∈ front, isBlank character = true) ∧
      ∀ character ∈ back, isBlank character = true := by
  have whole := List.takeWhile_append_dropWhile (p := isBlank) (l := text)
  have behind := congrArg List.reverse
    (List.takeWhile_append_dropWhile (p := isBlank) (l := (text.dropWhile isBlank).reverse))
  rw [List.reverse_append, List.reverse_reverse] at behind
  refine ⟨text.takeWhile isBlank, ((text.dropWhile isBlank).reverse.takeWhile isBlank).reverse, ?_, ?_, ?_⟩
  · rw [trimBlanks, List.append_assoc, behind, whole]
  · intro character member
    exact List.mem_takeWhile_imp member
  · intro character member
    exact List.mem_takeWhile_imp (List.mem_reverse.mp member)

theorem wordsFrom_eq_singleton (text word : List Char) :
    wordsFrom [] text = [word] ↔
      trimBlanks text = word ∧ word ≠ [] ∧ ∀ character ∈ word, isBlank character = false := by
  constructor
  · intro only
    obtain ⟨nonempty, unbroken⟩ := unbroken_of_mem_wordsFrom [] text (by simp) word (by simp [only])
    obtain ⟨front, inner, back, rfl, same, frontBlank, backBlank, _⟩ := surrounded_of_wordsFrom [] text only
    rw [List.reverse_nil, List.nil_append] at same
    subst inner
    exact ⟨trimBlanks_surrounded frontBlank backBlank unbroken nonempty, nonempty, unbroken⟩
  · rintro ⟨rfl, nonempty, unbroken⟩
    obtain ⟨front, back, split, frontBlank, backBlank⟩ := trimBlanks_split text
    have words : wordsFrom [] (front ++ trimBlanks text ++ back) = [trimBlanks text] := by
      rw [List.append_assoc, wordsFrom_leading frontBlank, wordsFrom_word [] back unbroken,
        List.append_nil, wordsFrom_trailing backBlank]
      simp [closeWord, nonempty]
    rwa [← split] at words

end Trimming

end PostfixSheet
