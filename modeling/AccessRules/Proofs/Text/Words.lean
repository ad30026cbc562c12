import AccessRules.Proofs.Text.Search

/-!
# Words

The words of a text are its longest runs of characters that are no blanks. Text on both sides of a
blank has its words apart, and everything about words follows from that.
-/
namespace AccessRules.Text

/-- The words of a text from left to right. -/
def words (text : Text) : List Text := (text.splitOnP isBlank).filter (· ≠ [])

/-- A blank ends a word. -/
theorem words_append_blank {c : Char} (blank : isBlank c = true) (left right : Text) :
    words (left ++ c :: right) = left.words ++ right.words := by
  rw [words, List.splitOnP_append_cons _ _ blank, List.filter_append]
  rfl

/-- A text without blanks is a word. -/
theorem words_of_solid {word : Text} (filled : word ≠ []) (solid : ∀ c ∈ word, isBlank c = false) :
    words word = [word] := by
  rw [words, List.splitOnP_eq_singleton solid]
  simp [filled]

/-- Blanks after a text add no words. -/
theorem words_append_blanks {text blanks : Text} (blank : ∀ c ∈ blanks, isBlank c = true) :
    words (text ++ blanks) = text.words := by
  induction blanks generalizing text with
  | nil => rw [List.append_nil]
  | cons c blanks ih =>
    rw [words_append_blank (blank c (by simp))]
    have rest : words ([] ++ blanks) = [] := ih fun d mem => blank d (by simp [mem])
    rw [← List.nil_append blanks, rest, List.append_nil]

/-- Blanks before a text add no words. -/
theorem words_blanks_append {blanks text : Text} (blank : ∀ c ∈ blanks, isBlank c = true) :
    words (blanks ++ text) = text.words := by
  induction blanks with
  | nil => rfl
  | cons c blanks ih =>
    have apart := words_append_blank (blank c (by simp)) [] (blanks ++ text)
    rw [ih fun d mem => blank d (by simp [mem])] at apart
    exact apart

/-- Blanks between two texts keep their words apart. -/
theorem words_append_gap {left gap right : Text} (filled : gap ≠ [])
    (blank : ∀ c ∈ gap, isBlank c = true) :
    words (left ++ gap ++ right) = left.words ++ right.words := by
  cases gap with
  | nil => contradiction
  | cons c gap =>
    rw [List.append_assoc, List.cons_append, words_append_blank (blank c (by simp)),
      words_blanks_append fun d mem => blank d (by simp [mem])]

/-- What stands between blanks without blanks in it is a word. -/
theorem mem_words {front word back : Text} (filled : word ≠ [])
    (solid : ∀ c ∈ word, isBlank c = false) (before : ∀ c ∈ front.getLast?, isBlank c = true)
    (after : ∀ c ∈ back.head?, isBlank c = true) : word ∈ words (front ++ word ++ back) := by
  have alone : word ∈ words (word ++ back) := by
    cases back with
    | nil => simp [words_of_solid filled solid]
    | cons d back =>
      rw [words_append_blank (after d (by simp)), words_of_solid filled solid]
      simp
  rcases List.eq_nil_or_concat front with rfl | ⟨front, c, rfl⟩
  · exact alone
  · rw [List.append_assoc, List.concat_eq_append, List.append_assoc, List.singleton_append,
      words_append_blank (before c (by simp))]
    exact List.mem_append_right _ alone

/-- What keeps all other characters and keeps blanks blank keeps words. -/
theorem words_map {change : Char → Char} {text : Text}
    (blanks : ∀ c ∈ text, isBlank (change c) = isBlank c)
    (kept : ∀ c ∈ text, isBlank c = false → change c = c) :
    words (text.map change) = text.words := by
  -- The induction is over the places where a word ends, with the word so far in front.
  suffices begun : ∀ front : Text, words (front ++ text.map change) = words (front ++ text) from
    begun []
  induction text with
  | nil => exact fun _ => rfl
  | cons c text ih =>
    intro front
    have further := ih (fun d mem => blanks d (by simp [mem]))
      fun d mem => kept d (by simp [mem])
    cases blank : isBlank c with
    | true =>
      have changed : isBlank (change c) = true := (blanks c (by simp)).trans blank
      have rest := further []
      rw [List.nil_append, List.nil_append] at rest
      rw [List.map_cons, words_append_blank changed, words_append_blank blank, rest]
    | false =>
      rw [List.map_cons, kept c (by simp) blank]
      simpa using further (front ++ [c])

/-- The characters of a word are of the text. -/
theorem mem_of_mem_words {text word : Text} (mem : word ∈ text.words) : ∀ c ∈ word, c ∈ text := by
  suffices runs : ∀ run ∈ text.splitOnP isBlank, ∀ c ∈ run, c ∈ text from
    runs word (List.mem_of_mem_filter mem)
  clear mem
  induction text with
  | nil => simp
  | cons first rest ih =>
    rw [List.splitOnP_cons_eq_if_modifyHead]
    intro run among c inside
    split at among
    · cases among with
      | head => contradiction
      | tail _ further => exact List.mem_cons_of_mem _ (ih run further c inside)
    · cases parts : rest.splitOnP isBlank with
      | nil => simp [parts] at among
      | cons part others =>
        rw [parts] at ih among
        cases among with
        | head =>
          cases inside with
          | head => exact List.mem_cons_self
          | tail _ inner => exact List.mem_cons_of_mem _ (ih part List.mem_cons_self c inner)
        | tail _ further =>
          exact List.mem_cons_of_mem _ (ih run (List.mem_cons_of_mem _ further) c inside)

end AccessRules.Text
