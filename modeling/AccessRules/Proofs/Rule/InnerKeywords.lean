import AccessRules.Proofs.Grammar.Rendering
import AccessRules.Proofs.Subject.QuotedName

/-!
# Keywords inside words

A rule without brackets none of whose words is a keyword is a single token, whatever its words are
made of, so the letters of a keyword inside a word do no harm. There is one exception: a keyword is
also found at either end of a rule, next to any character that is no part of a word, such as the
hyphen in `either-or`.
-/
namespace AccessRules

/-- The text has no brackets and none of its words is a keyword where one may stand. -/
structure IsPhrase (text : Text) : Prop where
  /-- It has characters. -/
  filled : text ≠ []
  /-- It is trimmed. -/
  trimmed : text.trim = text
  /-- It has no brackets. -/
  unbracketed : ∀ c ∈ text, Bracket.isBracket c = false
  /-- It has no tabs and no line ends. -/
  plain : ∀ c ∈ text, IsPlain c
  /-- It has nothing of the form of a marker. -/
  unmarked : Marker.find? text = none
  /-- None of its words is the keyword of a junction. -/
  unjoined : ∀ junction : Junction, junction.IsAbsent text
  /-- Its first word is not the one for negation. -/
  affirmative : ∀ word ∈ text.words.head?, word.lower ≠ "not".toList

/-- A keyword of a junction stands at an end of the text, next to a character of no word. -/
def HasEdgeKeyword (text : Text) : Prop :=
  ∃ (junction : Junction) (word : Text) (c : Char) (rest : Text),
    word.lower = junction.keyword ∧ Text.isWordCharacter c = false ∧
      (text = word ++ c :: rest ∨ text = rest ++ c :: word)

namespace IsPhrase

variable {text : Text}

/-- A phrase is not a keyword. -/
theorem lower_ne_keyword (phrase : IsPhrase text) (junction : Junction) :
    text.lower ≠ junction.keyword := by
  intro written
  have alone := Text.words_of_solid phrase.filled (Junction.solid_of_written written)
  exact phrase.unjoined junction text (by simp [alone]) written

/-- A keyword dangles in a phrase exactly if it stands at an end, next to a character of no
word. -/
theorem dangling?_ne_none_iff (phrase : IsPhrase text) :
    Junction.dangling? text ≠ none ↔ HasEdgeKeyword text := by
  have trimmed : text.IsTrimmed := phrase.trimmed ▸ text.isTrimmed_trim
  rw [Ne, Junction.dangling?_eq_none_iff trimmed]
  constructor
  · intro dangles
    simp only [not_forall, not_and_or, Bool.not_eq_false] at dangles
    obtain ⟨junction, starts | finishes⟩ := dangles
    · obtain ⟨word, rest, same, written, first⟩ := Junction.starts_iff.mp starts
      cases rest with
      | nil =>
        rw [List.append_nil] at same
        exact absurd (same ▸ written) (phrase.lower_ne_keyword junction)
      | cons c rest => exact ⟨junction, word, c, rest, written, first c rfl, .inl same⟩
    · obtain ⟨front, word, same, written, last⟩ := Junction.finishes_iff.mp finishes
      rcases List.eq_nil_or_concat front with rfl | ⟨rest, c, rfl⟩
      · exact absurd (same ▸ written) (phrase.lower_ne_keyword junction)
      · exact ⟨junction, word, c, rest, written, last c (by simp), .inr (by simp [same])⟩
  · rintro ⟨junction, word, c, rest, written, other, same | same⟩ undangling
    · have starts : junction.starts text = true :=
        Junction.starts_iff.mpr ⟨word, c :: rest, same, written, by simpa using other⟩
      exact absurd (undangling junction).1 (by simp [starts])
    · have finishes : junction.finishes text = true :=
        Junction.finishes_iff.mpr ⟨rest ++ [c], word, by simp [same], written, by simpa using other⟩
      exact absurd (undangling junction).2 (by simp [finishes])

/-- A phrase is an atom unless a keyword dangles in it. -/
theorem shape_eq (phrase : IsPhrase text) :
    Shape.of text = match Junction.dangling? text with
      | some junction => .dangling junction
      | none => .atom := by
  have undivided : ∀ junction : Junction, junction.operands? text = none := by
    intro junction
    rw [Junction.operands?, (phrase.unjoined junction).segments_eq phrase.unbracketed]
  rw [Shape.of, undivided .or, undivided .and]
  dsimp only
  rw [afterWord?_of_affirmative phrase.affirmative, sameWord_of_affirmative phrase.affirmative]
  rfl

end IsPhrase

namespace Reader

variable {Leaf : Type} {reader : Reader Leaf} {rule : Text}

/-- A phrase of admitted length is offered to the readers of leaves as a whole, unless a keyword
stands at an end of it next to a character of no word; then it is refused. -/
theorem read_of_isPhrase (phrase : IsPhrase rule)
    (long : rule.byteLength ≤ reader.limits.maxLength) :
    (¬HasEdgeKeyword rule → reader.read rule = reader.readToken rule) ∧
      (HasEdgeKeyword rule → ∃ junction,
        reader.read rule = .error (.malformed (.missingOperand junction) (some rule))) := by
  have shape := phrase.shape_eq
  rw [← phrase.dangling?_ne_none_iff]
  cases dangles : Junction.dangling? rule with
  | none =>
    rw [dangles] at shape
    refine ⟨fun _ => ?_, fun dangling => absurd rfl dangling⟩
    exact read_of_atom phrase.filled phrase.trimmed phrase.unbracketed phrase.plain
      phrase.unmarked shape long
  | some junction =>
    rw [dangles] at shape
    refine ⟨fun whole => absurd (Option.some_ne_none junction) whole, fun _ => ⟨junction, ?_⟩⟩
    exact read_of_dangling phrase.filled phrase.trimmed phrase.unbracketed phrase.plain
      phrase.unmarked shape long

/-- Keywords that are parts of words, between quotes or next to a slash, are kept. -/
theorem read_of_inner_keywords :
    let reader := ofSubjects {}
    let rule : Text := "group != \"and/or candor, not\"".toList
    IsPhrase rule ∧ rule.byteLength ≤ reader.limits.maxLength ∧ ¬HasEdgeKeyword rule ∧
      reader.read rule = reader.readToken rule ∧
      reader.readToken rule = .ok (.leaf (.group .notEqual "and/or candor, not".toList)) := by
  intro reader rule
  have bare : ∀ c ∈ rule, Bracket.isBracket c = false ∧ IsPlain c := bare_of_all (by decide)
  have phrase : IsPhrase rule := by
    refine ⟨by decide, by decide, fun c mem => (bare c mem).1, fun c mem => (bare c mem).2,
      by decide, fun junction => ?_, by decide⟩
    unfold Junction.IsAbsent
    cases junction <;> decide
  have inner : ¬HasEdgeKeyword rule :=
    fun edge => phrase.dangling?_ne_none_iff.mpr edge (by decide)
  exact ⟨phrase, by decide, inner, (read_of_isPhrase phrase (by decide)).1 inner, by rfl⟩

/-- A keyword at the end of a word with a hyphen is taken for one without an operand, though the
word is none and its leaf is known. -/
theorem edge_keyword_refused :
    let reader := ofSubjects {}
    let rule : Text := "group = either-or".toList
    IsPhrase rule ∧
      reader.readToken rule = .ok (.leaf (.group .equal "either-or".toList)) ∧
      reader.read rule = .error (.malformed (.missingOperand .or) (some rule)) := by
  intro reader rule
  have bare : ∀ c ∈ rule, Bracket.isBracket c = false ∧ IsPlain c := bare_of_all (by decide)
  refine ⟨⟨by decide, by decide, fun c mem => (bare c mem).1, fun c mem => (bare c mem).2,
    by decide, fun junction => ?_, by decide⟩, by rfl, by rfl⟩
  unfold Junction.IsAbsent
  cases junction <;> decide

end Reader

end AccessRules
