import AccessRules.Proofs.Rule.Abridgement
import AccessRules.Rule.Shape

/-!
# Boundaries between operands

Splitting at a keyword takes away the keyword with the brackets and blanks on both sides of it:
closing brackets before it and opening ones after it. The operands with these boundaries between
them are the whole text.
-/
namespace AccessRules

open AccessRules.Bracket

/-! ## Characters at a keyword -/

/-- The character is a letter whose lower form is a lower-case letter. -/
theorem isAlpha_of_isLower_toLower {c : Char} (lower : c.toLower.isLower = true) :
    c.isAlpha = true := by
  unfold Char.toLower at lower
  split at lower
  · rename_i upper
    have upper : c.isUpper = true := decide_eq_true upper
    exact Bool.or_eq_true_iff.mpr (.inl upper)
  · exact Bool.or_eq_true_iff.mpr (.inr lower)

/-- A word that is written in letters, in whatever case, consists of letters. -/
theorem Text.isAlpha_of_lower_eq {word written : Text} {c : Char} (lower : written.lower = word)
    (letters : ∀ d ∈ word, d.isLower = true) (mem : c ∈ written) : c.isAlpha = true :=
  isAlpha_of_isLower_toLower (letters _ (lower ▸ List.mem_map_of_mem mem))

/-- A character is not written in a word without its lower form. -/
theorem Text.not_mem_of_lower {word written : Text} {c : Char} (lower : written.lower = word)
    (absent : c.toLower ∉ word) : c ∉ written :=
  fun mem => absent (lower ▸ List.mem_map_of_mem mem)

/-- Only a space is read as a space in lower case. -/
theorem eq_space_of_toLower {c : Char} (lower : c.toLower = ' ') : c = ' ' := by
  unfold Char.toLower at lower
  split at lower
  · rename_i upper
    have range : 65 ≤ c.val.toNat ∧ c.val.toNat ≤ 90 := by
      simpa [UInt32.le_iff_toNat_le] using upper
    have code : (c.val + 32).toNat = 32 := congrArg (fun d => d.val.toNat) lower
    have shift : (32 : UInt32).toNat = 32 := rfl
    rw [UInt32.toNat_add] at code
    omega
  · exact lower

/-- What is written for negation with a space after it is a word and a space. -/
theorem eq_append_space_of_lower {written : Text} (lower : written.lower = "not ".toList) :
    ∃ word, written = word ++ [' '] ∧ word.lower = "not".toList := by
  rcases List.eq_nil_or_concat written with rfl | ⟨word, c, rfl⟩
  · exact absurd lower (by decide)
  rw [List.concat_eq_append] at lower ⊢
  have parts : Text.lower word ++ [c.toLower] = "not".toList ++ [' '] := by
    rw [Text.lower, List.map_append] at lower
    exact lower
  obtain ⟨negates, last⟩ := List.append_inj' parts rfl
  obtain rfl := eq_space_of_toLower (List.cons.inj last).1
  exact ⟨word, rfl, negates⟩

/-- The code points of ASCII letters. -/
theorem toNat_of_isAlpha {c : Char} (alpha : c.isAlpha = true) :
    65 ≤ c.toNat ∧ c.toNat ≤ 90 ∨ 97 ≤ c.toNat ∧ c.toNat ≤ 122 := by
  rcases Bool.or_eq_true_iff.mp alpha with upper | lower
  · exact .inl (by simpa [UInt32.le_iff_toNat_le] using of_decide_eq_true upper)
  · exact .inr (by simpa [UInt32.le_iff_toNat_le] using Bool.and_eq_true_iff.mp lower)

/-- Letters are no blanks. -/
theorem isBlank_of_isAlpha {c : Char} (alpha : c.isAlpha = true) : Text.isBlank c = false := by
  have range := toNat_of_isAlpha alpha
  by_contra blank
  simp only [Text.isBlank, Bool.or_eq_true, Bool.and_eq_true, beq_iff_eq, decide_eq_true_eq,
    Bool.not_eq_false] at blank
  omega

/-- Letters are no marks. -/
theorem isMark_of_isAlpha {c : Char} (alpha : c.isAlpha = true) : Marker.isMark c = false := by
  have range := toNat_of_isAlpha alpha
  by_contra mark
  simp only [Marker.isMark, Bool.or_eq_true, decide_eq_true_eq, Bool.not_eq_false] at mark
  rcases mark with ((rfl | rfl) | rfl) | digit
  · exact absurd alpha (by decide)
  · exact absurd alpha (by decide)
  · exact absurd alpha (by decide)
  · have digits := Text.toNat_of_isDigit digit
    omega

/-- Letters are no brackets. -/
theorem isBracket_of_isAlpha {c : Char} (alpha : c.isAlpha = true) : isBracket c = false := by
  by_contra bracket
  simp only [isBracket, Bool.or_eq_true, decide_eq_true_eq, Bool.not_eq_false] at bracket
  rcases bracket with rfl | rfl <;> exact absurd alpha (by decide)

/-- Blanks are no brackets. -/
theorem isBracket_of_isBlank {c : Char} (blank : Text.isBlank c = true) : isBracket c = false := by
  by_contra bracket
  simp only [isBracket, Bool.or_eq_true, decide_eq_true_eq, Bool.not_eq_false] at bracket
  rcases bracket with rfl | rfl <;> exact absurd blank (by decide)

/-- Blanks are no marks. -/
theorem isMark_of_isBlank {c : Char} (blank : Text.isBlank c = true) :
    Marker.isMark c = false := by
  by_contra mark
  simp only [Marker.isMark, Bool.or_eq_true, decide_eq_true_eq, Bool.not_eq_false] at mark
  rcases mark with ((rfl | rfl) | rfl) | digit
  · exact absurd blank (by decide)
  · exact absurd blank (by decide)
  · exact absurd blank (by decide)
  · rw [Text.isBlank_of_isDigit digit] at blank
    contradiction

/-- A marker holds no blanks. -/
theorem Marker.isBlank_of_mem {digits : Text} (number : IsNumber digits) {c : Char}
    (mem : c ∈ ofDigits digits) : Text.isBlank c = false := by
  by_contra blank
  have mark := isMark_of_mem number mem
  rw [isMark_of_isBlank (by simpa using blank)] at mark
  contradiction

/-- A written negation consists of letters. -/
theorem isAlpha_of_negation {word : Text} (written : word.lower = "not".toList) :
    ∀ c ∈ word, c.isAlpha = true :=
  fun _ => Text.isAlpha_of_lower_eq written (List.all_eq_true.mp (by decide))

/-- A written negation has no blanks. -/
theorem solid_of_negation {word : Text} (written : word.lower = "not".toList) :
    ∀ c ∈ word, Text.isBlank c = false :=
  fun c mem => isBlank_of_isAlpha (isAlpha_of_negation written c mem)

namespace Junction

/-- Keywords consist of letters. -/
theorem isLower_of_mem_keyword (junction : Junction) :
    ∀ c ∈ junction.keyword, c.isLower = true := by
  apply List.all_eq_true.mp
  cases junction <;> decide

/-- A written keyword consists of letters. -/
theorem isAlpha_of_mem {junction : Junction} {word : Text}
    (written : word.lower = junction.keyword) : ∀ c ∈ word, c.isAlpha = true :=
  fun _ => Text.isAlpha_of_lower_eq written junction.isLower_of_mem_keyword

/-- Junctions have different keywords. -/
theorem keyword_inj {left right : Junction} (same : left.keyword = right.keyword) :
    left = right := by
  cases left <;> cases right <;> first | rfl | exact absurd same (by decide)

/-- Before a keyword stand closing brackets and blanks. -/
theorem leads_iff {c : Char} : leads c = true ↔ c = ')' ∨ Text.isBlank c = true := by
  simp [leads]

/-- After a keyword stand opening brackets and blanks. -/
theorem trails_iff {c : Char} : trails c = true ↔ c = '(' ∨ Text.isBlank c = true := by
  simp [trails]

/-- What may stand before a keyword is no mark. -/
theorem isMark_of_leads {c : Char} (lead : leads c = true) : Marker.isMark c = false := by
  rcases leads_iff.mp lead with rfl | blank
  · rfl
  · exact isMark_of_isBlank blank

/-- What may stand after a keyword is no mark. -/
theorem isMark_of_trails {c : Char} (trail : trails c = true) : Marker.isMark c = false := by
  rcases trails_iff.mp trail with rfl | blank
  · rfl
  · exact isMark_of_isBlank blank

/-! ## Splitting -/

/-- A boundary: what leads up to the keyword, the keyword in some case, and what trails it. -/
structure IsBoundary (junction : Junction) (lead word trail : Text) : Prop where
  /-- Something stands before the keyword. -/
  begun : lead ≠ []
  /-- It consists of closing brackets and blanks. -/
  leading : ∀ c ∈ lead, leads c = true
  /-- The keyword is written in some case. -/
  written : word.lower = junction.keyword
  /-- Something stands after the keyword. -/
  unfinished : trail ≠ []
  /-- It consists of opening brackets and blanks. -/
  trailing : ∀ c ∈ trail, trails c = true

/-- Operands in order with boundaries between them. -/
inductive Separates (junction : Junction) : Text → List Text → Prop where
  | last (text : Text) : Separates junction text [text]
  | cons {before lead word trail after : Text} {segments : List Text}
      (boundary : junction.IsBoundary lead word trail)
      (further : Separates junction after segments) :
      Separates junction (before ++ (lead ++ word ++ trail) ++ after) (before :: segments)

/-- The character before a keyword, the keyword and what trails it are found together. -/
theorem afterBoundary?_eq_some {junction : Junction} {text after : Text}
    (found : junction.afterBoundary? text = some after) :
    ∃ c word trail, junction.IsBoundary [c] word trail ∧
      text = c :: word ++ trail ++ after := by
  unfold afterBoundary? at found
  split at found
  · contradiction
  · rename_i c text
    split at found
    · rename_i lead
      split at found
      · rename_i d rest further
        split at found
        · rename_i trail
          obtain ⟨word, rfl, written⟩ := Text.afterWord?_eq_some_iff.mp further
          obtain rfl := Option.some.inj found
          refine ⟨c, word, d :: rest.takeWhile trails, ?_, ?_⟩
          · refine ⟨by simp, by simpa using lead, written, by simp, fun e mem => ?_⟩
            rcases List.mem_cons.mp mem with rfl | later
            · exact trail
            · exact List.mem_takeWhile_imp later
          · simp
        · contradiction
      · contradiction
    · contradiction

/-- A split takes away one boundary. -/
theorem split?_eq_some {junction : Junction} {text before after : Text}
    (found : junction.split? text = some (before, after)) :
    ∃ lead word trail, junction.IsBoundary lead word trail ∧
      text = before ++ (lead ++ word ++ trail) ++ after := by
  obtain ⟨⟨front, rest⟩, success, same⟩ := Option.map_eq_some_iff.mp found
  obtain ⟨rfl, rfl⟩ := Prod.mk.inj same
  obtain ⟨back, rfl, accepted⟩ := Text.search_eq_some success
  obtain ⟨c, word, trail, boundary, rfl⟩ := afterBoundary?_eq_some accepted
  obtain ⟨more, split, leading⟩ := Text.exists_eq_dropEndWhile leads front
  refine ⟨more ++ [c], word, trail, ?_, ?_⟩
  · refine ⟨by simp, fun d mem => ?_, boundary.written, boundary.unfinished, boundary.trailing⟩
    rcases List.mem_append.mp mem with earlier | last
    · exact leading d earlier
    · exact boundary.leading d last
  · conv_lhs => rw [split]
    simp

/-- The operands with boundaries between them are the text. -/
theorem separates_segments (junction : Junction) (text : Text) :
    junction.Separates text (junction.segments text) := by
  suffices fueled : ∀ fuel, junction.Separates text (junction.segmentsWithin fuel text) from
    fueled text.length
  intro fuel
  induction fuel generalizing text with
  | zero => exact .last text
  | succ fuel ih =>
    unfold segmentsWithin
    split
    · exact .last text
    · rename_i before after found
      obtain ⟨lead, word, trail, boundary, rfl⟩ := split?_eq_some found
      exact .cons boundary (ih after)

/-! ## Keywords at an edge -/

/-- A word that ends before a blank ends where the text before the blank does. -/
theorem endsWord_of_append {word text tail rest : Text} (letters : ∀ c ∈ word, c.isLower = true)
    (blank : ∀ c ∈ tail.head?, Text.isBlank c = true)
    (found : Text.afterWord? word (text ++ tail) = some rest) (ends : endsWord rest = true) :
    (Text.afterWord? word text).any endsWord = true := by
  obtain ⟨written, same, lower⟩ := Text.afterWord?_eq_some_iff.mp found
  rcases List.append_eq_append_iff.mp same with ⟨between, rfl, later⟩ | ⟨between, rfl, later⟩
  · cases between with
    | nil =>
      have whole : Text.afterWord? word text = some [] :=
        Text.afterWord?_eq_some_iff.mpr ⟨text, by simp, by simpa using lower⟩
      rw [whole]
      rfl
    | cons c between =>
      have alpha : c.isAlpha = true := Text.isAlpha_of_lower_eq lower letters (by simp)
      have solid := isBlank_of_isAlpha alpha
      rw [blank c (by simp [later])] at solid
      contradiction
  · have whole : Text.afterWord? word (written ++ between) = some between :=
      Text.afterWord?_eq_some_iff.mpr ⟨written, rfl, lower⟩
    rw [whole]
    cases between with
    | nil => rfl
    | cons c between =>
      rw [later] at ends
      exact ends

/-- What ends with a keyword does so after its last blank. -/
theorem finishes_of_append {junction : Junction} {front space back : Text} (filled : space ≠ [])
    (blank : ∀ c ∈ space, Text.isBlank c = true)
    (finishes : junction.finishes (front ++ space ++ back) = true) :
    junction.finishes back = true := by
  have letters : ∀ c ∈ junction.keyword.reverse, c.isLower = true :=
    fun c mem => junction.isLower_of_mem_keyword c (List.mem_reverse.mp mem)
  have turned : (front ++ space ++ back).reverse =
      back.reverse ++ (space.reverse ++ front.reverse) := by simp
  rw [Junction.finishes, turned] at finishes
  obtain ⟨rest, found, ends⟩ := (Option.any_eq_true _ _).mp finishes
  refine endsWord_of_append letters (fun c head => ?_) found ends
  rw [List.head?_append_of_ne_nil _ (by simpa using filled), List.head?_reverse] at head
  exact blank c (List.mem_of_getLast? head)

/-- A marker neither starts nor ends with a keyword. -/
theorem undangling_marker (junction : Junction) (digits : Text) :
    junction.starts (Marker.ofDigits digits) = false ∧
      junction.finishes (Marker.ofDigits digits) = false := by
  have back : (Marker.ofDigits digits).reverse = '@' :: '>' :: digits.reverse ++ ['<', '@'] := by
    simp [Marker.ofDigits]
  constructor
  · cases junction <;> simp [starts, keyword, Text.afterWord?, Marker.ofDigits]
  · rw [finishes, back]
    cases junction <;> simp [keyword, Text.afterWord?]

/-- No keyword dangles in a trimmed text that neither starts nor ends with one. -/
theorem dangling?_eq_none {text : Text} (trimmed : text.IsTrimmed)
    (undangling : ∀ junction : Junction, junction.starts text = false ∧
      junction.finishes text = false) : dangling? text = none := by
  simp [dangling?, trimmed.trim_self, undangling]

end Junction

end AccessRules
