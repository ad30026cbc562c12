import AccessRules.Proofs.Rule.KeywordBoundary
import AccessRules.Proofs.Text.Words

/-!
# Splitting a text without brackets

Where a text has no brackets, a boundary is a keyword that is one of its words. So a text that
lacks the keyword is a single operand, and a keyword between two texts splits them apart if the
left one lacks it.
-/
namespace AccessRules.Junction

open AccessRules.Bracket

variable {junction : Junction}

/-- The keyword is none of the words of the text. -/
def IsAbsent (junction : Junction) (text : Text) : Prop :=
  ∀ word ∈ text.words, word.lower ≠ junction.keyword

/-- Keywords have letters. -/
theorem filled_of_written {word : Text} (written : word.lower = junction.keyword) : word ≠ [] := by
  rintro rfl
  cases junction <;> exact absurd written (by decide)

/-- Written keywords have no blanks. -/
theorem solid_of_written {word : Text} (written : word.lower = junction.keyword) :
    ∀ c ∈ word, Text.isBlank c = false :=
  fun c mem => isBlank_of_isAlpha (isAlpha_of_mem written c mem)

/-- What leads to a keyword and is no bracket is a blank. -/
theorem isBlank_of_leads {c : Char} (lead : leads c = true) (free : isBracket c = false) :
    Text.isBlank c = true := by
  rcases leads_iff.mp lead with rfl | blank
  · exact absurd free (by decide)
  · exact blank

/-- What trails a keyword and is no bracket is a blank. -/
theorem isBlank_of_trails {c : Char} (trail : trails c = true) (free : isBracket c = false) :
    Text.isBlank c = true := by
  rcases trails_iff.mp trail with rfl | blank
  · exact absurd free (by decide)
  · exact blank

/-- A boundary in a text without brackets is made of blanks and a word of the text. -/
theorem mem_words_of_afterBoundary? {front back after : Text}
    (free : ∀ c ∈ back, isBracket c = false)
    (found : junction.afterBoundary? back = some after) :
    ∃ word ∈ (front ++ back).words, word.lower = junction.keyword := by
  obtain ⟨c, word, trail, boundary, rfl⟩ := afterBoundary?_eq_some found
  have before : Text.isBlank c = true :=
    isBlank_of_leads (boundary.leading c (by simp)) (free c (by simp))
  have later : ∀ d ∈ (trail ++ after).head?, Text.isBlank d = true := by
    intro d head
    cases trail with
    | nil => exact absurd rfl boundary.unfinished
    | cons e trail =>
      obtain rfl : e = d := by simpa using head
      exact isBlank_of_trails (boundary.trailing e (by simp)) (free e (by simp))
  have word_mem : word ∈ ((front ++ [c]) ++ word ++ (trail ++ after)).words :=
    Text.mem_words (filled_of_written boundary.written) (solid_of_written boundary.written)
      (by simpa using before) later
  exact ⟨word, by simpa using word_mem, boundary.written⟩

/-- A text without brackets that lacks the keyword has no boundary. -/
theorem IsAbsent.afterBoundary?_eq_none {front back : Text}
    (absent : junction.IsAbsent (front ++ back)) (free : ∀ c ∈ back, isBracket c = false) :
    junction.afterBoundary? back = none := by
  cases found : junction.afterBoundary? back with
  | none => rfl
  | some after =>
    obtain ⟨word, mem, written⟩ := mem_words_of_afterBoundary? free found
    exact absurd written (absent word mem)

/-- A text without brackets that lacks the keyword is its only operand. -/
theorem IsAbsent.segments_eq {text : Text} (absent : junction.IsAbsent text)
    (free : ∀ c ∈ text, isBracket c = false) : junction.segments text = [text] := by
  have none : junction.split? text = none := by
    have nowhere : Text.search junction.afterBoundary? text = none := by
      rw [Text.search_eq_none_iff]
      rintro front back rfl -
      exact absent.afterBoundary?_eq_none fun c mem => free c (by simp [mem])
    rw [split?, nowhere]
    rfl
  unfold segments
  cases text with
  | nil => rfl
  | cons c text => simp [segmentsWithin, none]

/-- A split takes at least one character. -/
theorem length_of_split? {text before after : Text}
    (found : junction.split? text = some (before, after)) : after.length < text.length := by
  obtain ⟨lead, word, trail, boundary, rfl⟩ := split?_eq_some found
  have some := List.length_pos_of_ne_nil boundary.begun
  simp only [List.length_append]
  omega

/-- More fuel than characters changes nothing. -/
theorem segmentsWithin_eq {text : Text} {fuel more : Nat} (enough : text.length ≤ fuel)
    (plenty : text.length ≤ more) :
    junction.segmentsWithin fuel text = junction.segmentsWithin more text := by
  have blind : junction.split? [] = none := rfl
  induction fuel generalizing text more with
  | zero =>
    obtain rfl := List.length_eq_zero_iff.mp (Nat.le_zero.mp enough)
    cases more with
    | zero => rfl
    | succ more => simp [segmentsWithin, blind]
  | succ fuel ih =>
    cases more with
    | zero =>
      obtain rfl := List.length_eq_zero_iff.mp (Nat.le_zero.mp plenty)
      simp [segmentsWithin, blind]
    | succ more =>
      unfold segmentsWithin
      split
      · rfl
      · rename_i before after found
        have shorter := length_of_split? found
        have first : after.length ≤ fuel := by omega
        have second : after.length ≤ more := by omega
        rw [ih first second]

/-- A split gives the first operand, and what follows has the others. -/
theorem segments_of_split? {text before after : Text}
    (found : junction.split? text = some (before, after)) :
    junction.segments text = before :: junction.segments after := by
  have shorter := length_of_split? found
  unfold segments
  cases text with
  | nil => simp at shorter
  | cons c text =>
    simp only [List.length_cons] at shorter
    rw [List.length_cons, segmentsWithin, found]
    simp only [List.cons.injEq, true_and]
    exact segmentsWithin_eq (by omega) (Nat.le_refl _)

/-- A text that can stand between boundaries: it has characters, no blanks at its ends and no
brackets. -/
structure IsOperand (text : Text) : Prop where
  /-- It has characters. -/
  filled : text ≠ []
  /-- No blank is at an end. -/
  trimmed : text.IsTrimmed
  /-- It has no brackets. -/
  free : ∀ c ∈ text, isBracket c = false

/-- A character that is neither a blank nor a bracket stays before a keyword. -/
theorem leads_eq_false {c : Char} (solid : Text.isBlank c = false) (free : isBracket c = false) :
    leads c = false := by
  by_contra lead
  have blank := isBlank_of_leads (by simpa using lead) free
  rw [solid] at blank
  contradiction

/-- A character that is neither a blank nor a bracket stays after a keyword. -/
theorem trails_eq_false {c : Char} (solid : Text.isBlank c = false) (free : isBracket c = false) :
    trails c = false := by
  by_contra trail
  have blank := isBlank_of_trails (by simpa using trail) free
  rw [solid] at blank
  contradiction

/-- What follows a keyword does not begin with what trails it. -/
theorem trails_of_afterBoundary? {text after : Text}
    (found : junction.afterBoundary? text = some after) :
    ∀ c ∈ after.head?, trails c = false := by
  unfold afterBoundary? at found
  repeat' split at found
  all_goals try contradiction
  rename_i rest _ _
  obtain rfl := Option.some.inj found
  intro c head
  have kind := List.head?_dropWhile_not trails rest
  rw [Option.mem_def.mp head] at kind
  simpa using kind

/-- A split of an operand leaves an operand after the keyword, and what stands before the keyword is
not blank. -/
theorem IsOperand.of_split? {text before after : Text} (operand : IsOperand text)
    (found : junction.split? text = some (before, after)) :
    before.trim ≠ [] ∧ IsOperand after := by
  have solid_first (c : Char) (first : c ∈ text.head?) : leads c = false :=
    leads_eq_false (operand.trimmed.first c first) (operand.free c (List.mem_of_head? first))
  have solid_last (c : Char) (last : c ∈ text.getLast?) : trails c = false :=
    trails_eq_false (operand.trimmed.last c last) (operand.free c (List.mem_of_getLast? last))
  have starts : ∀ c ∈ after.head?, trails c = false := by
    obtain ⟨⟨front, rest⟩, success, same⟩ := Option.map_eq_some_iff.mp found
    obtain ⟨rfl, rfl⟩ := Prod.mk.inj same
    obtain ⟨back, rfl, accepted⟩ := Text.search_eq_some success
    exact trails_of_afterBoundary? accepted
  obtain ⟨lead, word, trail, boundary, rfl⟩ := split?_eq_some found
  have begun : before ≠ [] := by
    rintro rfl
    obtain ⟨c, lead, rfl⟩ := List.exists_cons_of_ne_nil boundary.begun
    exact Bool.false_ne_true
      ((solid_first c (by simp)).symm.trans (boundary.leading c (by simp)))
  have filled : after ≠ [] := by
    rintro rfl
    obtain ⟨trail, c, rfl⟩ := (List.eq_nil_or_concat trail).resolve_left boundary.unfinished
    exact Bool.false_ne_true
      ((solid_last c (by simp)).symm.trans (boundary.trailing c (by simp)))
  refine ⟨fun blank => ?_, filled, ⟨fun c head => ?_, fun c last => ?_⟩, fun c mem => ?_⟩
  · obtain ⟨c, before, rfl⟩ := List.exists_cons_of_ne_nil begun
    have solid := operand.trimmed.first c (by simp)
    rw [Text.trim_eq_nil_iff.mp blank c (by simp)] at solid
    contradiction
  · by_contra blank
    have trails := trails_iff.mpr (.inr (by simpa using blank))
    rw [starts c head] at trails
    contradiction
  · exact operand.trimmed.last c (by rwa [List.getLast?_append_of_ne_nil _ filled])
  · exact operand.free c (List.mem_append_right _ mem)

/-- A boundary is found where its last blank before the keyword stands. -/
theorem afterBoundary?_append {c : Char} {word trail rest : Text}
    (lead : Text.isBlank c = true) (written : word.lower = junction.keyword)
    (trailing : trail ≠ []) (blank : ∀ d ∈ trail, Text.isBlank d = true)
    (start : ∀ d ∈ rest.head?, trails d = false) :
    junction.afterBoundary? (c :: (word ++ trail ++ rest)) = some rest := by
  have kept : leads c = true := leads_iff.mpr (.inr lead)
  have found : Text.afterWord? junction.keyword (word ++ trail ++ rest) = some (trail ++ rest) :=
    Text.afterWord?_eq_some_iff.mpr ⟨word, by simp, written⟩
  cases trail with
  | nil => contradiction
  | cons d trail =>
    have next : trails d = true := trails_iff.mpr (.inr (blank d (by simp)))
    have dropped : (trail ++ rest).dropWhile trails = rest := by
      rw [List.dropWhile_append_of_pos fun e mem =>
        trails_iff.mpr (.inr (blank e (by simp [mem])))]
      cases rest with
      | nil => rfl
      | cons e rest => simp [start e (by simp)]
    simp only [afterBoundary?, kept, found, List.cons_append, ↓reduceIte, next, dropped]

/-- No boundary begins in an operand that lacks the keyword, nor in the blanks after it. -/
theorem IsAbsent.afterBoundary?_append_eq_none {front back rest : Text} {c : Char}
    (absent : junction.IsAbsent (front ++ back ++ [c]))
    (free : ∀ d ∈ back, isBracket d = false) (blank : Text.isBlank c = true)
    (filled : back ≠ []) : junction.afterBoundary? (back ++ c :: rest) = none := by
  by_contra some
  obtain ⟨after, found⟩ := Option.ne_none_iff_exists'.mp some
  obtain ⟨d, word, trail, boundary, same⟩ := afterBoundary?_eq_some found
  have solid := solid_of_written boundary.written
  cases back with
  | nil => exact filled rfl
  | cons e back =>
    rw [List.append_assoc, List.cons_append, List.cons_append] at same
    obtain ⟨rfl, tail⟩ := List.cons.inj same
    have begun : Text.isBlank e = true :=
      isBlank_of_leads (boundary.leading e (by simp)) (free e (by simp))
    -- The word ends before the blank, so it is a word of the text up to there.
    rcases Text.append_eq_append_cons tail.symm with ⟨between, rfl, -⟩ | ⟨between, rfl, later⟩
    · have inside := solid c (by simp)
      rw [blank] at inside
      contradiction
    · have ended : ∀ g ∈ (between ++ [c]).head?, Text.isBlank g = true := by
        intro g head
        cases between with
        | nil =>
          obtain rfl : c = g := by simpa using head
          exact blank
        | cons h between =>
          obtain rfl : h = g := by simpa using head
          cases trail with
          | nil => exact absurd rfl boundary.unfinished
          | cons t trail =>
            obtain rfl : t = h := (List.cons.inj later).1
            exact isBlank_of_trails (boundary.trailing t (by simp)) (free t (by simp))
      have mem : word ∈ ((front ++ [e]) ++ word ++ (between ++ [c])).words :=
        Text.mem_words (filled_of_written boundary.written) solid (by simpa using begun) ended
      exact absent word (by simpa using mem) boundary.written

/-- Operands are split off one by one at keywords that they lack. -/
theorem segments_cons {left lead word trail rest : Text} (operand : IsOperand left)
    (absent : junction.IsAbsent left) (leading : lead ≠ [])
    (before : ∀ c ∈ lead, Text.isBlank c = true) (written : word.lower = junction.keyword)
    (trailing : trail ≠ []) (after : ∀ c ∈ trail, Text.isBlank c = true)
    (start : ∀ c ∈ rest.head?, trails c = false) :
    junction.segments (left ++ (lead ++ word ++ trail) ++ rest) =
      left :: junction.segments rest := by
  apply segments_of_split?
  rcases List.eq_nil_or_concat lead with rfl | ⟨lead, c, rfl⟩
  · contradiction
  rw [List.concat_eq_append] at before ⊢
  have last : Text.isBlank c = true := before c (by simp)
  have found : Text.search junction.afterBoundary?
      ((left ++ lead) ++ c :: (word ++ trail ++ rest)) = some (left ++ lead, rest) := by
    refine Text.search_append (fun front back split filled => ?_) (by simp)
      (afterBoundary?_append last written trailing after start)
    have words : (front ++ back ++ [c]).words = left.words := by
      rw [← split, List.append_assoc]
      exact Text.words_append_blanks before
    have lacking : junction.IsAbsent (front ++ back ++ [c]) := by
      rw [IsAbsent, words]
      exact absent
    refine lacking.afterBoundary?_append_eq_none (fun d mem => ?_) last filled
    have mem : d ∈ left ++ lead := split ▸ List.mem_append_right front mem
    rcases List.mem_append.mp mem with inside | between
    · exact operand.free d inside
    · exact isBracket_of_isBlank (before d (by simp [between]))
  have dropped : Text.dropEndWhile leads (left ++ lead) = left := by
    refine Text.dropEndWhile_append
      (fun d mem => leads_iff.mpr (.inr (before d (by simp [mem])))) ?_
    exact fun d mem => leads_eq_false (operand.trimmed.last d mem)
      (operand.free d (List.mem_of_getLast? mem))
  rw [split?, show left ++ (lead ++ [c] ++ word ++ trail) ++ rest =
    (left ++ lead) ++ c :: (word ++ trail ++ rest) by simp, found]
  simp [dropped]

end AccessRules.Junction
