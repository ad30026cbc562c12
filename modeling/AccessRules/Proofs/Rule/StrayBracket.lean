import AccessRules.Proofs.Rule.KeywordBoundary

/-!
# Stray brackets at keywords

A bracket without a partner may be taken away with the keyword next to it. A text has its strays
at keywords if each of them is: a closing one stands before a keyword and an opening one after a
keyword, with nothing but such brackets and blanks between. An abridged text has its strays at
keywords exactly if the full text has, and a text of operands has if each operand has.
-/
namespace AccessRules

open AccessRules.Bracket

/-- A keyword follows, after closing brackets and blanks and before a blank or an opening bracket
without a partner. -/
def KeywordAhead (text : Text) : Prop :=
  ∃ (junction : Junction) (skip word : Text) (d : Char) (rest : Text),
    text = skip ++ word ++ d :: rest ∧ (∀ c ∈ skip, Junction.leads c = true) ∧
      word.lower = junction.keyword ∧ (Text.isBlank d = true ∨ d = '(' ∧ unopened rest = 0)

/-- A keyword precedes, before opening brackets and blanks and after a blank or a closing bracket
without a partner. -/
def KeywordBehind (text : Text) : Prop :=
  ∃ (junction : Junction) (rest : Text) (c : Char) (word skip : Text),
    text = rest ++ c :: (word ++ skip) ∧ (∀ d ∈ skip, Junction.trails d = true) ∧
      word.lower = junction.keyword ∧ (Text.isBlank c = true ∨ c = ')' ∧ unclosed rest = 0)

/-- Every bracket without a partner stands at a keyword. -/
structure StraysAtKeywords (text : Text) : Prop where
  /-- A closing one stands before a keyword. -/
  closing : ∀ before after, text = before ++ ')' :: after → unclosed before = 0 →
    KeywordAhead after
  /-- An opening one stands after a keyword. -/
  opening : ∀ before after, text = before ++ '(' :: after → unopened after = 0 →
    KeywordBehind before

/-! ## Brackets without a partner -/

/-- Where closing brackets are unopened, one has no opening bracket left before it. -/
theorem exists_stray_closing {text : Text} (some : unopened text ≠ 0) :
    ∃ before after, text = before ++ ')' :: after ∧ unclosed before = 0 := by
  obtain ⟨before, after, split, balanced⟩ := exists_first_unopened some
  exact ⟨before, after, split, (balanced_iff.mp balanced).2⟩

/-- Where opening brackets are unclosed, one has no closing bracket left after it. -/
theorem exists_stray_opening {text : Text} (some : unclosed text ≠ 0) :
    ∃ before after, text = before ++ '(' :: after ∧ unopened after = 0 := by
  obtain ⟨before, after, split, balanced⟩ := exists_last_unclosed some
  exact ⟨before, after, split, (balanced_iff.mp balanced).1⟩

/-- Before a closing bracket of a balanced text some opening one is left. -/
theorem Bracket.Balanced.unclosed_ne_zero {before after : Text}
    (balanced : Balanced (before ++ ')' :: after)) : unclosed before ≠ 0 := by
  intro closed
  have one : unopened (')' :: after) = unopened after + 1 := rfl
  rw [balanced_iff, Bracket.unopened_append] at balanced
  omega

/-- After an opening bracket of a balanced text some closing one is left. -/
theorem Bracket.Balanced.unopened_ne_zero {before after : Text}
    (balanced : Balanced (before ++ '(' :: after)) : unopened after ≠ 0 := by
  intro opened
  have one : unclosed ('(' :: after) = unclosed after + 1 := by simp [unclosed, opened]
  rw [balanced_iff, Bracket.unclosed_append] at balanced
  omega

/-- A balanced text has no strays. -/
theorem Bracket.Balanced.straysAtKeywords {text : Text} (balanced : Balanced text) :
    StraysAtKeywords text := by
  constructor
  · rintro before after rfl closed
    exact absurd closed balanced.unclosed_ne_zero
  · rintro before after rfl opened
    exact absurd opened balanced.unopened_ne_zero

/-! ## Longer texts -/

/-- A keyword ahead stays ahead if the text after it closes none of its brackets. -/
theorem KeywordAhead.append {text more : Text} (ahead : KeywordAhead text)
    (kept : ∀ before after, text = before ++ '(' :: after → unopened after = 0 →
      unopened (after ++ more) = 0) : KeywordAhead (text ++ more) := by
  obtain ⟨junction, skip, word, d, rest, rfl, skipped, written, next⟩ := ahead
  refine ⟨junction, skip, word, d, rest ++ more, by simp, skipped, written, next.imp_right ?_⟩
  rintro ⟨rfl, opened⟩
  exact ⟨rfl, kept (skip ++ word) rest rfl opened⟩

/-- A keyword behind stays behind if the text before it opens none of its brackets. -/
theorem KeywordBehind.prepend {text more : Text} (behind : KeywordBehind text)
    (kept : ∀ before after, text = before ++ ')' :: after → unclosed before = 0 →
      unclosed (more ++ before) = 0) : KeywordBehind (more ++ text) := by
  obtain ⟨junction, rest, c, word, skip, rfl, skipped, written, last⟩ := behind
  refine ⟨junction, more ++ rest, c, word, skip, by simp, skipped, written, last.imp_right ?_⟩
  rintro ⟨rfl, closed⟩
  exact ⟨rfl, kept rest (word ++ skip) rfl closed⟩

/-- Text without brackets may stand around a text with its strays at keywords. -/
theorem StraysAtKeywords.surround {front text back : Text} (strays : StraysAtKeywords text)
    (before : ∀ c ∈ front, isBracket c = false) (after : ∀ c ∈ back, isBracket c = false) :
    StraysAtKeywords (front ++ text ++ back) := by
  have frontFree := balanced_iff.mp (balanced_of_free before)
  have backFree := balanced_iff.mp (balanced_of_free after)
  constructor
  · intro left right same closed
    rw [List.append_assoc] at same
    rcases Text.append_eq_append_cons same with ⟨between, rfl, -⟩ | ⟨between, rfl, inside⟩
    · exact absurd (before ')' (by simp)) (by decide)
    rcases Text.append_eq_append_cons inside with ⟨rest, rfl, rfl⟩ | ⟨rest, -, rfl⟩
    · have fewer := unclosed_le_append front between
      refine (strays.closing between rest rfl (by omega)).append fun _ more _ opened => ?_
      rw [unopened_append]
      omega
    · exact absurd (after ')' (by simp)) (by decide)
  · intro left right same opened
    rw [List.append_assoc] at same
    rcases Text.append_eq_append_cons same with ⟨between, rfl, -⟩ | ⟨between, rfl, inside⟩
    · exact absurd (before '(' (by simp)) (by decide)
    rcases Text.append_eq_append_cons inside with ⟨rest, rfl, rfl⟩ | ⟨rest, -, rfl⟩
    · have fewer := unopened_le_append rest back
      refine (strays.opening between rest rfl (by omega)).prepend fun more _ _ closed => ?_
      rw [unclosed_append]
      omega
    · exact absurd (after '(' (by simp)) (by decide)

/-- Trimming takes no strays away. -/
theorem StraysAtKeywords.of_trim {text : Text} (strays : StraysAtKeywords text.trim) :
    StraysAtKeywords text := by
  obtain ⟨front, back, split, before, after⟩ := text.exists_eq_trim
  rw [split]
  exact strays.surround (fun c mem => isBracket_of_isBlank (before c mem))
    fun c mem => isBracket_of_isBlank (after c mem)

/-! ## Abridged texts -/

variable {names : Text → Text → Prop} {full short : Text}

/-- What may stand at a boundary is found in the full text. -/
theorem KeywordAhead.of_short (abridges : Abridges names full short) (ahead : KeywordAhead short) :
    KeywordAhead full := by
  obtain ⟨junction, skip, word, d, rest, rfl, skipped, written, next⟩ := ahead
  have other : Marker.isMark d = false := by
    rcases next with blank | ⟨rfl, -⟩
    · exact isMark_of_isBlank blank
    · rfl
  obtain ⟨left, right, rfl, first, further⟩ := abridges.split_short_char other
  have unmarked : '@' ∉ skip ++ word := fun mem => by
    rcases List.mem_append.mp mem with early | late
    · exact absurd (Junction.isMark_of_leads (skipped _ early)) (by decide)
    · exact absurd (Junction.isAlpha_of_mem written _ late) (by decide)
  obtain rfl := first.eq_of_unmarked unmarked
  refine ⟨junction, skip, word, d, right, by simp, skipped, written, next.imp_right ?_⟩
  rintro ⟨rfl, opened⟩
  exact ⟨rfl, by rw [further.unmatched_eq.1, opened]⟩

/-- What may stand at a boundary is found in the abridged text. -/
theorem KeywordAhead.to_short (abridges : Abridges names full short) (ahead : KeywordAhead full) :
    KeywordAhead short := by
  obtain ⟨junction, skip, word, d, rest, rfl, skipped, written, next⟩ := ahead
  have unopening : '(' ∉ skip ++ word := fun mem => by
    rcases List.mem_append.mp mem with early | late
    · exact absurd (skipped _ early) (by decide)
    · exact absurd (Junction.isAlpha_of_mem written _ late) (by decide)
  have after : unclosed [d] = 0 ∨ unopened rest = 0 := by
    rcases next with blank | ⟨-, opened⟩
    · refine .inl (unclosed_eq_zero_of_not_mem fun mem => ?_)
      rw [← List.mem_singleton.mp mem] at blank
      exact absurd blank (by decide)
    · exact .inr opened
  obtain ⟨front, back, rfl, first, further⟩ :=
    abridges.split_full_char (.inl (unclosed_eq_zero_of_not_mem unopening)) after
  obtain rfl := first.eq_of_unbracketed unopening
  refine ⟨junction, skip, word, d, back, by simp, skipped, written, next.imp_right ?_⟩
  rintro ⟨rfl, opened⟩
  exact ⟨rfl, by rw [← further.unmatched_eq.1, opened]⟩

/-- What may stand at a boundary before it is found in the full text. -/
theorem KeywordBehind.of_short (abridges : Abridges names full short)
    (behind : KeywordBehind short) : KeywordBehind full := by
  obtain ⟨junction, rest, c, word, skip, rfl, skipped, written, last⟩ := behind
  have other : Marker.isMark c = false := by
    rcases last with blank | ⟨rfl, -⟩
    · exact isMark_of_isBlank blank
    · rfl
  obtain ⟨left, right, rfl, first, further⟩ := abridges.split_short_char other
  have unmarked : '@' ∉ word ++ skip := fun mem => by
    rcases List.mem_append.mp mem with early | late
    · exact absurd (Junction.isAlpha_of_mem written _ early) (by decide)
    · exact absurd (Junction.isMark_of_trails (skipped _ late)) (by decide)
  obtain rfl := further.eq_of_unmarked unmarked
  refine ⟨junction, left, c, word, skip, rfl, skipped, written, last.imp_right ?_⟩
  rintro ⟨rfl, closed⟩
  exact ⟨rfl, by rw [first.unmatched_eq.2, closed]⟩

/-- What may stand at a boundary before it is found in the abridged text. -/
theorem KeywordBehind.to_short (abridges : Abridges names full short)
    (behind : KeywordBehind full) : KeywordBehind short := by
  obtain ⟨junction, rest, c, word, skip, rfl, skipped, written, last⟩ := behind
  have unclosing : ')' ∉ word ++ skip := fun mem => by
    rcases List.mem_append.mp mem with early | late
    · exact absurd (Junction.isAlpha_of_mem written _ early) (by decide)
    · exact absurd (skipped _ late) (by decide)
  have none := unopened_eq_zero_of_not_mem unclosing
  have before : unclosed rest = 0 ∨ unopened (c :: (word ++ skip)) = 0 := by
    rcases last with blank | ⟨-, closed⟩
    · refine .inr (unopened_eq_zero_of_not_mem fun mem => ?_)
      rcases List.mem_cons.mp mem with rfl | later
      · exact absurd blank (by decide)
      · exact unclosing later
    · exact .inl closed
  obtain ⟨front, back, rfl, first, further⟩ := abridges.split_full_char before (.inr none)
  obtain rfl := further.eq_of_unclosing unclosing
  refine ⟨junction, front, c, word, skip, rfl, skipped, written, last.imp_right ?_⟩
  rintro ⟨rfl, closed⟩
  exact ⟨rfl, by rw [← first.unmatched_eq.2, closed]⟩

/-- A text has its strays at keywords exactly if its abridgements have. -/
theorem Abridges.straysAtKeywords_iff (abridges : Abridges names full short) :
    StraysAtKeywords full ↔ StraysAtKeywords short := by
  constructor
  · intro strays
    constructor
    · rintro before after rfl closed
      obtain ⟨left, right, rfl, first, further⟩ := abridges.split_short_char rfl
      rw [← first.unmatched_eq.2] at closed
      exact (strays.closing left right rfl closed).to_short further
    · rintro before after rfl opened
      obtain ⟨left, right, rfl, first, further⟩ := abridges.split_short_char rfl
      rw [← further.unmatched_eq.1] at opened
      exact (strays.opening left right rfl opened).to_short first
  · intro strays
    constructor
    · rintro before after rfl closed
      obtain ⟨front, back, rfl, first, further⟩ := abridges.split_full_char (.inl closed) (.inl rfl)
      rw [first.unmatched_eq.2] at closed
      exact (strays.closing front back rfl closed).of_short further
    · rintro before after rfl opened
      have none : unopened ('(' :: after) = 0 := by simp [unopened, opened]
      obtain ⟨front, back, rfl, first, further⟩ :=
        abridges.split_full_char (.inr none) (.inr opened)
      rw [further.unmatched_eq.1] at opened
      exact (strays.opening front back rfl opened).of_short first

/-! ## Operands and the boundaries between them -/

/-- What stands before an opening bracket of a parted text leaves no closing one after it. -/
theorem Bracket.Parted.unopened_eq_zero {text : Text} (parted : Parted text) (before after : Text)
    (same : text = before ++ '(' :: after) : unopened after = 0 :=
  unopened_eq_zero_of_not_mem (parted before after same)

/-- What stands before a closing bracket of a parted text opens none. -/
theorem Bracket.Parted.unclosed_eq_zero {text : Text} (parted : Parted text) (before after : Text)
    (same : text = before ++ ')' :: after) : unclosed before = 0 := by
  apply unclosed_eq_zero_of_not_mem
  intro mem
  obtain ⟨front, back, rfl⟩ := List.append_of_mem mem
  exact parted front (back ++ ')' :: after) (by simp [same]) (by simp)

/-- A parted text without unopened brackets closes none. -/
theorem Bracket.Parted.unopened_eq_zero_iff {text : Text} (parted : Parted text) :
    unopened text = 0 ↔ ')' ∉ text := by
  refine ⟨fun none mem => ?_, unopened_eq_zero_of_not_mem⟩
  obtain ⟨before, after, rfl⟩ := List.append_of_mem mem
  have closed := parted.unclosed_eq_zero before after rfl
  have one : unopened (')' :: after) = unopened after + 1 := rfl
  rw [unopened_append] at none
  omega

/-- A parted text without unclosed brackets opens none. -/
theorem Bracket.Parted.unclosed_eq_zero_iff {text : Text} (parted : Parted text) :
    unclosed text = 0 ↔ '(' ∉ text := by
  refine ⟨fun none mem => ?_, unclosed_eq_zero_of_not_mem⟩
  obtain ⟨before, after, rfl⟩ := List.append_of_mem mem
  have opened := parted.unopened_eq_zero before after rfl
  have one : unclosed ('(' :: after) = unclosed after + 1 := by simp [unclosed, opened]
  rw [unclosed_append] at none
  omega

/-- A parted balanced text has no brackets. -/
theorem Bracket.Parted.free_of_balanced {text : Text} (parted : Parted text)
    (balanced : Balanced text) : ∀ c ∈ text, isBracket c = false := by
  obtain ⟨opened, closed⟩ := balanced_iff.mp balanced
  exact free_of_not_mem (parted.unclosed_eq_zero_iff.mp closed)
    (parted.unopened_eq_zero_iff.mp opened)

namespace Junction

variable {junction : Junction} {before lead word trail after : Text}

/-- The brackets of a boundary are closing ones before the keyword and opening ones after it. -/
theorem IsBoundary.bracket_cases (boundary : junction.IsBoundary lead word trail)
    {left right : Text} {c : Char} (same : lead ++ word ++ trail = left ++ c :: right)
    (bracket : isBracket c = true) :
    (c = ')' ∧ ∃ skip, right = skip ++ (word ++ trail) ∧ ∀ d ∈ skip, leads d = true) ∨
      c = '(' ∧ ∃ skip, left = lead ++ (word ++ skip) ∧ ∀ d ∈ skip, trails d = true := by
  rw [List.append_assoc] at same
  rcases Text.append_eq_append_cons same with ⟨skip, rfl, rfl⟩ | ⟨further, rfl, tail⟩
  · rcases leads_iff.mp (boundary.leading c (by simp)) with rfl | blank
    · exact .inl ⟨rfl, skip, rfl, fun d mem => boundary.leading d (by simp [mem])⟩
    · rw [isBracket_of_isBlank blank] at bracket
      contradiction
  rcases Text.append_eq_append_cons tail with ⟨rest, rfl, rfl⟩ | ⟨skip, rfl, rfl⟩
  · rw [isBracket_of_isAlpha (isAlpha_of_mem boundary.written c (by simp))] at bracket
    contradiction
  · rcases trails_iff.mp (boundary.trailing c (by simp)) with rfl | blank
    · exact .inr ⟨rfl, skip, rfl, fun d mem => boundary.trailing d (by simp [mem])⟩
    · rw [isBracket_of_isBlank blank] at bracket
      contradiction

/-- The keyword of a boundary is ahead of what leads up to it. -/
theorem IsBoundary.keywordAhead (boundary : junction.IsBoundary lead word trail) {skip : Text}
    (skipped : ∀ c ∈ skip, leads c = true)
    (kept : ∀ front back, word ++ trail ++ after = front ++ '(' :: back → unopened back = 0) :
    KeywordAhead (skip ++ (word ++ trail) ++ after) := by
  cases trail with
  | nil => exact absurd rfl boundary.unfinished
  | cons d trail =>
    refine ⟨junction, skip, word, d, trail ++ after, by simp, skipped, boundary.written, ?_⟩
    apply (trails_iff.mp (boundary.trailing d (by simp))).symm.imp_right
    rintro rfl
    exact ⟨rfl, kept word (trail ++ after) (by simp)⟩

/-- The keyword of a boundary is behind what trails it. -/
theorem IsBoundary.keywordBehind (boundary : junction.IsBoundary lead word trail) {skip : Text}
    (skipped : ∀ c ∈ skip, trails c = true)
    (kept : ∀ front back, before ++ lead ++ word = front ++ ')' :: back → unclosed front = 0) :
    KeywordBehind (before ++ (lead ++ (word ++ skip))) := by
  rcases List.eq_nil_or_concat lead with rfl | ⟨lead, c, rfl⟩
  · exact absurd rfl boundary.begun
  · refine ⟨junction, before ++ lead, c, word, skip, by simp, skipped, boundary.written, ?_⟩
    apply (leads_iff.mp (boundary.leading c (by simp))).symm.imp_right
    rintro rfl
    exact ⟨rfl, kept (before ++ lead) word (by simp)⟩

/-- A parted text of operands has its strays at keywords if every operand has: the brackets of a
boundary stand at its keyword. -/
theorem Separates.straysAtKeywords {text : Text} {segments : List Text}
    (separates : junction.Separates text segments) (parted : Parted text)
    (strays : ∀ segment ∈ segments, StraysAtKeywords segment) : StraysAtKeywords text := by
  induction separates with
  | last text => exact strays text (by simp)
  | @cons before lead word trail after segments boundary further ih =>
    have first := strays before (by simp)
    have rest := ih (fun front back same => parted (before ++ (lead ++ word ++ trail) ++ front) back
      (by simp [same])) fun segment mem => strays segment (by simp [mem])
    constructor
    · intro left right same closed
      rcases Text.append_eq_append_cons same with ⟨between, inside, rfl⟩ | ⟨between, rfl, rfl⟩
      · rcases Text.append_eq_append_cons inside with ⟨more, rfl, rfl⟩ | ⟨more, rfl, here⟩
        · rw [List.append_assoc]
          refine (first.closing left more rfl closed).append fun x y within _ => ?_
          exact parted.unopened_eq_zero (left ++ ')' :: x) _ (by simp [within])
        · rcases boundary.bracket_cases here rfl with ⟨-, skip, rfl, skipped⟩ | ⟨wrong, -⟩
          · apply boundary.keywordAhead skipped
            intro x y within
            exact parted.unopened_eq_zero (before ++ lead ++ x) _ (by simp [within])
          · exact absurd wrong (by decide)
      · have fewer := unclosed_le_append (before ++ (lead ++ word ++ trail)) between
        refine rest.closing between right rfl (by omega)
    · intro left right same opened
      rcases Text.append_eq_append_cons same with ⟨between, inside, rfl⟩ | ⟨between, rfl, rfl⟩
      · have fewer := unopened_le_append between after
        rcases Text.append_eq_append_cons inside with ⟨more, rfl, rfl⟩ | ⟨more, rfl, here⟩
        · have still := unopened_le_append more (lead ++ word ++ trail)
          exact first.opening left more rfl (by omega)
        · rcases boundary.bracket_cases here rfl with ⟨wrong, -⟩ | ⟨-, skip, rfl, skipped⟩
          · exact absurd wrong (by decide)
          · apply boundary.keywordBehind skipped
            intro x y within
            have joined := congrArg (· ++ (trail ++ after)) within
            exact parted.unclosed_eq_zero x (y ++ (trail ++ after)) (by simpa using joined)
      · refine (rest.opening between right rfl opened).prepend fun x y within _ => ?_
        exact parted.unclosed_eq_zero _ (y ++ '(' :: right) (by simp [within])

end Junction

end AccessRules
