import AccessRules.Proofs.Grammar.Expression
import AccessRules.Proofs.Rule.PlainSpaces
import AccessRules.Proofs.Rule.Storage

/-!
# Written forms

What holds of every written form of an expression: it is trimmed, balanced and clean, its brackets
nest no deeper than the expression is high, and it is one group only if the expression is one.
Reading tabs and line ends as spaces gives another written form of the same expression.
-/
namespace AccessRules

open AccessRules.Bracket

/-! ## Separators and keywords -/

/-- There are four separators. -/
theorem isSeparator_iff {c : Char} :
    isSeparator c = true ↔ c = ' ' ∨ c = '\t' ∨ c = '\n' ∨ c = '\r' := by
  simp [isSeparator, or_assoc]

/-- Separators are blanks. -/
theorem isBlank_of_isSeparator {c : Char} (separator : isSeparator c = true) :
    Text.isBlank c = true := by
  rcases isSeparator_iff.mp separator with rfl | rfl | rfl | rfl <;> decide

/-- The character belongs to a keyword or to a gap. -/
def IsFiller (c : Char) : Prop := c.isAlpha = true ∨ Text.isBlank c = true

/-- What belongs to a keyword or to a gap is no bracket. -/
theorem IsFiller.isBracket {c : Char} (filler : IsFiller c) : isBracket c = false := by
  rcases filler with alpha | blank
  · exact isBracket_of_isAlpha alpha
  · exact isBracket_of_isBlank blank

/-- What belongs to a keyword or to a gap is no part of a marker and no bracket. -/
theorem IsFiller.ne {c : Char} (filler : IsFiller c) :
    c ≠ '@' ∧ c ≠ '<' ∧ c ≠ '>' ∧ c ≠ '(' := by
  have mark : Marker.isMark c = false := by
    rcases filler with alpha | blank
    · exact isMark_of_isAlpha alpha
    · exact isMark_of_isBlank blank
  have bracket := filler.isBracket
  refine ⟨?_, ?_, ?_, ?_⟩ <;> rintro rfl
  · exact absurd mark (by decide)
  · exact absurd mark (by decide)
  · exact absurd mark (by decide)
  · exact absurd bracket (by decide)

/-- A clean text is clean with a keyword or gap before it. -/
theorem isClean_append {front text : Text} (filler : ∀ c ∈ front, IsFiller c)
    (clean : IsClean text) : IsClean (front ++ text) := by
  apply clean.append_left
  intro c mem
  have other := (filler c mem).ne
  exact ⟨other.1, other.2.2.1⟩

/-- A written negation has letters. -/
theorem filled_of_negation {word : Text} (written : word.lower = "not".toList) : word ≠ [] := by
  rintro rfl
  exact absurd written (by decide)

/-- A text whose first word is not the one for negation does not begin with a negation. -/
theorem afterWord?_of_affirmative {text : Text}
    (affirmative : ∀ part ∈ text.words.head?, part.lower ≠ "not".toList) :
    Text.afterWord? "not ".toList text = none := by
  cases found : Text.afterWord? "not ".toList text with
  | none => rfl
  | some rest =>
    obtain ⟨written, rfl, lower⟩ := Text.afterWord?_eq_some_iff.mp found
    obtain ⟨first, rfl, negates⟩ := eq_append_space_of_lower lower
    have solid := solid_of_negation negates
    have words : Text.words (first ++ [' '] ++ rest) = first :: rest.words := by
      rw [List.append_assoc, List.singleton_append, Text.words_append_blank (by decide),
        Text.words_of_solid (filled_of_negation negates) solid, List.singleton_append]
    exact absurd negates (affirmative first (by rw [words]; rfl))

/-- A text whose first word is not the one for negation is not that word. -/
theorem sameWord_of_affirmative {text : Text}
    (affirmative : ∀ part ∈ text.words.head?, part.lower ≠ "not".toList) :
    Text.sameWord text "not".toList = false := by
  by_contra same
  have lower : text.lower = "not".toList := by
    rw [Bool.not_eq_false, Text.sameWord, beq_iff_eq] at same
    exact same
  have alone := Text.words_of_solid (filled_of_negation lower) (solid_of_negation lower)
  exact affirmative text (by simp [alone]) lower

namespace Expression

variable {gap : Char → Bool} {expression : Expression} {text : Text}

/-- Characters of the kind are blanks. -/
def IsGap (gap : Char → Bool) : Prop := ∀ c, gap c = true → Text.isBlank c = true

/-- Gaps consist of blanks. -/
theorem IsGap.isBlank {blanks : Text} (separates : IsGap gap)
    (gaps : ∀ c ∈ blanks, gap c = true) : ∀ c ∈ blanks, Text.isBlank c = true :=
  fun c mem => separates c (gaps c mem)

/-- Gaps have no brackets. -/
theorem IsGap.isBracket {blanks : Text} (separates : IsGap gap)
    (gaps : ∀ c ∈ blanks, gap c = true) : ∀ c ∈ blanks, isBracket c = false :=
  fun c mem => isBracket_of_isBlank (separates.isBlank gaps c mem)

/-- A link consists of a keyword and gaps. -/
theorem IsLink.filler {junction : Junction} {before word after : Text} (separates : IsGap gap)
    (link : IsLink gap junction before word after) : ∀ c ∈ before ++ word ++ after, IsFiller c := by
  intro c mem
  rcases List.mem_append.mp mem with front | last
  · rcases List.mem_append.mp front with first | inside
    · exact .inr (separates c (link.gaps c (List.mem_append_left _ first)))
    · exact .inl (Junction.isAlpha_of_mem link.written c inside)
  · exact .inr (separates c (link.gaps c (List.mem_append_right _ last)))

/-- A negation and the gap after it consist of a keyword and gaps. -/
theorem filler_of_negation {word space : Text} (separates : IsGap gap)
    (written : word.lower = "not".toList) (gaps : ∀ c ∈ space, gap c = true) :
    ∀ c ∈ word ++ space, IsFiller c := by
  intro c mem
  rcases List.mem_append.mp mem with first | last
  · exact .inl (isAlpha_of_negation written c first)
  · exact .inr (separates c (gaps c last))

/-! ## Brackets -/

/-- A token has no brackets. -/
theorem IsToken.isBracket {word : Text} (valid : IsToken word) :
    ∀ c ∈ word, isBracket c = false := by
  intro c mem
  obtain ⟨opens, closes, -⟩ := valid.plain c mem
  simp [Bracket.isBracket, opens, closes]

namespace Renders

/-- Brackets around a balanced text make a group, with gaps or without. -/
theorem isGroup_surround {before inside after : Text} (separates : IsGap gap)
    (gaps : ∀ c ∈ before ++ after, gap c = true) (balanced : Balanced inside) :
    IsGroup ('(' :: (before ++ inside ++ after) ++ [')']) := by
  have free := separates.isBracket gaps
  have front := balanced_of_free fun c mem => free c (List.mem_append_left after mem)
  have back := balanced_of_free fun c mem => free c (List.mem_append_right before mem)
  exact ⟨_, rfl, (front.append balanced).append back⟩

/-- Written forms are balanced. -/
theorem balanced (separates : IsGap gap) (renders : Renders gap expression text) :
    Balanced text := by
  have free : ∀ {part : Text}, (∀ c ∈ part, IsFiller c) → Balanced part :=
    fun filler => balanced_of_free fun c mem => (filler c mem).isBracket
  induction renders with
  | token valid => exact balanced_of_free valid.isBracket
  | vacant gaps => exact (isGroup_of_free (separates.isBracket gaps)).balanced
  | group gaps inside ih => exact (isGroup_surround separates gaps ih).balanced
  | negation written filled gaps unary further ih =>
    exact (free (filler_of_negation separates written gaps)).append ih
  | pair link left tight right tight_right first second =>
    exact (first.append (free (link.filler separates))).append second
  | more link left tight right first second =>
    exact (first.append (free (link.filler separates))).append second

/-- Written forms have characters and no blanks at their ends. -/
theorem filled_and_trimmed (renders : Renders gap expression text) :
    text ≠ [] ∧ text.IsTrimmed := by
  have group : ∀ inside : Text, Text.IsTrimmed ('(' :: inside ++ [')']) :=
    Text.isTrimmed_between (by decide) (by decide)
  induction renders with
  | @token word valid =>
    have trimmed := word.isTrimmed_trim
    rw [valid.trimmed] at trimmed
    exact ⟨valid.filled, trimmed⟩
  | vacant gaps => exact ⟨by simp, group _⟩
  | group gaps inside ih => exact ⟨by simp, group _⟩
  | @negation operand word space rest written filled gaps unary further ih =>
    have trimmed : word.IsTrimmed := Text.isTrimmed_of_solid (solid_of_negation written)
    exact ⟨by simp [ih.1], trimmed.append (filled_of_negation written) ih.2 ih.1 space⟩
  | pair link left tight right tight_right first second =>
    exact ⟨by simp [first.1], first.2.append first.1 second.2 second.1 _⟩
  | more link left tight right first second =>
    exact ⟨by simp [first.1], first.2.append first.1 second.2 second.1 _⟩

/-- A balanced text with another one after it is no group. -/
theorem not_isGroup_append {front back : Text} (balanced : Balanced front) (begun : front ≠ [])
    (ended : back ≠ []) : ¬IsGroup (front ++ back) :=
  fun group => (group.open_of_append begun ended).1 (balanced_iff.mp balanced).2

/-- Only an expression in brackets is written as one group. -/
theorem eq_bracketed (separates : IsGap gap) (renders : Renders gap expression text)
    (group : IsGroup text) : expression = .vacant ∨ ∃ inner, expression = .group inner := by
  cases renders with
  | token valid =>
    obtain ⟨inner, rfl, -⟩ := group
    exact absurd (valid.isBracket '(' (by simp)) (by decide)
  | vacant gaps => exact .inl rfl
  | group gaps inside => exact .inr ⟨_, rfl⟩
  | negation written filled gaps unary further =>
    have filler := filler_of_negation separates written gaps
    have free := balanced_of_free fun c mem => (filler c mem).isBracket
    have ended := further.filled_and_trimmed.1
    exact absurd group (not_isGroup_append free (by simp [filled]) ended)
  | pair link left tight right tight_right =>
    have begun := left.filled_and_trimmed.1
    have ended := right.filled_and_trimmed.1
    rw [List.append_assoc] at group
    exact absurd group (not_isGroup_append (balanced separates left) begun (by simp [ended]))
  | more link left tight right =>
    have begun := left.filled_and_trimmed.1
    have ended := right.filled_and_trimmed.1
    rw [List.append_assoc] at group
    exact absurd group (not_isGroup_append (balanced separates left) begun (by simp [ended]))

/-- Between the brackets of an empty pair are gaps. -/
theorem gaps_of_vacant {inside : Text} (renders : Renders gap .vacant ('(' :: inside ++ [')'])) :
    ∀ c ∈ inside, gap c = true := by
  generalize whole : '(' :: inside ++ [')'] = text at renders
  cases renders with
  | vacant gaps =>
    rw [List.append_cancel_right (List.cons.inj whole).2]
    exact gaps

/-- Between the brackets of an expression stands a written form of it, with gaps around. -/
theorem trim_of_group {inner : Expression} {inside : Text} (separates : IsGap gap)
    (renders : Renders gap (.group inner) ('(' :: inside ++ [')'])) :
    Renders gap inner (Text.trim inside) := by
  generalize whole : '(' :: inside ++ [')'] = text at renders
  cases renders with
  | @group _ before middle after gaps further =>
    have blank := separates.isBlank gaps
    rw [List.append_cancel_right (List.cons.inj whole).2, further.filled_and_trimmed.2.trim_eq
      (fun c mem => blank c (List.mem_append_left after mem))
      (fun c mem => blank c (List.mem_append_right before mem))]
    exact further

/-! ## Markers -/

/-- Clean texts are clean with a link between them. -/
theorem isClean_link {junction : Junction} {front before word after back : Text}
    (separates : IsGap gap) (link : IsLink gap junction before word after) (first : IsClean front)
    (second : IsClean back) : IsClean (front ++ (before ++ word ++ after) ++ back) := by
  have filler := link.filler separates
  cases before with
  | nil => exact absurd rfl link.leading
  | cons c before =>
    have blank : Text.isBlank c = true := separates c (link.gaps c (by simp))
    have rest : IsClean (before ++ word ++ after ++ back) :=
      isClean_append (fun d mem => filler d (List.mem_cons_of_mem c mem)) second
    have whole := first.join rest (filler c (by simp)).ne (isDecimalDigit_of_isBlank blank)
    simpa using whole

/-- A clean text is clean with keywords and gaps around it. -/
theorem isClean_surround {before inside after : Text} (filler : ∀ c ∈ before ++ after, IsFiller c)
    (clean : IsClean inside) : IsClean (before ++ inside ++ after) := by
  have front : IsClean (before ++ inside) :=
    isClean_append (fun c mem => filler c (List.mem_append_left after mem)) clean
  apply front.append_right
  intro c mem
  have other := (filler c (List.mem_append_right before mem)).ne
  exact ⟨other.1, other.2.2.2⟩

/-- A clean text in brackets is clean, with gaps or without. -/
theorem isClean_group {before inside after : Text} (separates : IsGap gap)
    (gaps : ∀ c ∈ before ++ after, gap c = true) (clean : IsClean inside) :
    IsClean ('(' :: (before ++ inside ++ after) ++ [')']) := by
  have whole := isClean_surround (fun c mem => .inr (separates c (gaps c mem))) clean
  have closes : ∀ c ∈ [')'], c ≠ '@' ∧ c ≠ '(' := List.forall_mem_singleton.mpr (by decide)
  exact (whole.append_right closes).cons (by decide) (by decide)

/-- Written forms are clean. -/
theorem isClean (separates : IsGap gap) (renders : Renders gap expression text) :
    IsClean text := by
  induction renders with
  | token valid =>
    apply isClean_of_find? valid.unmarked
    intro touching
    have opens := valid.isBracket '(' (touching.subset (by simp))
    exact absurd opens (by decide)
  | @vacant inside gaps =>
    have none : IsClean [] := isClean_of_find? rfl (by simp)
    have whole : IsClean ('(' :: (inside ++ [] ++ []) ++ [')']) :=
      isClean_group separates (by simpa using gaps) none
    rwa [List.append_nil, List.append_nil] at whole
  | group gaps inside ih => exact isClean_group separates gaps ih
  | negation written filled gaps unary further ih =>
    exact isClean_append (filler_of_negation separates written gaps) ih
  | pair link left tight right tight_right first second =>
    exact isClean_link separates link first second
  | more link left tight right first second => exact isClean_link separates link first second

/-! ## Nesting -/

/-- Texts with a link between them nest brackets as deep as the deeper one does. -/
theorem nestingFrom_link {junction : Junction} {left right : Nat}
    {front before word after back : Text} (separates : IsGap gap)
    (link : IsLink gap junction before word after)
    (first : ∀ depth rest, nestingFrom depth (front ++ rest) ≤
      max (depth + left) (nestingFrom depth rest))
    (second : ∀ depth rest, nestingFrom depth (back ++ rest) ≤
      max (depth + right) (nestingFrom depth rest)) (depth : Nat) (rest : Text) :
    nestingFrom depth (front ++ (before ++ word ++ after) ++ back ++ rest) ≤
      max (depth + max left right) (nestingFrom depth rest) := by
  have free := fun c mem => (link.filler separates c mem).isBracket
  have early := first depth ((before ++ word ++ after) ++ (back ++ rest))
  have late := second depth rest
  rw [nestingFrom_free_append free] at early
  rw [List.append_assoc, List.append_assoc]
  omega

/-- A written form nests brackets no deeper than the expression is high. -/
theorem nestingFrom_append_le (separates : IsGap gap) (renders : Renders gap expression text)
    (depth : Nat) (rest : Text) :
    nestingFrom depth (text ++ rest) ≤
      max (depth + expression.height) (nestingFrom depth rest) := by
  induction renders generalizing depth rest with
  | token valid =>
    rw [nestingFrom_free_append valid.isBracket]
    exact Nat.le_max_right _ _
  | @vacant inside gaps =>
    have skipped : nestingFrom (depth + 1) (inside ++ ')' :: rest) = nestingFrom depth rest := by
      rw [nestingFrom_free_append (separates.isBracket gaps)]
      rfl
    simp [nestingFrom, height, skipped]
  | @group inner before middle after gaps inside ih =>
    have free := separates.isBracket gaps
    have front := fun c mem => free c (List.mem_append_left after mem)
    have back := fun c mem => free c (List.mem_append_right before mem)
    have closed : nestingFrom (depth + 1) (after ++ ')' :: rest) = nestingFrom depth rest := by
      rw [nestingFrom_free_append back]
      rfl
    have deep := ih (depth + 1) (after ++ ')' :: rest)
    have opened : '(' :: (before ++ middle ++ after) ++ [')'] ++ rest =
        '(' :: (before ++ (middle ++ (after ++ ')' :: rest))) := by simp
    rw [opened, nestingFrom, if_pos rfl, nestingFrom_free_append front, height]
    omega
  | negation written filled gaps unary further ih =>
    have free := fun c mem => (filler_of_negation separates written gaps c mem).isBracket
    have deep := ih depth rest
    rw [List.append_assoc, nestingFrom_free_append free, height]
    omega
  | pair link left tight right tight_right first second =>
    have deep := nestingFrom_link separates link first second depth rest
    simp only [height, heightOfAll]
    omega
  | more link left tight right first second =>
    have deep := nestingFrom_link separates link first second depth rest
    simp only [height, heightOfAll] at deep ⊢
    omega

/-- The operands of a junction nest brackets as deep as the highest of them at most. -/
theorem nestingFrom_joined_le (separates : IsGap gap) {junction : Junction} {first : Expression}
    {further : List Expression} (renders : Renders gap (.joined junction first further) text)
    (depth : Nat) (rest : Text) :
    nestingFrom depth (text ++ rest) ≤
      max (depth + heightOfAll (first :: further)) (nestingFrom depth rest) := by
  -- The induction is on the operands from the left.
  generalize whole : joined junction first further = expression at renders
  induction renders generalizing first further depth rest with
  | token => contradiction
  | vacant => contradiction
  | group => contradiction
  | negation => contradiction
  | pair link left tight right tight_right =>
    obtain ⟨rfl, rfl, rfl⟩ := joined.inj whole
    have deep := nestingFrom_link separates link (left.nestingFrom_append_le separates)
      (right.nestingFrom_append_le separates) depth rest
    simp only [heightOfAll]
    omega
  | more link left tight right ih_left ih =>
    obtain ⟨rfl, rfl, rfl⟩ := joined.inj whole
    have deep := nestingFrom_link separates link (left.nestingFrom_append_le separates)
      (fun depth rest => ih depth rest rfl) depth rest
    rw [heightOfAll]
    omega

/-- Gaps around a written form nest no brackets. -/
theorem nesting_le {before after : Text} (separates : IsGap gap)
    (renders : Renders gap expression text) (gaps : ∀ c ∈ before ++ after, gap c = true) :
    nesting (before ++ text ++ after) ≤ expression.height := by
  have free := separates.isBracket gaps
  have front := fun c mem => free c (List.mem_append_left after mem)
  have back := fun c mem => free c (List.mem_append_right before mem)
  have deep := renders.nestingFrom_append_le separates 0 after
  have flat : nestingFrom 0 after = 0 := by
    rw [← List.append_nil after, nestingFrom_free_append back]
    rfl
  rw [nesting, List.append_assoc, nestingFrom_free_append front]
  omega

/-- A written form nests brackets no deeper than the expression is high. -/
theorem nesting_self_le (separates : IsGap gap) (renders : Renders gap expression text) :
    nesting text ≤ expression.height := by
  have deep : nesting ([] ++ text ++ []) ≤ expression.height :=
    renders.nesting_le separates (by simp)
  rwa [List.nil_append, List.append_nil] at deep

/-- Brackets nest less deep than the expression is high, those around the whole apart. -/
theorem nestsWithin (separates : IsGap gap) (renders : Renders gap expression text) :
    NestsWithin text text (expression.height - 1) := by
  have deep := renders.nesting_self_le separates
  have bracketed : IsGroup text → NestsWithin text text (expression.height - 1) :=
    fun group => .inr ⟨group, by omega⟩
  have operands : ∀ {junction : Junction} {first : Expression} {further : List Expression},
      Renders gap (.joined junction first further) text →
      nesting text ≤ (joined junction first further).height - 1 := fun renders => by
    have operands := renders.nestingFrom_joined_le separates 0 []
    rwa [List.append_nil, Nat.zero_add, nestingFrom, Nat.max_zero] at operands
  cases renders with
  | token valid => exact .inl deep
  | vacant gaps => exact bracketed (isGroup_of_free (separates.isBracket gaps))
  | group gaps inside =>
    exact bracketed (isGroup_surround separates gaps (inside.balanced separates))
  | @negation operand word space rest written filled gaps unary further =>
    have free := fun c mem => (filler_of_negation separates written gaps c mem).isBracket
    refine .inl ?_
    rw [nesting, nestingFrom_free_append free]
    exact further.nesting_self_le separates
  | pair link left tight right tight_right =>
    exact .inl (operands (.pair link left tight right tight_right))
  | more link left tight right => exact .inl (operands (.more link left tight right))

end Renders

/-! ## Plain spaces -/

/-- Words of letters are read as they are. -/
theorem map_plainSpace_of_isAlpha {word : Text} (letters : ∀ c ∈ word, c.isAlpha = true) :
    word.map plainSpace = word := by
  refine map_plainSpace_eq_self_iff.mpr fun c mem => ⟨?_, ?_, ?_⟩ <;> rintro rfl <;>
    exact absurd (letters _ mem) (by decide)

section

variable {other : Char → Bool}

/-- Gaps are read as gaps of the kind that their characters are read as. -/
theorem gap_of_mem_map (kept : ∀ c, gap c = true → other (plainSpace c) = true) {blanks : Text}
    (gaps : ∀ c ∈ blanks, gap c = true) : ∀ c ∈ blanks.map plainSpace, other c = true := by
  intro c mem
  obtain ⟨d, inside, rfl⟩ := List.mem_map.mp mem
  exact kept d (gaps d inside)

/-- A link is read as one with gaps of the kind that their characters are read as. -/
theorem IsLink.map_gaps (kept : ∀ c, gap c = true → other (plainSpace c) = true)
    {junction : Junction} {before word after : Text}
    (link : IsLink gap junction before word after) :
    IsLink other junction (before.map plainSpace) (word.map plainSpace)
      (after.map plainSpace) := by
  have gaps := gap_of_mem_map kept link.gaps
  rw [List.map_append] at gaps
  have word := map_plainSpace_of_isAlpha (Junction.isAlpha_of_mem link.written)
  exact ⟨by simpa using link.leading, by simpa using link.trailing, gaps,
    by rw [word, link.written]⟩

/-- Read with plain spaces, a written form is one of the same expression, with gaps of the kind
that their characters are read as. -/
theorem Renders.map_gaps (kept : ∀ c, gap c = true → other (plainSpace c) = true)
    (renders : Renders gap expression text) : Renders other expression (text.map plainSpace) := by
  induction renders with
  | @token word valid =>
    have same : word.map plainSpace = word :=
      map_plainSpace_eq_self_iff.mpr fun c mem => (valid.plain c mem).2.2
    rw [same]
    exact .token valid
  | vacant gaps =>
    rw [List.map_append, List.map_cons]
    exact .vacant (gap_of_mem_map kept gaps)
  | group gaps inside ih =>
    rw [List.map_append, List.map_cons, List.map_append, List.map_append]
    have blanks := gap_of_mem_map kept gaps
    rw [List.map_append] at blanks
    exact .group blanks ih
  | negation written filled gaps unary further ih =>
    rw [List.map_append, List.map_append]
    have word := map_plainSpace_of_isAlpha (isAlpha_of_negation written)
    exact .negation (by rwa [word]) (by simpa using filled) (gap_of_mem_map kept gaps) unary ih
  | pair link left tight right tight_right first second =>
    simp only [List.map_append]
    exact .pair (link.map_gaps kept) first tight second tight_right
  | more link left tight right first second =>
    simp only [List.map_append]
    exact .more (link.map_gaps kept) first tight second

end

/-- A separator is read as a space. -/
theorem isSpace_plainSpace {c : Char} (separator : isSeparator c = true) :
    isSpace (plainSpace c) = true := by
  rcases isSeparator_iff.mp separator with rfl | rfl | rfl | rfl <;> decide

/-- Only separators are read as spaces. -/
theorem isSeparator_of_plainSpace {c : Char} (space : plainSpace c = ' ') :
    isSeparator c = true := by
  unfold plainSpace at space
  split at space
  · rename_i blank
    exact isSeparator_iff.mpr (.inr blank)
  · exact isSeparator_iff.mpr (.inl space)

/-- Gaps of separators are read as gaps of spaces. -/
theorem isSpace_of_mem_map {blanks : Text} (gaps : ∀ c ∈ blanks, isSeparator c = true) :
    ∀ c ∈ blanks.map plainSpace, isSpace c = true :=
  gap_of_mem_map (fun _ => isSpace_plainSpace) gaps

/-- Read with plain spaces, a written form with separators is one of the same expression with
spaces. -/
theorem Renders.map_plainSpace (renders : Renders isSeparator expression text) :
    Renders isSpace expression (text.map plainSpace) :=
  renders.map_gaps fun _ => isSpace_plainSpace

end Expression

end AccessRules
