import AccessRules.Proofs.Grammar.Rendering
import AccessRules.Proofs.Rule.OperandSplit

/-!
# Written forms without their groups

When the groups of a written form are taken out, what remains of an expression in brackets is a
marker that names it, and what remains of another one is written like it, with the remains of its
operands. Keywords that remain are those outside groups, so a junction splits what remains of it
into what remains of its operands, and nothing else that remains has its keyword.
-/
namespace AccessRules.Expression

open AccessRules.Bracket Renders

/-- What remains of a written form when its groups are named by markers. -/
inductive Remains (gap : Char → Bool) (names : Text → Text → Prop) :
    Expression → (full short : Text) → Prop where
  | token {word : Text} (valid : IsToken word) : Remains gap names (.token word) word word
  | marker {expression : Expression} {full digits : Text}
      (renders : Renders gap expression full) (rank : expression.rank = 0)
      (group : IsGroup full) (number : Marker.IsNumber digits) (named : names digits full) :
      Remains gap names expression full (Marker.ofDigits digits)
  | negation {operand : Expression} {word space full short : Text}
      (written : word.lower = "not".toList) (filled : space ≠ [])
      (gaps : ∀ c ∈ space, gap c = true) (unary : operand.rank = 0)
      (further : Remains gap names operand full short) :
      Remains gap names (.negation operand) (word ++ space ++ full) (word ++ space ++ short)
  | pair {junction : Junction} {first second : Expression}
      {front before word after back left right : Text}
      (link : IsLink gap junction before word after) (leading : Remains gap names first front left)
      (tight : first.rank < junction.rank) (trailing : Remains gap names second back right)
      (tight_right : second.rank < junction.rank) :
      Remains gap names (.joined junction first [second])
        (front ++ (before ++ word ++ after) ++ back) (left ++ (before ++ word ++ after) ++ right)
  | more {junction : Junction} {first second : Expression} {further : List Expression}
      {front before word after back left right : Text}
      (link : IsLink gap junction before word after) (leading : Remains gap names first front left)
      (tight : first.rank < junction.rank)
      (trailing : Remains gap names (.joined junction second further) back right) :
      Remains gap names (.joined junction first (second :: further))
        (front ++ (before ++ word ++ after) ++ back) (left ++ (before ++ word ++ after) ++ right)

variable {gap : Char → Bool} {names : Text → Text → Prop} {expression : Expression}
  {full short : Text}

/-- Spaces are blanks. -/
theorem separates_space : IsGap isSpace := fun c space => by
  obtain rfl : c = ' ' := by simpa [isSpace] using space
  rfl

/-- A group is abridged to its marker if no bracket is to be left. -/
theorem eq_marker_of_abridges (abridges : Abridges names full short) (group : IsGroup full)
    (free : ∀ c ∈ short, isBracket c = false) :
    ∃ digits, Marker.IsNumber digits ∧ names digits full ∧ short = Marker.ofDigits digits := by
  cases abridges with
  | nil =>
    obtain ⟨inner, same, -⟩ := group
    simp at same
  | char c further =>
    obtain ⟨inner, same, -⟩ := group
    obtain ⟨rfl, -⟩ := List.cons.inj same
    exact absurd (free '(' (by simp)) (by decide)
  | @group digits body full short number inner named further =>
    by_cases ended : full = []
    · subst ended
      obtain rfl := further.eq_nil_iff.mpr rfl
      rw [List.append_nil, List.append_nil]
      exact ⟨digits, number, named, rfl⟩
    · have begun : body ≠ [] := by
        obtain ⟨inside, rfl, -⟩ := inner
        simp
      exact absurd group (Renders.not_isGroup_append inner.balanced begun ended)

/-- Text without brackets after a balanced one is kept between what is left on both sides. -/
theorem split_of_free {left middle right : Text}
    (abridges : Abridges names (left ++ middle ++ right) short) (balanced : Balanced left)
    (free : ∀ c ∈ middle, isBracket c = false) :
    ∃ front back, short = front ++ middle ++ back ∧ Abridges names left front ∧
      Abridges names right back := by
  have settled := balanced_iff.mp (balanced.append (balanced_of_free free))
  obtain ⟨rest, back, rfl, earlier, later⟩ := abridges.split_full (.inl settled.2)
  obtain ⟨front, between, rfl, first, inside⟩ :=
    earlier.split_full (.inl (balanced_iff.mp balanced).2)
  have opens : '(' ∉ middle := fun mem => absurd (free '(' mem) (by decide)
  obtain rfl := inside.eq_of_unbracketed opens
  exact ⟨front, back, rfl, first, later⟩

/-- What is left of a written form without any brackets is what remains of it. -/
theorem Renders.remains (separates : IsGap gap) (renders : Renders gap expression full)
    (abridges : Abridges names full short) (free : ∀ c ∈ short, isBracket c = false) :
    Remains gap names expression full short := by
  -- A group that is not replaced would leave a bracket, so each one is a marker.
  induction renders generalizing short with
  | token valid =>
    obtain rfl := abridges.eq_of_unbracketed fun mem =>
      absurd (valid.isBracket '(' mem) (by decide)
    exact .token valid
  | @vacant inside gaps =>
    have renders : Renders gap .vacant ('(' :: inside ++ [')']) := .vacant gaps
    have group := isGroup_of_free (separates.isBracket gaps)
    obtain ⟨digits, number, named, rfl⟩ := eq_marker_of_abridges abridges group free
    exact .marker renders rfl group number named
  | @group inner before middle after gaps inside ih =>
    have renders : Renders gap (.group inner) ('(' :: (before ++ middle ++ after) ++ [')']) :=
      .group gaps inside
    have group := isGroup_surround separates gaps (inside.balanced separates)
    obtain ⟨digits, number, named, rfl⟩ := eq_marker_of_abridges abridges group free
    exact .marker renders rfl group number named
  | @negation operand word space rest written filled gaps unary further ih =>
    have filler := filler_of_negation separates written gaps
    rw [← List.nil_append (word ++ space)] at abridges
    obtain ⟨front, back, rfl, first, later⟩ := split_of_free abridges (balanced_of_free (by simp))
      fun c mem => (filler c mem).isBracket
    obtain rfl := first.eq_nil_iff.mpr rfl
    exact .negation written filled gaps unary (ih later fun c mem => free c (by simp [mem]))
  | pair link left tight right tight_right first second =>
    obtain ⟨front, back, rfl, earlier, later⟩ := split_of_free abridges
      (left.balanced separates) fun c mem => (link.filler separates c mem).isBracket
    exact .pair link (first earlier fun c mem => free c (by simp [mem])) tight
      (second later fun c mem => free c (by simp [mem])) tight_right
  | more link left tight right first second =>
    obtain ⟨front, back, rfl, earlier, later⟩ := split_of_free abridges
      (left.balanced separates) fun c mem => (link.filler separates c mem).isBracket
    exact .more link (first earlier fun c mem => free c (by simp [mem])) tight
      (second later fun c mem => free c (by simp [mem]))

namespace Remains

/-- What remains is abridged from a written form. -/
theorem renders (remains : Remains gap names expression full short) :
    Renders gap expression full := by
  induction remains with
  | token valid => exact .token valid
  | marker renders rank group number named => exact renders
  | negation written filled gaps unary further ih => exact .negation written filled gaps unary ih
  | pair link leading tight trailing tight_right first second =>
    exact .pair link first tight second tight_right
  | more link leading tight trailing first second => exact .more link first tight second

/-- What remains of a written form abridges it. -/
theorem abridges (remains : Remains gap names expression full short) :
    Abridges names full short := by
  induction remains with
  | token valid => exact .refl _ _
  | marker renders rank group number named => exact .single number group named
  | negation written filled gaps unary further ih => exact (Abridges.refl _ _).append ih
  | pair link leading tight trailing tight_right first second =>
    exact (first.append (.refl _ _)).append second
  | more link leading tight trailing first second => exact (first.append (.refl _ _)).append second

/-- No brackets remain. -/
theorem isBracket (separates : IsGap gap) (remains : Remains gap names expression full short) :
    ∀ c ∈ short, isBracket c = false := by
  have linked : ∀ {junction : Junction} {before word after left right : Text},
      IsLink gap junction before word after → (∀ c ∈ left, Bracket.isBracket c = false) →
      (∀ c ∈ right, Bracket.isBracket c = false) →
      ∀ c ∈ left ++ (before ++ word ++ after) ++ right, Bracket.isBracket c = false := by
    intro junction before word after left right link first second c mem
    rcases List.mem_append.mp mem with earlier | later
    · rcases List.mem_append.mp earlier with early | inside
      · exact first c early
      · exact (link.filler separates c inside).isBracket
    · exact second c later
  induction remains with
  | token valid => exact valid.isBracket
  | marker renders rank group number named => exact fun c => Marker.isBracket_of_mem number
  | negation written filled gaps unary further ih =>
    intro c mem
    rcases List.mem_append.mp mem with inside | later
    · exact (filler_of_negation separates written gaps c inside).isBracket
    · exact ih c later
  | pair link leading tight trailing tight_right first second => exact linked link first second
  | more link leading tight trailing first second => exact linked link first second

/-- What remains can stand between boundaries. -/
theorem isOperand (separates : IsGap gap) (remains : Remains gap names expression full short) :
    Junction.IsOperand short := by
  obtain ⟨filled, trimmed⟩ := remains.renders.filled_and_trimmed
  have begun := mt remains.abridges.eq_nil_iff.mp filled
  exact ⟨begun, remains.abridges.isTrimmed trimmed, remains.isBracket separates⟩

/-! ## Keywords -/

/-- The words on both sides of a link are those of the texts it links and its keyword. -/
theorem words_link (separates : IsGap gap) {junction : Junction}
    {before word after left right : Text} (link : IsLink gap junction before word after) :
    Text.words (left ++ (before ++ word ++ after) ++ right) =
      left.words ++ word :: right.words := by
  have blank := separates.isBlank link.gaps
  have apart : left ++ (before ++ word ++ after) ++ right =
      left ++ before ++ (word ++ after ++ right) := by simp
  rw [apart, Text.words_append_gap link.leading fun c mem => blank c (by simp [mem]),
    Text.words_append_gap link.trailing fun c mem => blank c (by simp [mem]),
    Text.words_of_solid (Junction.filled_of_written link.written)
      (Junction.solid_of_written link.written), List.singleton_append]

/-- A marker is a word of its own. -/
theorem words_marker {digits : Text} (number : Marker.IsNumber digits) :
    Text.words (Marker.ofDigits digits) = [Marker.ofDigits digits] :=
  Text.words_of_solid (by simp [Marker.ofDigits]) fun _ => Marker.isBlank_of_mem number

/-- A keyword is absent from a link of one that binds tighter if it is from what that one links. -/
theorem isAbsent_link (separates : IsGap gap) {tighter junction : Junction}
    {before word after left right : Text} (link : IsLink gap tighter before word after)
    (tight : tighter.rank < junction.rank)
    (first : junction.IsAbsent left) (second : junction.IsAbsent right) :
    junction.IsAbsent (left ++ (before ++ word ++ after) ++ right) := by
  intro part mem
  rw [words_link separates link, List.mem_append, List.mem_cons] at mem
  rcases mem with earlier | rfl | later
  · exact first part earlier
  · rw [link.written]
    intro same
    rw [Junction.keyword_inj same] at tight
    exact Nat.lt_irrefl _ tight
  · exact second part later

/-- The keyword of a junction that binds looser is no word of what remains. -/
theorem isAbsent (separates : IsGap gap) (remains : Remains gap names expression full short)
    {junction : Junction} (tight : expression.rank < junction.rank) : junction.IsAbsent short := by
  induction remains with
  | token valid => exact fun part mem => valid.unjoined part mem junction
  | marker renders rank group number named =>
    intro part mem
    rw [words_marker number, List.mem_singleton] at mem
    rw [mem]
    cases junction <;> simp [Marker.ofDigits, Text.lower, Junction.keyword]
  | @negation operand word space full short written filled gaps unary further ih =>
    have blank := separates.isBlank gaps
    have solid := solid_of_negation written
    have lower : operand.rank < junction.rank := unary ▸ tight
    intro part mem
    rw [Text.words_append_gap filled blank,
      Text.words_of_solid (filled_of_negation written) solid, List.singleton_append] at mem
    rcases List.mem_cons.mp mem with rfl | later
    · rw [written]
      cases junction <;> decide
    · exact ih lower part later
  | pair link leading tight_left trailing tight_right first second =>
    exact isAbsent_link separates link tight (first (Nat.lt_trans tight_left tight))
      (second (Nat.lt_trans tight_right tight))
  | more link leading tight_left trailing first second =>
    exact isAbsent_link separates link tight (first (Nat.lt_trans tight_left tight)) (second tight)

/-! ## Keywords at an edge -/

/-- A negation starts with no keyword of a junction. -/
theorem starts_negation {junction : Junction} {word rest : Text}
    (written : word.lower = "not".toList) : junction.starts (word ++ rest) = false := by
  cases word with
  | nil => exact absurd written (by decide)
  | cons c word =>
    have first : c.toLower = 'n' := (List.cons.inj written).1
    cases junction <;> simp [Junction.starts, Junction.keyword, Text.afterWord?, first]

/-- What remains of an operand of a negation neither starts nor ends with a keyword. -/
theorem undangling (separates : IsGap gap)
    (remains : Remains gap names expression full short) (unary : expression.rank = 0)
    (junction : Junction) : junction.starts short = false ∧ junction.finishes short = false := by
  induction remains with
  | token valid => exact valid.undangling junction
  | marker renders rank group number named => exact junction.undangling_marker _
  | @negation operand word space full short written filled gaps unary_operand further ih =>
    have blank := separates.isBlank gaps
    refine ⟨by rw [List.append_assoc, starts_negation written], ?_⟩
    by_contra finishes
    have last := Junction.finishes_of_append filled blank (by simpa using finishes)
    rw [(ih unary_operand).2] at last
    contradiction
  | @pair other => exact absurd unary (Nat.ne_of_gt other.rank_pos)
  | @more other => exact absurd unary (Nat.ne_of_gt other.rank_pos)

end Remains

end AccessRules.Expression
