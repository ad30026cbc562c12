import AccessRules.Proofs.Grammar.Remains

/-!
# The shape of what remains

The shape of what remains of a written form tells what the expression is: a junction with what
remains of its operands, a negation with what remains of its operand, and else an atom, which is a
token or a marker.
-/
namespace AccessRules.Expression

open AccessRules.Bracket

variable {gap : Char → Bool} {names : Text → Text → Prop} {expression : Expression}
  {full short : Text}

/-- What remains of operands from left to right, with the bytes of their full texts together. -/
inductive Spread (gap : Char → Bool) (names : Text → Text → Prop) :
    List Expression → (bytes : Nat) → (segments : List Text) → Prop where
  | nil : Spread gap names [] 0 []
  | cons {operand : Expression} {rest : List Expression} {full short : Text} {bytes : Nat}
      {segments : List Text} (remains : Remains gap names operand full short)
      (further : Spread gap names rest bytes segments) :
      Spread gap names (operand :: rest) (full.byteLength + bytes) (short :: segments)

/-! ## Junctions -/

namespace Remains

/-- A link splits off what remains of the operand before it. -/
theorem segments_link (separates : IsGap gap) {junction : Junction} {first second : Expression}
    {front before word after back left right : Text}
    (link : IsLink gap junction before word after) (leading : Remains gap names first front left)
    (tight : first.rank < junction.rank) (trailing : Remains gap names second back right) :
    junction.segments (left ++ (before ++ word ++ after) ++ right) =
      left :: junction.segments right := by
  have blank := separates.isBlank link.gaps
  have operand := trailing.isOperand separates
  have start : ∀ c ∈ right.head?, Junction.trails c = false := fun c head =>
    Junction.trails_eq_false (operand.trimmed.first c head)
      (operand.free c (List.mem_of_head? head))
  exact Junction.segments_cons (leading.isOperand separates) (leading.isAbsent separates tight)
    link.leading (fun c mem => blank c (List.mem_append_left after mem)) link.written link.trailing
    (fun c mem => blank c (List.mem_append_right before mem)) start

/-- The operands of a junction are split into what remains of them. -/
theorem segments (separates : IsGap gap) {junction : Junction} {first : Expression}
    {further : List Expression}
    (remains : Remains gap names (.joined junction first further) full short) :
    ∃ bytes, bytes ≤ full.byteLength ∧
      Spread gap names (first :: further) bytes (junction.segments short) := by
  -- The induction is on the operands from the left: each link splits one off.
  generalize whole : joined junction first further = expression at remains
  induction remains generalizing first further with
  | token => contradiction
  | marker renders rank =>
    rw [← whole] at rank
    exact absurd rank (Nat.ne_of_gt junction.rank_pos)
  | negation => contradiction
  | @pair other left_operand right_operand front before word after back left right link leading
      tight trailing tight_right =>
    obtain ⟨rfl, rfl, rfl⟩ := joined.inj whole
    have alone := (trailing.isAbsent separates tight_right).segments_eq
      (trailing.isBracket separates)
    rw [segments_link separates link leading tight trailing, alone]
    refine ⟨_, ?_, .cons leading (.cons trailing .nil)⟩
    simp only [Text.byteLength_append]
    omega
  | @more other left_operand second rest front before word after back left right link leading tight
      trailing ih_leading ih =>
    obtain ⟨rfl, rfl, rfl⟩ := joined.inj whole
    obtain ⟨bytes, bound, spread⟩ := ih rfl
    rw [segments_link separates link leading tight trailing]
    refine ⟨_, ?_, .cons leading spread⟩
    simp only [Text.byteLength_append]
    omega

/-- What lacks a keyword has no operands of its junction. -/
theorem operands?_eq_none (separates : IsGap gap)
    (remains : Remains gap names expression full short) {junction : Junction}
    (tight : expression.rank < junction.rank) : junction.operands? short = none := by
  have alone := (remains.isAbsent separates tight).segments_eq (remains.isBracket separates)
  rw [Junction.operands?, alone]

/-- A junction has at least two operands. -/
theorem operands?_joined (separates : IsGap gap) {junction : Junction} {first : Expression}
    {further : List Expression}
    (remains : Remains gap names (.joined junction first further) full short) :
    junction.operands? short = some (junction.segments short) := by
  have more : further ≠ [] := by
    cases remains with
    | marker renders rank => exact absurd rank (Nat.ne_of_gt junction.rank_pos)
    | pair => simp
    | more => simp
  obtain ⟨bytes, -, spread⟩ := remains.segments separates
  rw [Junction.operands?]
  generalize junction.segments short = segments at spread
  cases spread with
  | cons one rest =>
    cases rest with
    | nil => contradiction
    | cons two others => rfl

/-- What remains of a junction has its shape. -/
theorem shape_joined (separates : IsGap gap) {junction : Junction} {first : Expression}
    {further : List Expression}
    (remains : Remains gap names (.joined junction first further) full short) :
    Shape.of short = .joined junction (junction.segments short) := by
  have operands := remains.operands?_joined separates
  cases junction with
  | or => rw [Shape.of, operands]
  | and =>
    have tight : (joined .and first further).rank < Junction.or.rank := Nat.lt_succ_self 1
    rw [Shape.of, remains.operands?_eq_none separates tight, operands]

/-! ## Negations and atoms -/

/-- No keyword of a junction is found in what remains of an expression that is none. -/
theorem operands?_unary (separates : IsGap gap)
    (remains : Remains gap names expression full short)
    (unary : expression.rank = 0) (junction : Junction) : junction.operands? short = none :=
  remains.operands?_eq_none separates (unary ▸ junction.rank_pos)

/-- What remains of an expression that is no junction is a negation if it begins with one. -/
theorem shape_of_negates (separates : IsGap gap)
    (remains : Remains gap names expression full short)
    (unary : expression.rank = 0) {operand : Text}
    (negates : Text.afterWord? "not ".toList short = some operand) :
    Shape.of short = .negation operand := by
  have edges := Junction.dangling?_eq_none (remains.isOperand separates).trimmed
    (remains.undangling separates unary)
  simp only [Shape.of, remains.operands?_unary separates unary, edges, negates]

/-- What remains of an expression that is no junction is an atom if it begins with no negation. -/
theorem shape_of_affirms (separates : IsGap gap)
    (remains : Remains gap names expression full short)
    (unary : expression.rank = 0) (affirms : Text.afterWord? "not ".toList short = none)
    (filled : Text.sameWord short "not".toList = false) : Shape.of short = .atom := by
  have edges := Junction.dangling?_eq_none (remains.isOperand separates).trimmed
    (remains.undangling separates unary)
  simp only [Shape.of, remains.operands?_unary separates unary, edges, affirms, filled,
    Bool.false_eq_true, ↓reduceIte]

/-- What remains of a negation has its shape, with what remains of its operand, if a space follows
the word for negation. -/
theorem shape_negation (separates : IsGap gap) {operand : Expression} {word space : Text}
    (written : word.lower = "not".toList) (gaps : ∀ c ∈ ' ' :: space, gap c = true)
    (unary : operand.rank = 0) (further : Remains gap names operand full short) :
    Shape.of (word ++ (' ' :: space) ++ short) = .negation (space ++ short) := by
  have remains := Remains.negation written (by simp) gaps unary further
  have found : Text.afterWord? "not ".toList (word ++ (' ' :: space) ++ short) =
      some (space ++ short) := by
    refine Text.afterWord?_eq_some_iff.mpr ⟨word ++ [' '], by simp, ?_⟩
    rw [Text.lower, List.map_append, ← Text.lower, written]
    rfl
  exact remains.shape_of_negates separates rfl found

/-- What remains of a negation is an atom if another blank follows the word for negation. -/
theorem shape_glued (separates : IsGap gap) {operand : Expression} {word space : Text} {c : Char}
    (written : word.lower = "not".toList) (gaps : ∀ d ∈ c :: space, gap d = true) (other : c ≠ ' ')
    (unary : operand.rank = 0) (further : Remains gap names operand full short) :
    Shape.of (word ++ (c :: space) ++ short) = .atom := by
  have remains := Remains.negation written (by simp) gaps unary further
  have blank : Text.isBlank c = true := separates c (gaps c (by simp))
  apply remains.shape_of_affirms separates rfl
  · by_contra negates
    obtain ⟨rest, found⟩ := Option.ne_none_iff_exists'.mp negates
    obtain ⟨front, same, lower⟩ := Text.afterWord?_eq_some_iff.mp found
    obtain ⟨first, rfl, again⟩ := eq_append_space_of_lower lower
    have long : word.length = first.length := by
      have left := congrArg List.length written
      have right := congrArg List.length again
      rw [Text.lower, List.length_map] at left right
      rw [left, right]
    rw [List.append_assoc, List.append_assoc] at same
    exact other (List.cons.inj (List.append_inj same long).2).1
  · by_contra same
    have lower : Text.lower (word ++ (c :: space) ++ short) = "not".toList := by
      rw [Bool.not_eq_false, Text.sameWord, beq_iff_eq] at same
      exact same
    have solid := solid_of_negation lower c (by simp)
    rw [blank] at solid
    contradiction

/-- A marker is an atom. -/
theorem shape_marker (separates : IsGap gap) {digits : Text} (renders : Renders gap expression full)
    (rank : expression.rank = 0) (group : IsGroup full) (number : Marker.IsNumber digits)
    (named : names digits full) : Shape.of (Marker.ofDigits digits) = .atom := by
  have remains := Remains.marker renders rank group number named
  apply remains.shape_of_affirms separates rank
  · simp [Text.afterWord?, Marker.ofDigits]
  · simp [Text.sameWord, Text.lower, Marker.ofDigits]

/-- A token is an atom. -/
theorem shape_token {word : Text} (valid : IsToken word) : Shape.of word = .atom := by
  have remains : Remains isSpace (fun _ _ => False) (.token word) word word := .token valid
  exact remains.shape_of_affirms separates_space rfl (afterWord?_of_affirmative valid.affirmative)
    (sameWord_of_affirmative valid.affirmative)

end Remains

end AccessRules.Expression
