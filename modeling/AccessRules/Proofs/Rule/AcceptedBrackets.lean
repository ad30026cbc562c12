import AccessRules.Proofs.Rule.Division
import AccessRules.Proofs.Rule.Extraction
import AccessRules.Proofs.Rule.PlainSpaces
import AccessRules.Proofs.Rule.Reading
import AccessRules.Subject.Basic

/-!
# Brackets of accepted rules

A rule that is read has every bracket without a partner at a keyword, and it has such closing
brackets exactly if it has such opening ones. So an accepted rule is balanced unless a closing
bracket without a partner stands before a keyword, and then some opening one stands after a
keyword. Such rules are accepted, though their brackets do not match.
-/
namespace AccessRules

open AccessRules.Bracket

/-! ## Tabs and line ends -/

/-- A keyword ahead is there before tabs and line ends are read as spaces. -/
theorem KeywordAhead.of_map_plainSpace {text : Text} (ahead : KeywordAhead (text.map plainSpace)) :
    KeywordAhead text := by
  obtain ⟨junction, skip, word, d, rest, same, skipped, written, next⟩ := ahead
  obtain ⟨front, back, rfl, whole, tail⟩ := List.map_eq_append_iff.mp same
  obtain ⟨left, right, rfl, rfl, rfl⟩ := List.map_eq_append_iff.mp whole
  obtain ⟨c, after, rfl, rfl, rfl⟩ := List.map_eq_cons_iff.mp tail
  have letters : right.map plainSpace = right := by
    refine List.map_congr_left (fun c mem => ?_) |>.trans (List.map_id right)
    exact plainSpace_of_isAlpha (Junction.isAlpha_of_mem written _ (List.mem_map_of_mem mem))
  rw [letters] at written
  have closes {c : Char} : plainSpace c = ')' ↔ c = ')' := plainSpace_eq_bracket rfl
  have opens : plainSpace c = '(' ↔ c = '(' := plainSpace_eq_bracket rfl
  refine ⟨junction, left, right, c, after, rfl, fun d mem => ?_, written, ?_⟩
  · have lead := Junction.leads_iff.mp (skipped _ (List.mem_map_of_mem mem))
    rw [closes, isBlank_plainSpace] at lead
    exact Junction.leads_iff.mpr lead
  · rwa [isBlank_plainSpace, opens, (unmatched_map_plainSpace after).1] at next

/-- A keyword behind is there before tabs and line ends are read as spaces. -/
theorem KeywordBehind.of_map_plainSpace {text : Text}
    (behind : KeywordBehind (text.map plainSpace)) : KeywordBehind text := by
  obtain ⟨junction, rest, c, word, skip, same, skipped, written, last⟩ := behind
  obtain ⟨before, back, rfl, rfl, tail⟩ := List.map_eq_append_iff.mp same
  obtain ⟨d, after, rfl, rfl, whole⟩ := List.map_eq_cons_iff.mp tail
  obtain ⟨left, right, rfl, rfl, rfl⟩ := List.map_eq_append_iff.mp whole
  have letters : left.map plainSpace = left := by
    refine List.map_congr_left (fun c mem => ?_) |>.trans (List.map_id left)
    exact plainSpace_of_isAlpha (Junction.isAlpha_of_mem written _ (List.mem_map_of_mem mem))
  rw [letters] at written
  have closes : plainSpace d = ')' ↔ d = ')' := plainSpace_eq_bracket rfl
  have opens {c : Char} : plainSpace c = '(' ↔ c = '(' := plainSpace_eq_bracket rfl
  refine ⟨junction, before, d, left, right, rfl, fun c mem => ?_, written, ?_⟩
  · have trail := Junction.trails_iff.mp (skipped _ (List.mem_map_of_mem mem))
    rw [opens, isBlank_plainSpace] at trail
    exact Junction.trails_iff.mpr trail
  · rwa [isBlank_plainSpace, closes, (unmatched_map_plainSpace before).2] at last

/-- Strays are at keywords before tabs and line ends are read as spaces. -/
theorem StraysAtKeywords.of_map_plainSpace {text : Text}
    (strays : StraysAtKeywords (text.map plainSpace)) : StraysAtKeywords text := by
  constructor
  · rintro before after rfl closed
    refine (strays.closing (before.map plainSpace) (after.map plainSpace) ?_ ?_).of_map_plainSpace
    · simp [plainSpace]
    · rw [(unmatched_map_plainSpace before).2, closed]
  · rintro before after rfl opened
    refine (strays.opening (before.map plainSpace) (after.map plainSpace) ?_ ?_).of_map_plainSpace
    · simp [plainSpace]
    · rw [(unmatched_map_plainSpace after).1, opened]

/-! ## Reading -/

/-- A text has its strays at keywords if it expands to one that has. -/
theorem ClauseStore.straysAtKeywords_of_expand {store : ClauseStore} (grouped : store.Grouped)
    {text expanded : Text} (success : store.expand text = .ok expanded)
    (strays : StraysAtKeywords expanded) : StraysAtKeywords text :=
  unfolds_induction (unfolds_of_expand grouped success)
    (fun hides => hides.straysAtKeywords_iff.mp) strays

namespace Reader

variable {Leaf : Type} {reader : Reader Leaf}

/-- What an accepted text is known to be: its strays are at keywords and of both kinds or none, and
the store holds groups only. -/
structure Accepts (text : Text) (next : ClauseStore) : Prop where
  /-- Strays are at keywords. -/
  strays : StraysAtKeywords text
  /-- There are closing ones exactly if there are opening ones. -/
  both : unopened text = 0 ↔ unclosed text = 0
  /-- All clauses are groups. -/
  grouped : next.Grouped

/-- If operands are read, each has its strays at keywords. -/
theorem strays_of_readOperands
    {read : ClauseStore → Text → Except RuleError (Condition Leaf × ClauseStore)}
    (accepts : ∀ store text condition next, store.Grouped →
      read store text = .ok (condition, next) → Accepts text next)
    {junction : Junction} {rule : Text} {store next : ClauseStore} {segments : List Text}
    {operands : List (Condition Leaf)} (grouped : store.Grouped)
    (success : readOperands read junction rule store segments = .ok (operands, next)) :
    (∀ segment ∈ segments, StraysAtKeywords segment) ∧ next.Grouped := by
  induction segments generalizing store operands with
  | nil =>
    obtain ⟨-, rfl⟩ := Prod.mk.inj (Except.ok.inj success)
    exact ⟨fun _ mem => absurd mem List.not_mem_nil, grouped⟩
  | cons segment segments ih =>
    obtain ⟨text, operand, middle, others, -, expanded, answer, further, -⟩ :=
      readOperands_cons_ok success
    have first := accepts store text operand middle grouped answer
    obtain ⟨rest, kept⟩ := ih first.grouped further
    refine ⟨fun other mem => ?_, kept⟩
    rcases List.mem_cons.mp mem with rfl | later
    · exact store.straysAtKeywords_of_expand grouped expanded first.strays
    · exact rest other later

/-- If what is left of a text is read, its strays are at keywords. -/
theorem strays_of_readsShape
    {read : ClauseStore → Text → Except RuleError (Condition Leaf × ClauseStore)}
    (accepts : ∀ store text condition next, store.Grouped →
      read store text = .ok (condition, next) → Accepts text next)
    {text rule : Text} {store next : ClauseStore} {condition : Condition Leaf}
    (grouped : store.Grouped) (parted : Parted rule) (kinds : '(' ∈ rule ↔ ')' ∈ rule)
    (reads : ReadsShape reader read text rule store condition next) :
    StraysAtKeywords rule ∧ next.Grouped := by
  cases reads with
  | @joined junction segments operands next shape answers =>
    obtain ⟨strays, kept⟩ := strays_of_readOperands accepts grouped answers
    obtain ⟨-, -, rfl⟩ := Shape.of_eq_joined_iff.mp shape
    exact ⟨(junction.separates_segments rule).straysAtKeywords parted strays, kept⟩
  | negation shape expansion answer =>
    have accepted := accepts _ _ _ _ grouped answer
    have strays := store.straysAtKeywords_of_expand grouped expansion accepted.strays
    obtain ⟨-, -, found⟩ := Shape.of_eq_negation_iff.mp shape
    obtain ⟨word, rfl, written⟩ := Text.afterWord?_eq_some_iff.mp found
    have opens : '(' ∉ word := Text.not_mem_of_lower written (by decide)
    have closes : ')' ∉ word := Text.not_mem_of_lower written (by decide)
    have none : ∀ c ∈ ([] : Text), isBracket c = false := fun c mem => absurd mem List.not_mem_nil
    have around := strays.surround (free_of_not_mem opens closes) none
    rw [List.append_nil] at around
    exact ⟨around, accepted.grouped⟩
  | hidden shape expansion both gained answer =>
    have accepted := accepts _ _ _ _ grouped answer
    exact ⟨store.straysAtKeywords_of_expand grouped expansion accepted.strays, accepted.grouped⟩
  | token shape expansion without token =>
    -- A leaf has no brackets: those of the rule would be in its expansion too.
    have unfolds := store.unfolds_of_expand grouped expansion
    have free : '(' ∉ rule := fun opens => without
      ⟨mem_of_unfolds unfolds rfl opens, mem_of_unfolds unfolds rfl (kinds.mp opens)⟩
    have balanced : Balanced rule := balanced_iff.mpr
      ⟨unopened_eq_zero_of_not_mem (mt kinds.mpr free), unclosed_eq_zero_of_not_mem free⟩
    exact ⟨balanced.straysAtKeywords, grouped⟩

/-- If an expression is read, its strays are at keywords. -/
theorem accepts_of_readExpression {levels : Nat} {store next : ClauseStore} {text : Text}
    {condition : Condition Leaf} (grouped : store.Grouped)
    (success : reader.readExpression levels store text = .ok (condition, next)) :
    Accepts text next := by
  induction levels generalizing store next text condition with
  | zero => simp [readExpression] at success
  | succ levels ih =>
    have trimmed := Preserves.of_trim text
    have vacant : Balanced [] := balanced_iff.mpr ⟨rfl, rfl⟩
    obtain ⟨_, ⟨⟩, reads⟩ := readsExpression_of_ok success
    -- What is extracted keeps the strays, and has brackets of both kinds or of none.
    have extracts {rule : Text} {middle : ClauseStore}
        (extraction : store.extract text.trim = .ok (rule, middle)) :
        Preserves text rule ∧ middle.Grouped ∧ Parted rule ∧ ('(' ∈ rule ↔ ')' ∈ rule) ∧
          (unopened text = 0 ↔ unclosed text = 0) := by
      obtain ⟨preserves, kept, parted, kinds⟩ :=
        ClauseStore.preserves_of_extract grouped extraction
      have whole := trimmed.trans preserves
      refine ⟨whole, kept, parted, kinds, ?_⟩
      rw [whole.unopened, whole.unclosed, parted.unopened_eq_zero_iff,
        parted.unclosed_eq_zero_iff, kinds]
    cases reads with
    | vacant empty =>
      have balanced : Balanced text.trim := by
        rcases empty with none | pair
        · rw [none]
          exact vacant
        · rw [pair]
          exact balanced_iff.mpr ⟨rfl, rfl⟩
      have both := balanced_iff.mp balanced
      refine ⟨trimmed.strays balanced.straysAtKeywords, ?_, grouped⟩
      rw [trimmed.unopened, trimmed.unclosed, both.1, both.2]
    | emptied filled extraction =>
      obtain ⟨whole, kept, -, -, both⟩ := extracts extraction
      exact ⟨whole.strays vacant.straysAtKeywords, both, kept⟩
    | shaped filled extraction some reads =>
      obtain ⟨whole, kept, parted, kinds, both⟩ := extracts extraction
      have rest := strays_of_readsShape (fun store text condition next => ih) kept parted kinds
        reads
      exact ⟨whole.strays rest.1, both, rest.2⟩

/-- A rule is accepted only if each of its brackets without a partner stands at a keyword. So an
accepted rule is balanced exactly if no closing bracket without a partner stands before a keyword,
and exactly if no opening one stands after a keyword. -/
theorem stray_brackets_at_keywords {rule : Text} {condition : Condition Leaf}
    (accepted : reader.read rule = .ok condition) :
    StraysAtKeywords rule ∧
      (Balanced rule ↔ ¬∃ before after, rule = before ++ ')' :: after ∧ unclosed before = 0 ∧
        KeywordAhead after) ∧
      (Balanced rule ↔ ¬∃ before after, rule = before ++ '(' :: after ∧ unopened after = 0 ∧
        KeywordBehind before) := by
  have accepts : StraysAtKeywords rule ∧ (unopened rule = 0 ↔ unclosed rule = 0) := by
    unfold read at accepted
    dsimp only at accepted
    repeat' split at accepted
    all_goals try contradiction
    obtain ⟨⟨outcome, last⟩, success, -⟩ := bind_eq_ok.mp accepted
    have grouped : (ClauseStore.ofLimits reader.limits).Grouped := fun clause mem =>
      absurd mem (Array.not_mem_empty clause)
    have whole := accepts_of_readExpression grouped success
    rw [plainSpaces_eq_map] at whole
    have same := unmatched_map_plainSpace rule
    have both := whole.both
    rw [same.1, same.2] at both
    exact ⟨whole.strays.of_map_plainSpace, both⟩
  obtain ⟨strays, both⟩ := accepts
  refine ⟨strays, ⟨?_, fun none => ?_⟩, ⟨?_, fun none => ?_⟩⟩
  · rintro balanced ⟨before, after, rfl, closed, -⟩
    exact balanced.unclosed_ne_zero closed
  · have opened : unopened rule = 0 := by
      by_contra some
      obtain ⟨before, after, split, closed⟩ := exists_stray_closing some
      exact none ⟨before, after, split, closed, strays.closing before after split closed⟩
    exact balanced_iff.mpr ⟨opened, both.mp opened⟩
  · rintro balanced ⟨before, after, rfl, opened, -⟩
    exact balanced.unopened_ne_zero opened
  · have closed : unclosed rule = 0 := by
      by_contra some
      obtain ⟨before, after, split, opened⟩ := exists_stray_opening some
      exact none ⟨before, after, split, opened, strays.opening before after split opened⟩
    exact balanced_iff.mpr ⟨both.mpr closed, closed⟩

/-- Two groups with a stray bracket each are joined by the keyword between the strays. -/
theorem stray_brackets_between_groups :
    let reader : Reader SubjectLeaf := {}
    let rule := "(not false)) and\n((true)".toList
    reader.read rule = .ok (.and [.not (.literal false), .literal true]) ∧
      StraysAtKeywords rule ∧
        (Balanced rule ↔ ¬∃ before after, rule = before ++ ')' :: after ∧ unclosed before = 0 ∧
          KeywordAhead after) ∧
        (Balanced rule ↔ ¬∃ before after, rule = before ++ '(' :: after ∧ unopened after = 0 ∧
          KeywordBehind before) := by
  have accepted : read ({} : Reader SubjectLeaf) "(not false)) and\n((true)".toList =
      .ok (.and [.not (.literal false), .literal true]) := rfl
  exact ⟨accepted, stray_brackets_at_keywords accepted⟩

/-- A rule whose two brackets do not match is accepted: the keyword between them takes both. -/
theorem unbalanced_rule_accepted :
    let reader : Reader SubjectLeaf := {}
    let rule := "true) or (true".toList
    reader.read rule = .ok (.or [.literal true, .literal true]) ∧ ¬Balanced rule := by
  intro reader rule
  have early : "true)".toList <+: rule := by decide
  have opens : "true)".toList.count '(' < "true)".toList.count ')' := by decide
  exact ⟨rfl, fun balanced => absurd (balanced.opened _ early) (by omega)⟩

end Reader

end AccessRules
