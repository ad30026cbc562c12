import AccessRules.Proofs.Rule.Extraction
import AccessRules.Rule.Reader

/-!
# Successful readings

What is left of a text without its groups is read in one of four ways, and an expression in one of
three. Each way names the answers that it was made of, with the stores before and after them, so a
property of accepted rules is proved by cases of these ways.
-/
namespace AccessRules.Reader

variable {Leaf : Type} {reader : Reader Leaf} {store next : ClauseStore} {text rule : Text}
  {condition : Condition Leaf}
  {read : ClauseStore → Text → Except RuleError (Condition Leaf × ClauseStore)}

/-- The ways in which what is left of a text without its groups is read, from a store to the next
one. -/
inductive ReadsShape (reader : Reader Leaf)
    (read : ClauseStore → Text → Except RuleError (Condition Leaf × ClauseStore))
    (text rule : Text) (store : ClauseStore) : Condition Leaf → ClauseStore → Prop where
  | joined {junction : Junction} {segments : List Text} {operands : List (Condition Leaf)}
      {next : ClauseStore} (shape : Shape.of rule = .joined junction segments)
      (answers : readOperands read junction rule store segments = .ok (operands, next)) :
      ReadsShape reader read text rule store (junction.join operands) next
  | negation {operand expanded : Text} {condition : Condition Leaf} {next : ClauseStore}
      (shape : Shape.of rule = .negation operand)
      (expansion : store.expand operand = .ok expanded)
      (answer : read store expanded = .ok (condition, next)) :
      ReadsShape reader read text rule store (.not condition) next
  | hidden {expanded : Text} {condition : Condition Leaf} {next : ClauseStore}
      (shape : Shape.of rule = .atom) (expansion : store.expand rule = .ok expanded)
      (both : '(' ∈ expanded ∧ ')' ∈ expanded) (gained : expanded ≠ rule ∧ expanded.trim ≠ text)
      (answer : read store expanded = .ok (condition, next)) :
      ReadsShape reader read text rule store condition next
  | token {expanded : Text} {condition : Condition Leaf} (shape : Shape.of rule = .atom)
      (expansion : store.expand rule = .ok expanded)
      (without : ¬('(' ∈ expanded ∧ ')' ∈ expanded))
      (token : reader.readToken expanded.trim = .ok condition) :
      ReadsShape reader read text rule store condition store

/-- What is left of a text is read in one of these ways. -/
theorem readsShape_of_ok (success : reader.readShape read text rule store = .ok (condition, next)) :
    ReadsShape reader read text rule store condition next := by
  unfold readShape at success
  cases shape : Shape.of rule with
  | joined junction segments =>
    rw [shape] at success
    obtain ⟨⟨operands, last⟩, answers, same⟩ := bind_eq_ok.mp success
    obtain ⟨rfl, rfl⟩ := Prod.mk.inj (Except.ok.inj same)
    exact .joined shape answers
  | dangling junction =>
    rw [shape] at success
    obtain ⟨expanded, -, refused⟩ := bind_eq_ok.mp success
    contradiction
  | negation operand =>
    rw [shape] at success
    obtain ⟨expanded, expansion, success⟩ := bind_eq_ok.mp success
    obtain ⟨⟨inner, last⟩, answer, same⟩ := bind_eq_ok.mp success
    obtain ⟨rfl, rfl⟩ := Prod.mk.inj (Except.ok.inj same)
    exact .negation shape expansion answer
  | bareNegation =>
    rw [shape] at success
    contradiction
  | atom =>
    rw [shape] at success
    obtain ⟨expanded, expansion, success⟩ := bind_eq_ok.mp success
    split at success
    · rename_i both
      split at success
      · contradiction
      · rename_i gained
        exact .hidden shape expansion (by simpa using both) (not_or.mp gained) success
    · rename_i without
      obtain ⟨leaf, token, same⟩ := bind_eq_ok.mp success
      obtain ⟨rfl, rfl⟩ := Prod.mk.inj (Except.ok.inj same)
      exact .token shape expansion (by simpa using without) token

/-- Operands are read one after another, each expanded before. -/
theorem readOperands_cons_ok {junction : Junction} {segment : Text} {segments : List Text}
    {operands : List (Condition Leaf)}
    (success : readOperands read junction rule store (segment :: segments) =
      .ok (operands, next)) :
    ∃ expanded operand middle others, segment.trim ≠ [] ∧
      store.expand segment = .ok expanded ∧ read store expanded = .ok (operand, middle) ∧
      readOperands read junction rule middle segments = .ok (others, next) ∧
      operands = operand :: others := by
  unfold readOperands at success
  split at success
  · contradiction
  · rename_i filled
    obtain ⟨expanded, expansion, success⟩ := bind_eq_ok.mp success
    obtain ⟨⟨operand, middle⟩, answer, success⟩ := bind_eq_ok.mp success
    obtain ⟨⟨others, last⟩, rest, same⟩ := bind_eq_ok.mp success
    obtain ⟨rfl, rfl⟩ := Prod.mk.inj (Except.ok.inj same)
    exact ⟨expanded, operand, middle, others, filled, expansion, answer, rest, rfl⟩

/-- The ways in which an expression is read that may open further levels. -/
inductive ReadsExpression (reader : Reader Leaf) (levels : Nat) (store : ClauseStore)
    (text : Text) : Condition Leaf → ClauseStore → Prop where
  | vacant (empty : text.trim = [] ∨ text.trim = ['(', ')']) :
      ReadsExpression reader levels store text (.literal true) store
  | emptied {next : ClauseStore} (filled : text.trim ≠ [] ∧ text.trim ≠ ['(', ')'])
      (extraction : store.extract text.trim = .ok ([], next)) :
      ReadsExpression reader levels store text (.literal true) next
  | shaped {rule : Text} {middle next : ClauseStore} {condition : Condition Leaf}
      (filled : text.trim ≠ [] ∧ text.trim ≠ ['(', ')'])
      (extraction : store.extract text.trim = .ok (rule, middle)) (some : rule ≠ [])
      (reads : ReadsShape reader (reader.readExpression levels) text.trim rule middle condition
        next) :
      ReadsExpression reader levels store text condition next

/-- An expression is read at one level or more, in one of these ways. -/
theorem readsExpression_of_ok {levels : Nat}
    (success : reader.readExpression levels store text = .ok (condition, next)) :
    ∃ fewer, levels = fewer + 1 ∧ ReadsExpression reader fewer store text condition next := by
  cases levels with
  | zero => simp [readExpression] at success
  | succ levels =>
    refine ⟨levels, rfl, ?_⟩
    unfold readExpression at success
    split at success
    · rename_i empty
      obtain ⟨rfl, rfl⟩ := Prod.mk.inj (Except.ok.inj success)
      exact .vacant empty
    · rename_i filled
      obtain ⟨⟨rule, middle⟩, extraction, success⟩ := bind_eq_ok.mp success
      dsimp only at success
      split at success
      · rename_i none
        subst none
        obtain ⟨rfl, rfl⟩ := Prod.mk.inj (Except.ok.inj success)
        exact .emptied (not_or.mp filled) extraction
      · rename_i some
        exact .shaped (not_or.mp filled) extraction some (readsShape_of_ok success)

end AccessRules.Reader
