import AccessRules.Proofs.Grammar.Derivation
import AccessRules.Proofs.Rule.Storage

/-!
# Rules of one token

A rule without brackets that is an atom is read as its token, whatever is inside. A rule that is
read as a leaf and does not begin with a bracket is such a rule, up to its tabs and line ends.
-/
namespace AccessRules

open AccessRules.Bracket

/-- A text without brackets does not nest. -/
theorem Bracket.nesting_of_free {text : Text} (free : ∀ c ∈ text, isBracket c = false) :
    nesting text = 0 := by
  have same : nestingFrom 0 (text ++ []) = nestingFrom 0 [] := nestingFrom_free_append free 0
  rwa [List.append_nil] at same

namespace ClauseStore

variable {store : ClauseStore} {text : Text}

/-- Of a trimmed text without brackets nothing is taken out. -/
theorem extract_of_free (trimmed : text.trim = text) (free : ∀ c ∈ text, isBracket c = false) :
    store.extract text = .ok (text, store) := by
  obtain ⟨opens, closes⟩ := not_mem_of_free free
  have same : unwrap text = text := by
    have ends := text.isTrimmed_trim
    rw [trimmed] at ends
    rcases unwrap_cases ends with ⟨inner, rfl, -⟩ | ⟨same, -⟩
    · simp at opens
    · exact same
  have extraction : extractWithin (text.count '(') store text = .ok (text, store) := by
    rw [extractWithin_of_free _ (by rwa [same]), same]
  rw [extract, extraction]
  simp [bind, Except.bind, pure, Except.pure, opens, closes]

/-- A text without markers that fits is expanded to itself. -/
theorem expand_of_unmarked (unmarked : Unmarked text)
    (room : text.byteLength ≤ store.maxExpansion) : store.expand text = .ok text := by
  rw [expand, expandWithin_of_unmarked unmarked]
  show (if store.maxExpansion < text.byteLength then _ else _) = _
  rw [if_neg (Nat.not_lt.mpr room)]
  rfl

end ClauseStore

namespace Reader

variable {Leaf : Type} {reader : Reader Leaf} {rule : Text}

/-- A trimmed text without brackets is read by its shape, at any level. -/
theorem readExpression_of_free {store : ClauseStore} (levels : Nat) (filled : rule ≠ [])
    (trimmed : rule.trim = rule) (free : ∀ c ∈ rule, isBracket c = false) :
    reader.readExpression (levels + 1) store rule =
      reader.readShape (reader.readExpression levels) rule rule store := by
  have opens : '(' ∉ rule := fun mem => absurd (free _ mem) (by decide)
  have some : ¬(rule = [] ∨ rule = ['(', ')']) := by
    rintro (none | pair)
    · exact filled none
    · exact opens (by simp [pair])
  rw [readExpression, trimmed, if_neg some, ClauseStore.extract_of_free trimmed free]
  show (if rule = [] then _ else _) = _
  rw [if_neg filled]

/-- An atom without brackets and markers is read as its token. -/
theorem readShape_of_atom
    {read : ClauseStore → Text → Except RuleError (Condition Leaf × ClauseStore)}
    {store : ClauseStore} (trimmed : rule.trim = rule) (free : ∀ c ∈ rule, isBracket c = false)
    (unmarked : Unmarked rule) (shape : Shape.of rule = .atom)
    (room : rule.byteLength ≤ store.maxExpansion) :
    reader.readShape read rule rule store =
      reader.readToken rule >>= fun condition => .ok (condition, store) := by
  have opens : '(' ∉ rule := fun mem => absurd (free _ mem) (by decide)
  have without : ¬(rule.contains '(' && rule.contains ')') = true := by simp [opens]
  rw [readShape, shape]
  dsimp only
  rw [ClauseStore.expand_of_unmarked unmarked room]
  show (if (rule.contains '(' && rule.contains ')') = true then _ else _) = _
  rw [if_neg without, trimmed]
  rfl

/-- A text without markers in which a keyword dangles is refused. -/
theorem readShape_of_dangling
    {read : ClauseStore → Text → Except RuleError (Condition Leaf × ClauseStore)}
    {store : ClauseStore} {junction : Junction} (unmarked : Unmarked rule)
    (shape : Shape.of rule = .dangling junction) (room : rule.byteLength ≤ store.maxExpansion) :
    reader.readShape read rule rule store =
      .error (.malformed (.missingOperand junction) (some rule)) := by
  rw [readShape, shape]
  dsimp only
  rw [ClauseStore.expand_of_unmarked unmarked room]
  rfl

/-- A rule without brackets is read by its shape. -/
theorem read_of_free (filled : rule ≠ []) (trimmed : rule.trim = rule)
    (free : ∀ c ∈ rule, isBracket c = false) (plain : ∀ c ∈ rule, IsPlain c)
    (unmarked : Marker.find? rule = none) (long : rule.byteLength ≤ reader.limits.maxLength) :
    reader.read rule = reader.readShape (reader.readExpression reader.limits.maxDepth) rule rule
      (.ofLimits reader.limits) >>= fun answer => .ok answer.1 := by
  have shallow : ¬reader.limits.maxDepth < nesting rule := by
    rw [nesting_of_free free]
    omega
  unfold read
  dsimp only
  rw [if_neg (Nat.not_lt.mpr long), if_neg shallow, unmarked, plainSpaces_eq_map,
    map_plainSpace_eq_self_iff.mpr plain, Limits.levels,
    readExpression_of_free reader.limits.maxDepth filled trimmed free]
  rfl

/-- A rule without brackets that is an atom is read as its token. -/
theorem read_of_atom (filled : rule ≠ []) (trimmed : rule.trim = rule)
    (free : ∀ c ∈ rule, isBracket c = false) (plain : ∀ c ∈ rule, IsPlain c)
    (unmarked : Marker.find? rule = none) (shape : Shape.of rule = .atom)
    (long : rule.byteLength ≤ reader.limits.maxLength) :
    reader.read rule = reader.readToken rule := by
  rw [read_of_free filled trimmed free plain unmarked long,
    readShape_of_atom trimmed free (unmarked_of_find? unmarked) shape long]
  cases reader.readToken rule <;> rfl

/-- A rule without brackets in which a keyword dangles is refused. -/
theorem read_of_dangling {junction : Junction} (filled : rule ≠ []) (trimmed : rule.trim = rule)
    (free : ∀ c ∈ rule, isBracket c = false) (plain : ∀ c ∈ rule, IsPlain c)
    (unmarked : Marker.find? rule = none) (shape : Shape.of rule = .dangling junction)
    (long : rule.byteLength ≤ reader.limits.maxLength) :
    reader.read rule = .error (.malformed (.missingOperand junction) (some rule)) := by
  rw [read_of_free filled trimmed free plain unmarked long,
    readShape_of_dangling (unmarked_of_find? unmarked) shape long]
  rfl

/-- A rule that is read as a leaf is not blank. -/
theorem trim_ne_nil_of_read {leaf : Leaf} (accepted : reader.read rule = .ok (.leaf leaf)) :
    Text.trim (rule.map plainSpace) ≠ [] := by
  have derives := derives_of_read accepted
  generalize outcome : Condition.leaf leaf = condition at derives
  cases derives with
  | blank none => contradiction
  | group whole balanced further => simp [whole]
  | @joined _ short names junction parts functional divides parted shape filled each =>
    cases junction <;> contradiction
  | negation whole written abridges parted shape further => contradiction
  | token filled free shape read => exact filled

/-- A rule that is read as a leaf and does not begin with a bracket is an atom without brackets, and
the leaf is that of its token. -/
theorem atom_of_read {leaf : Leaf} (bare : (Text.trim (rule.map plainSpace)).head? ≠ some '(')
    (accepted : reader.read rule = .ok (.leaf leaf)) :
    (∀ c ∈ Text.trim (rule.map plainSpace), isBracket c = false) ∧
      Shape.of (Text.trim (rule.map plainSpace)) = .atom ∧
      reader.readToken (Text.trim (rule.map plainSpace)) = .ok (.leaf leaf) := by
  have derives := derives_of_read accepted
  generalize rule.map plainSpace = text at bare derives
  generalize outcome : Condition.leaf leaf = condition at derives
  cases derives with
  | blank none => contradiction
  | group whole balanced further =>
    rw [whole] at bare
    simp at bare
  | @joined _ short names junction parts functional divides parted shape filled each =>
    cases junction <;> contradiction
  | negation whole written abridges parted shape further => contradiction
  | token filled free shape read =>
    subst outcome
    exact ⟨free, shape, read⟩

end Reader

end AccessRules
