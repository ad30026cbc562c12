import AccessRules.Proofs.Grammar.Derivation

/-!
# Conditions read from their elements

The element of a condition is read leaf by leaf: if each leaf is read from its own element, perhaps
as another leaf, the whole tree is read with those leaves in their places. An accepted rule is no
deeper than the levels allow, so its element is never too deep to be read.
-/
namespace AccessRules

namespace Condition

variable {Leaf Subject : Type}

mutual

/-- The tree with other leaves in the places of its own. -/
def map (change : Leaf → Leaf) : Condition Leaf → Condition Leaf
  | literal value => literal value
  | not operand => not (map change operand)
  | and operands => and (mapAll change operands)
  | or operands => or (mapAll change operands)
  | leaf predicate => leaf (change predicate)

/-- Trees with other leaves in the places of their own. -/
def mapAll (change : Leaf → Leaf) : List (Condition Leaf) → List (Condition Leaf)
  | [] => []
  | first :: rest => map change first :: mapAll change rest

end

mutual

/-- A tree whose leaves are not changed is the same. -/
theorem map_eq_self {change : Leaf → Leaf} (condition : Condition Leaf)
    (kept : ∀ leaf ∈ condition.leaves, change leaf = leaf) : condition.map change = condition := by
  match condition with
  | literal value => rfl
  | not operand => rw [map, map_eq_self operand kept]
  | and operands => rw [map, mapAll_eq_self operands kept]
  | or operands => rw [map, mapAll_eq_self operands kept]
  | leaf predicate => rw [map, kept predicate (by simp [leaves])]

/-- Trees whose leaves are not changed are the same. -/
theorem mapAll_eq_self {change : Leaf → Leaf} (operands : List (Condition Leaf))
    (kept : ∀ leaf ∈ leavesOfAll operands, change leaf = leaf) :
    mapAll change operands = operands := by
  match operands with
  | [] => rfl
  | first :: rest =>
    rw [mapAll, map_eq_self first fun leaf mem => kept leaf (by simp [leavesOfAll, mem]),
      mapAll_eq_self rest fun leaf mem => kept leaf (by simp [leavesOfAll, mem])]

end

/-- A tree has at least one level. -/
theorem depth_pos (condition : Condition Leaf) : 0 < condition.depth := by
  cases condition <;> simp [depth]

end Condition

/-! ## Reading elements -/

namespace Reader

variable {Leaf : Type} {reader : Reader Leaf}

section Elements

variable {Subject : Type} [Predicate Leaf Subject]

/-- Of the elements of leaves, those of good ones are read, each as a changed leaf. -/
structure ReadsLeaves (reader : Reader Leaf) (good : Leaf → Prop) (change : Leaf → Leaf) :
    Prop where
  /-- Leaves are not written as operators. -/
  foreign : ∀ leaf : Leaf, (Predicate.toElement leaf).name ≠ operatorElement
  /-- What is read of the element of a leaf. -/
  answers : ∀ (leaf : Leaf) (condition : Condition Leaf),
    reader.readLeafElement (Predicate.toElement leaf) = .ok condition ↔
      good leaf ∧ condition = .leaf (change leaf)

/-- An operator is found under its name as it is written. -/
theorem ofName?_lower_trim (operator : Operator) :
    Operator.ofName? (Text.lower (Text.trim operator.name)) = some operator := by
  cases operator with
  | literal value => cases value <;> decide
  | _ => decide

/-- An operator with its operands is read from its element. -/
theorem readElementWithin_operator (levels : Nat) (operator : Operator)
    (operands : List Markup.Element) :
    reader.readElementWithin (levels + 1) (operator.toElement operands) =
      match operator with
      | .literal value => .ok (.literal value)
      | .not =>
        match operands.head? with
        | none => .error (.malformed .missingNegated (some (operator.toElement operands).render))
        | some child => do
          let operand ← reader.readElementWithin levels child
          return .not operand
      | .and => do
        let operands ← operands.mapM (reader.readElementWithin levels)
        return .and operands
      | .or => do
        let operands ← operands.mapM (reader.readElementWithin levels)
        return .or operands := by
  have key : (operator.toElement operands).attribute? operatorKey = some operator.name := by
    simp [Operator.toElement, Markup.Element.attribute?]
  have same : (operator.toElement operands).name = operatorElement := rfl
  rw [readElementWithin, if_pos same, key]
  simp only [ofName?_lower_trim]
  cases operator <;> rfl

/-- What is made of operands that are read is made of exactly those. -/
theorem bind_eq_ok_iff {α β : Type} {first : Except RuleError α} {form : α → β} {good : Prop}
    {change : α} (known : ∀ value, first = .ok value ↔ good ∧ value = change) (answer : β) :
    (first >>= fun value => pure (form value)) = .ok answer ↔ good ∧ answer = form change := by
  rw [bind_eq_ok]
  constructor
  · rintro ⟨value, success, same⟩
    obtain ⟨fine, rfl⟩ := (known value).mp success
    exact ⟨fine, (Except.ok.inj same).symm⟩
  · rintro ⟨fine, rfl⟩
    exact ⟨change, (known change).mpr ⟨fine, rfl⟩, rfl⟩

mutual

/-- The element of a tree that is not too deep is read if all its leaves are, as the tree with the
changed leaves. -/
theorem readElementWithin_toElement {good : Leaf → Prop} {change : Leaf → Leaf}
    (leafwise : reader.ReadsLeaves good change) (condition : Condition Leaf) {levels : Nat}
    (deep : condition.depth ≤ levels) (answer : Condition Leaf) :
    reader.readElementWithin levels condition.toElement = .ok answer ↔
      (∀ leaf ∈ condition.leaves, good leaf) ∧ answer = condition.map change := by
  obtain ⟨levels, rfl⟩ := Nat.exists_eq_add_of_le' (condition.depth_pos.trans_le deep)
  match condition with
  | .literal value =>
    rw [Condition.toElement, readElementWithin_operator]
    simp [Condition.leaves, Condition.map, eq_comm]
  | .not operand =>
    have inner := readElementWithin_toElement leafwise operand
      (Nat.le_of_succ_le_succ deep)
    rw [Condition.toElement, readElementWithin_operator]
    exact bind_eq_ok_iff inner answer
  | .and operands =>
    have inner := mapM_readElementWithin_toElements leafwise operands
      (Nat.le_of_succ_le_succ deep)
    rw [Condition.toElement, readElementWithin_operator]
    exact bind_eq_ok_iff inner answer
  | .or operands =>
    have inner := mapM_readElementWithin_toElements leafwise operands
      (Nat.le_of_succ_le_succ deep)
    rw [Condition.toElement, readElementWithin_operator]
    exact bind_eq_ok_iff inner answer
  | .leaf predicate =>
    rw [Condition.toElement, readElementWithin, if_neg (leafwise.foreign predicate),
      leafwise.answers]
    simp [Condition.leaves, Condition.map]

/-- The elements of trees that are not too deep are read in order if all their leaves are. -/
theorem mapM_readElementWithin_toElements {good : Leaf → Prop} {change : Leaf → Leaf}
    (leafwise : reader.ReadsLeaves good change) (operands : List (Condition Leaf)) {levels : Nat}
    (deep : Condition.depthOfAll operands ≤ levels) (answers : List (Condition Leaf)) :
    (Condition.toElements operands).mapM (reader.readElementWithin levels) = .ok answers ↔
      (∀ leaf ∈ Condition.leavesOfAll operands, good leaf) ∧
        answers = Condition.mapAll change operands := by
  match operands with
  | [] =>
    simp [Condition.toElements, Condition.leavesOfAll, Condition.mapAll, pure, Except.pure, eq_comm]
  | first :: rest =>
    have here := readElementWithin_toElement leafwise first ((Nat.le_max_left _ _).trans deep)
    have others := mapM_readElementWithin_toElements leafwise rest
      ((Nat.le_max_right _ _).trans deep)
    rw [Condition.toElements, List.mapM_cons, bind_eq_ok]
    simp only [Condition.leavesOfAll, List.mem_append, or_imp, forall_and, Condition.mapAll]
    constructor
    · rintro ⟨value, success, remaining⟩
      obtain ⟨fine, rfl⟩ := (here value).mp success
      obtain ⟨more, same⟩ := (bind_eq_ok_iff others answers).mp remaining
      exact ⟨⟨fine, more⟩, same⟩
    · rintro ⟨⟨fine, more⟩, same⟩
      exact ⟨first.map change, (here _).mpr ⟨fine, rfl⟩,
        (bind_eq_ok_iff others answers).mpr ⟨more, same⟩⟩

end

end Elements

/-! ## Depth of accepted rules -/

/-- What the function reads is no deeper than a number of levels. -/
def ReadsWithin (levels : Nat)
    (read : ClauseStore → Text → Except RuleError (Condition Leaf × ClauseStore)) : Prop :=
  ∀ (store next : ClauseStore) (text : Text) (condition : Condition Leaf),
    read store text = .ok (condition, next) → condition.depth ≤ levels

/-- Tokens are read as trees of one level. -/
def IsShallow (reader : Reader Leaf) : Prop :=
  ∀ (token : Text) (condition : Condition Leaf),
    reader.readToken token = .ok condition → condition.depth ≤ 1

/-- Operands are no deeper than what reads them allows. -/
theorem depthOfAll_of_readOperands {levels : Nat} {junction : Junction} {rule : Text}
    {read : ClauseStore → Text → Except RuleError (Condition Leaf × ClauseStore)}
    (within : ReadsWithin levels read) {store next : ClauseStore} {segments : List Text}
    {operands : List (Condition Leaf)}
    (success : readOperands read junction rule store segments = .ok (operands, next)) :
    Condition.depthOfAll operands ≤ levels := by
  induction segments generalizing store operands with
  | nil =>
    obtain ⟨rfl, rfl⟩ := Prod.mk.inj (Except.ok.inj success)
    exact Nat.zero_le _
  | cons segment segments ih =>
    obtain ⟨expanded, operand, middle, others, -, -, answer, rest, rfl⟩ :=
      readOperands_cons_ok success
    exact Nat.max_le.mpr ⟨within _ _ _ _ answer, ih rest⟩

/-- What is read of a text without its groups is at most one level deeper than its parts. -/
theorem depth_of_readsShape {levels : Nat} {text rule : Text}
    {read : ClauseStore → Text → Except RuleError (Condition Leaf × ClauseStore)}
    (shallow : reader.IsShallow) (within : ReadsWithin levels read) {store next : ClauseStore}
    {condition : Condition Leaf} (reads : ReadsShape reader read text rule store condition next) :
    condition.depth ≤ levels + 1 := by
  cases reads with
  | joined shape answers =>
    rw [Junction.depth_join]
    exact Nat.succ_le_succ (depthOfAll_of_readOperands within answers)
  | negation shape expansion answer => exact Nat.succ_le_succ (within _ _ _ _ answer)
  | hidden shape expansion both gained answer =>
    exact (within _ _ _ _ answer).trans (Nat.le_succ levels)
  | token shape expansion without token =>
    exact (shallow _ _ token).trans (Nat.le_add_left 1 levels)

/-- What is read at some levels is no deeper. -/
theorem readsWithin_readExpression (shallow : reader.IsShallow) (levels : Nat) :
    ReadsWithin levels (reader.readExpression levels) := by
  induction levels with
  | zero =>
    intro store next text condition success
    simp [readExpression] at success
  | succ levels ih =>
    intro store next text condition success
    obtain ⟨_, ⟨⟩, reads⟩ := readsExpression_of_ok success
    cases reads with
    | vacant empty => exact Nat.le_add_left 1 levels
    | emptied filled extraction => exact Nat.le_add_left 1 levels
    | shaped filled extraction some reads => exact depth_of_readsShape shallow ih reads

/-- An accepted rule is no deeper than the levels that its limits allow. -/
theorem depth_le_of_read (shallow : reader.IsShallow) {rule : Text} {condition : Condition Leaf}
    (accepted : reader.read rule = .ok condition) : condition.depth ≤ reader.limits.levels := by
  obtain ⟨-, next, success⟩ := readExpression_of_read accepted
  exact readsWithin_readExpression shallow _ _ _ _ _ success

end Reader

/-! ## Leaves of accepted rules -/

/-- Every leaf of a derived text comes from a token. -/
theorem Derives.forall_leaves {Leaf : Type} {reader : Reader Leaf} {text : Text}
    {condition : Condition Leaf} {good : Leaf → Prop}
    (tokens : ∀ token tree, reader.readToken token = .ok tree → ∀ leaf ∈ tree.leaves, good leaf)
    (derives : Derives reader text condition) : ∀ leaf ∈ condition.leaves, good leaf := by
  induction derives with
  | blank none => simp [Condition.leaves]
  | group whole balanced further ih => exact ih
  | joined functional divides parted shape filled each ih =>
    rw [Junction.leaves_join]
    intro leaf mem
    obtain ⟨tree, among, inside⟩ := List.mem_flatMap.mp mem
    obtain ⟨part, part_mem, rfl⟩ := List.mem_map.mp among
    exact ih part part_mem leaf inside
  | negation whole written abridges parted shape further ih => exact ih
  | token filled free shape read => exact tokens _ _ read

end AccessRules
