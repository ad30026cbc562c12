import AccessRules.Markup.Element

/-!
# Conditions

A compiled rule is a tree of literals, negations, conjunctions, disjunctions and leaves. What a
leaf says about a subject, and how it is written, is the matter of its type: the class
`Predicate` asks for its truth value and its three written forms. An empty conjunction holds and
an empty disjunction does not.
-/
namespace AccessRules

/-- What the leaves of a condition offer. -/
class Predicate (Leaf : Type) (Subject : outParam Type) where
  /-- The leaf holds of the subject. -/
  holds : Leaf → Subject → Bool
  /-- The leaf as a token of rule text. -/
  render : Leaf → Text
  /-- The leaf as an element. -/
  toElement : Leaf → Markup.Element
  /-- The leaf with all its parts named. -/
  inspect : Leaf → Text

/-- A compiled rule over leaves of a given type. -/
inductive Condition (Leaf : Type) where
  /-- Always holds, or never. -/
  | literal (value : Bool)
  /-- Holds if the operand does not. -/
  | not (operand : Condition Leaf)
  /-- Holds if every operand does. -/
  | and (operands : List (Condition Leaf))
  /-- Holds if some operand does. -/
  | or (operands : List (Condition Leaf))
  /-- Holds if the leaf does. -/
  | leaf (predicate : Leaf)

namespace Condition

variable {Leaf Subject : Type}

mutual

/-- The condition holds of the subject. -/
def holds [Predicate Leaf Subject] (subject : Subject) : Condition Leaf → Bool
  | literal value => value
  | not operand => !holds subject operand
  | and operands => allHold subject operands
  | or operands => anyHolds subject operands
  | leaf predicate => Predicate.holds predicate subject

/-- Every condition of the list holds. -/
def allHold [Predicate Leaf Subject] (subject : Subject) : List (Condition Leaf) → Bool
  | [] => true
  | first :: rest => holds subject first && allHold subject rest

/-- Some condition of the list holds. -/
def anyHolds [Predicate Leaf Subject] (subject : Subject) : List (Condition Leaf) → Bool
  | [] => false
  | first :: rest => holds subject first || anyHolds subject rest

end

/-- A conjunction asks every operand. -/
theorem allHold_eq_all [Predicate Leaf Subject] (subject : Subject)
    (operands : List (Condition Leaf)) :
    allHold subject operands = operands.all (holds subject) := by
  induction operands with
  | nil => rfl
  | cons first rest ih => simp [allHold, ih]

/-- A disjunction asks for some operand. -/
theorem anyHolds_eq_any [Predicate Leaf Subject] (subject : Subject)
    (operands : List (Condition Leaf)) :
    anyHolds subject operands = operands.any (holds subject) := by
  induction operands with
  | nil => rfl
  | cons first rest ih => simp [anyHolds, ih]

mutual

/-- The leaves of a tree from left to right. -/
def leaves : Condition Leaf → List Leaf
  | literal _ => []
  | not operand => leaves operand
  | and operands => leavesOfAll operands
  | or operands => leavesOfAll operands
  | leaf predicate => [predicate]

/-- The leaves of a list of trees from left to right. -/
def leavesOfAll : List (Condition Leaf) → List Leaf
  | [] => []
  | first :: rest => leaves first ++ leavesOfAll rest

end

/-- The leaves of a list of trees are those of its members, in order. -/
theorem leavesOfAll_eq_flatMap (operands : List (Condition Leaf)) :
    leavesOfAll operands = operands.flatMap leaves := by
  induction operands with
  | nil => rfl
  | cons first rest ih => simp [leavesOfAll, ih]

mutual

/-- The height of a tree; a tree of one node has depth one. -/
def depth : Condition Leaf → Nat
  | literal _ => 1
  | not operand => depth operand + 1
  | and operands => depthOfAll operands + 1
  | or operands => depthOfAll operands + 1
  | leaf _ => 1

/-- The height of the highest tree of a list, zero if there is none. -/
def depthOfAll : List (Condition Leaf) → Nat
  | [] => 0
  | first :: rest => max (depth first) (depthOfAll rest)

end

/-- A list of trees is no higher than a bound exactly if none of its members is. -/
theorem depthOfAll_le_iff {operands : List (Condition Leaf)} {bound : Nat} :
    depthOfAll operands ≤ bound ↔ ∀ operand ∈ operands, depth operand ≤ bound := by
  induction operands with
  | nil => simp [depthOfAll]
  | cons first rest ih =>
    simp only [depthOfAll, Nat.max_le, ih, List.mem_cons, forall_eq_or_imp]

end Condition

end AccessRules
