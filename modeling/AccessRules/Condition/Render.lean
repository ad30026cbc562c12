import AccessRules.Condition.Basic

/-!
# Written conditions

A condition is written in three forms: as rule text, where every operand stands in brackets; as
an element, where every node but a leaf is a `boolean` element that names its operator; and with
all its parts named, for diagnosis.
-/
namespace AccessRules

/-- The operator of a node that is no leaf. -/
inductive Operator where
  /-- A literal. -/
  | literal (value : Bool)
  /-- A negation. -/
  | not
  /-- A conjunction. -/
  | and
  /-- A disjunction. -/
  | or
deriving DecidableEq

namespace Operator

/-- The name of an operator in the element form. -/
def name : Operator → Text
  | literal true => "true".toList
  | literal false => "false".toList
  | not => "not".toList
  | and => "and".toList
  | or => "or".toList

/-- The operator with a given name. -/
def ofName? (name : Text) : Option Operator :=
  [literal true, literal false, not, and, or].find? (·.name == name)

/-- An operator is found under its name. -/
theorem ofName?_name (operator : Operator) : ofName? operator.name = some operator := by
  cases operator with
  | literal value => cases value <;> rfl
  | _ => rfl

end Operator

/-- The name of the elements that stand for operators. -/
def operatorElement : Text := "boolean".toList

/-- The key of the attribute that names the operator. -/
def operatorKey : Text := "operator".toList

/-- The element of an operator applied to operands. -/
def Operator.toElement (operator : Operator) (operands : List Markup.Element) : Markup.Element :=
  ⟨operatorElement, [(operatorKey, operator.name)], none, operands⟩

namespace Condition

variable {Leaf Subject : Type}

/-- The operator of the root, none for a leaf. -/
def operator? : Condition Leaf → Option Operator
  | literal value => some (.literal value)
  | not _ => some .not
  | and _ => some .and
  | or _ => some .or
  | leaf _ => none

mutual

/-- The condition as rule text. -/
def render [Predicate Leaf Subject] : Condition Leaf → Text
  | literal true => "true".toList
  | literal false => "false".toList
  | not operand => "not (".toList ++ render operand ++ [')']
  | and operands => renderJoined " AND ".toList operands
  | or operands => renderJoined " OR ".toList operands
  | leaf predicate => Predicate.render predicate

/-- Conditions in brackets, with a separator between them. -/
def renderJoined [Predicate Leaf Subject] (separator : Text) : List (Condition Leaf) → Text
  | [] => []
  | first :: rest => '(' :: render first ++ ')' :: renderFurther separator rest

/-- Conditions in brackets, with a separator before each. -/
def renderFurther [Predicate Leaf Subject] (separator : Text) : List (Condition Leaf) → Text
  | [] => []
  | first :: rest => separator ++ '(' :: render first ++ ')' :: renderFurther separator rest

end

mutual

/-- The condition as an element. -/
def toElement [Predicate Leaf Subject] : Condition Leaf → Markup.Element
  | literal value => (Operator.literal value).toElement []
  | not operand => Operator.not.toElement [toElement operand]
  | and operands => Operator.and.toElement (toElements operands)
  | or operands => Operator.or.toElement (toElements operands)
  | leaf predicate => Predicate.toElement predicate

/-- Conditions as elements, in order. -/
def toElements [Predicate Leaf Subject] : List (Condition Leaf) → List Markup.Element
  | [] => []
  | first :: rest => toElement first :: toElements rest

end

/-- The elements of a list are those of its members. -/
theorem toElements_eq_map [Predicate Leaf Subject] (operands : List (Condition Leaf)) :
    toElements operands = operands.map toElement := by
  induction operands with
  | nil => rfl
  | cons first rest ih => simp [toElements, ih]

mutual

/-- The condition with all its parts named. -/
def inspect [Predicate Leaf Subject] : Condition Leaf → Text
  | literal true => "True".toList
  | literal false => "False".toList
  | not operand => "Not(".toList ++ inspect operand ++ [')']
  | and operands => "And([".toList ++ inspectJoined operands ++ "])".toList
  | or operands => "Or([".toList ++ inspectJoined operands ++ "])".toList
  | leaf predicate => "Leaf(".toList ++ Predicate.inspect predicate ++ [')']

/-- Conditions with all their parts named, with commas between them. -/
def inspectJoined [Predicate Leaf Subject] : List (Condition Leaf) → Text
  | [] => []
  | first :: rest => inspect first ++ inspectFurther rest

/-- Conditions with all their parts named, with a comma before each. -/
def inspectFurther [Predicate Leaf Subject] : List (Condition Leaf) → Text
  | [] => []
  | first :: rest => ", ".toList ++ inspect first ++ inspectFurther rest

end

end Condition

end AccessRules
