import AccessRules.Rule.Junction

/-!
# Shapes

The shape of a rule whose bracket groups are taken out says how it is read. Disjunction is looked
for first, then conjunction, so conjunction binds tighter; a negation is one only where no
junction is left, so it binds tightest.
-/
namespace AccessRules

/-- How a rule without bracket groups is read. -/
inductive Shape where
  /-- Operands joined by a junction. -/
  | joined (junction : Junction) (segments : List Text)
  /-- A keyword with no operand on one side. -/
  | dangling (junction : Junction)
  /-- A negation with the text of its operand. -/
  | negation (operand : Text)
  /-- A negation without operand. -/
  | bareNegation
  /-- A single token. -/
  | atom
deriving DecidableEq

/-- The operands of a junction, if its keyword occurs between two of them. -/
def Junction.operands? (junction : Junction) (text : Text) : Option (List Text) :=
  match junction.segments text with
  | [_] => none
  | segments => some segments

/-- The shape of a rule without bracket groups. -/
def Shape.of (rule : Text) : Shape :=
  match Junction.or.operands? rule with
  | some segments => .joined .or segments
  | none =>
    match Junction.and.operands? rule with
    | some segments => .joined .and segments
    | none =>
      match Junction.dangling? rule with
      | some junction => .dangling junction
      | none =>
        match Text.afterWord? "not ".toList rule with
        | some operand => .negation operand
        | none => if Text.sameWord rule "not".toList then .bareNegation else .atom

end AccessRules
