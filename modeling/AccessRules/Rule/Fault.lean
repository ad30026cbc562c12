import AccessRules.Markup.Fault
import AccessRules.Rule.Junction

/-!
# Refused rules

Every reason for which a rule is refused, with its message. A malformed rule is shown with the
part at fault, as it is written.
-/
namespace AccessRules

/-- Why a rule is no expression. -/
inductive Malformation where
  /-- A junction lacks an operand. -/
  | missingOperand (junction : Junction)
  /-- A negation lacks its operand. -/
  | missingNegated
  /-- Brackets of one kind are left over. -/
  | missingBracket
  /-- Brackets of both kinds are left over, or nothing separates a group from its neighbour. -/
  | unseparatedBrackets
  /-- The rule holds what looks like a marker. -/
  | reservedMarker
  /-- A marker names no clause. -/
  | unknownMarker
  /-- An element that stands for an operator does not name it. -/
  | missingOperator
  /-- A reason in the words of whoever reads the leaves. -/
  | reported (reason : String)
deriving DecidableEq

/-- Which limit a rule exceeds, with the limit. -/
inductive Excess where
  /-- The rule has too many bytes. -/
  | rule (bytes limit : Nat)
  /-- The document has too many bytes. -/
  | document (bytes limit : Nat)
  /-- The brackets nest too deep. -/
  | brackets (depth limit : Nat)
  /-- The parts nest too deep. -/
  | nesting (limit : Nat)
  /-- The bracket groups hold too many bytes. -/
  | groups (limit : Nat)
  /-- A part has too many bytes once its markers are replaced. -/
  | expansion (limit : Nat)
  /-- An excess in the words of whoever reads the leaves. -/
  | reported (reason : String)
deriving DecidableEq

/-- Why a rule is refused. -/
inductive RuleError where
  /-- It is no expression; the part at fault may be given. -/
  | malformed (cause : Malformation) (fragment : Option Text)
  /-- No reader of leaves knows the token or the element. -/
  | unrecognized (token : Text)
  /-- It exceeds a limit. -/
  | exceeded (excess : Excess)
  /-- It is a document that cannot be read. -/
  | markup (error : Markup.Error)
deriving DecidableEq

/-- The message of a rule that is no expression. -/
def Malformation.message : Malformation → String
  | missingOperand junction => "subclause of " ++ junction.name ++ " missing"
  | missingNegated => "operand of NOT missing"
  | missingBracket => "missing bracket"
  | unseparatedBrackets => "unbalanced or unseparated brackets"
  | reservedMarker => "reserved placeholder syntax in rule text"
  | unknownMarker => "unknown placeholder"
  | missingOperator => "missing operator attribute"
  | reported reason => reason

/-- The message of an exceeded limit. -/
def Excess.message : Excess → String
  | rule bytes limit => s!"rule is {bytes} bytes, limit is {limit}"
  | document bytes limit => s!"XML rule is {bytes} bytes, limit is {limit}"
  | brackets depth limit => s!"brackets nest {depth} deep, limit is {limit}"
  | nesting limit => s!"rule nesting exceeds depth {limit}"
  | groups limit => s!"bracket groups hold more than {limit} bytes"
  | expansion limit => s!"expanded rule is longer than {limit} bytes"
  | reported reason => reason

namespace RuleError

/-- The message of a refused rule. -/
def message : RuleError → String
  | malformed cause none => "Syntax error: " ++ cause.message
  | malformed cause (some fragment) =>
    "Syntax error: " ++ cause.message ++ " at \"" ++ String.ofList fragment ++ "\""
  | unrecognized token => "Unrecognized condition: " ++ String.ofList token
  | exceeded excess => "Limit exceeded: " ++ excess.message
  | markup error => "XML error: " ++ error.message

/-- The rule is no expression. -/
def isMalformed : RuleError → Bool
  | malformed _ _ => true
  | _ => false

/-- The rule exceeds a limit. -/
def isExceeded : RuleError → Bool
  | exceeded _ => true
  | _ => false

end RuleError

end AccessRules
