import AccessRules.Condition.Basic
import AccessRules.Text.Blank
import AccessRules.Text.WordCharacter

/-!
# Junctions

A junction keyword stands between operands. Before it stands a closing bracket or a blank, after
it an opening bracket or a blank; the brackets and blanks around it belong to it, so the operands
are what is left between keywords. A keyword at the edge of a text, with no operand on one side,
dangles.
-/
namespace AccessRules

/-- The two ways of joining operands. -/
inductive Junction where
  /-- Disjunction. -/
  | or
  /-- Conjunction. -/
  | and
deriving DecidableEq

namespace Junction

/-- The keyword in lower case. -/
def keyword : Junction → Text
  | or => "or".toList
  | and => "and".toList

/-- The name in messages. -/
def name : Junction → String
  | or => "OR"
  | and => "AND"

/-- The condition that joins operands. -/
def join {Leaf : Type} : Junction → List (Condition Leaf) → Condition Leaf
  | or => .or
  | and => .and

/-- The leaves of joined operands are those of the operands, in order. -/
theorem leaves_join {Leaf : Type} (junction : Junction) (operands : List (Condition Leaf)) :
    (junction.join operands).leaves = operands.flatMap Condition.leaves := by
  cases junction <;> exact Condition.leavesOfAll_eq_flatMap operands

/-- Joined operands are one level deeper than the deepest of them. -/
theorem depth_join {Leaf : Type} (junction : Junction) (operands : List (Condition Leaf)) :
    (junction.join operands).depth = Condition.depthOfAll operands + 1 := by
  cases junction <;> rfl

/-- The character may stand before a keyword. -/
def leads (c : Char) : Bool := c = ')' || Text.isBlank c

/-- The character may stand after a keyword. -/
def trails (c : Char) : Bool := c = '(' || Text.isBlank c

/-- What follows a keyword and the brackets and blanks after it, if the text starts with the
character before that keyword. -/
def afterBoundary? (junction : Junction) : Text → Option Text
  | [] => none
  | c :: text =>
    if leads c then
      match Text.afterWord? junction.keyword text with
      | some (d :: rest) => if trails d then some (rest.dropWhile trails) else none
      | _ => none
    else none

/-- The text before the first keyword, without the brackets and blanks that belong to the
keyword, and the text after it. -/
def split? (junction : Junction) (text : Text) : Option (Text × Text) :=
  (Text.search junction.afterBoundary? text).map fun (before, after) =>
    (before.dropEndWhile leads, after)

/-- Splits at most `fuel` times, at the first keyword each time. -/
def segmentsWithin (junction : Junction) : (fuel : Nat) → Text → List Text
  | 0, text => [text]
  | fuel + 1, text =>
    match junction.split? text with
    | none => [text]
    | some (before, after) => before :: segmentsWithin junction fuel after

/-- The operands between keywords, from left to right. A keyword takes at least one character, so
the length of the text bounds their number. -/
def segments (junction : Junction) (text : Text) : List Text :=
  junction.segmentsWithin text.length text

/-- No character of a word starts the text. -/
def endsWord (text : Text) : Bool := text.head?.all fun c => !Text.isWordCharacter c

/-- The text starts with the keyword as a word of its own. -/
def starts (junction : Junction) (text : Text) : Bool :=
  (Text.afterWord? junction.keyword text).any endsWord

/-- The text ends with the keyword as a word of its own. -/
def finishes (junction : Junction) (text : Text) : Bool :=
  (Text.afterWord? junction.keyword.reverse text.reverse).any endsWord

/-- The junction whose keyword dangles at an edge of the text. The start is looked at first. -/
def dangling? (text : Text) : Option Junction :=
  [or, and].find? (·.starts text.trim) |>.or ([or, and].find? (·.finishes text.trim))

end Junction

end AccessRules
