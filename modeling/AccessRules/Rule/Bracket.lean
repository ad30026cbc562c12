import AccessRules.Text.Blank

/-!
# Brackets

Brackets group the parts of a rule. An innermost group is a pair of brackets with no bracket
between them.
-/
namespace AccessRules.Bracket

/-- The character is a bracket. -/
def isBracket (c : Char) : Bool := c = '(' || c = ')'

/-- The innermost group at the front of the text, without its brackets, and what follows it. -/
def group? : Text → Option (Text × Text)
  | '(' :: text =>
    match text.dropWhile (!isBracket ·) with
    | ')' :: rest => some (text.takeWhile (!isBracket ·), rest)
    | _ => none
  | _ => none

/-- The text cut at its innermost groups. -/
def groups (text : Text) : Text.Cut Text := Text.cut group? text

/-- Trims a text and, if all of it is one innermost group, takes the brackets off and trims what
they held. -/
def unwrap (text : Text) : Text :=
  match group? text.trim with
  | some (inner, []) => Text.trim inner
  | _ => text.trim

/-- The deepest nesting of brackets in what is left of a text, at a given depth. A closing bracket
without an opening one is passed over. -/
def nestingFrom : (depth : Nat) → Text → Nat
  | _, [] => 0
  | depth, c :: rest =>
    if c = '(' then max (depth + 1) (nestingFrom (depth + 1) rest)
    else if c = ')' then nestingFrom (depth - 1) rest
    else nestingFrom depth rest

/-- The deepest nesting of brackets. -/
def nesting (text : Text) : Nat := nestingFrom 0 text

end AccessRules.Bracket
