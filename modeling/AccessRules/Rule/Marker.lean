import AccessRules.Text.Basic
import AccessRules.Text.DecimalDigit

/-!
# Markers

While a rule is read, a marker stands in the place of a bracket group and names, by its number,
the clause that holds the group. Anything of the shape of a marker is reserved in rule text, with
decimal digits of any script.
-/
namespace AccessRules.Marker

/-- The marker with the given digits. -/
def ofDigits (digits : Text) : Text := '@' :: '<' :: digits ++ ['>', '@']

/-- The marker of the clause at an index. -/
def render (index : Nat) : Text := ofDigits (Text.decimal index)

/-- The digits of the marker at the front of the text, and what follows it. -/
def read? : Text → Option (Text × Text)
  | '@' :: '<' :: text =>
    match text.takeWhile Text.isDecimalDigit, text.dropWhile Text.isDecimalDigit with
    | first :: digits, '>' :: '@' :: rest => some (first :: digits, rest)
    | _, _ => none
  | _ => none

/-- The digits of the first marker in the text. -/
def find? (text : Text) : Option Text := (Text.search read? text).map fun (_, digits, _) => digits

/-- The index that digits name, if all of them are ASCII digits. -/
def index? (digits : Text) : Option Nat :=
  if digits.all Char.isDigit then some (Text.ofDigits digits) else none

end AccessRules.Marker
