import AccessRules.Markup.Element
import AccessRules.Markup.Reference

/-!
# Tags

The content of an opening tag is the name of the element, up to the first space, and then its
attributes. A key is given once; a value stands between two equal quotes and its references are
resolved. Attributes are read in order, and the first fault ends the reading.
-/
namespace AccessRules.Markup

/-- Markup separates its parts by spaces, tabs and line ends. -/
def isSpace (c : Char) : Bool := c = ' ' || c = '\t' || c = '\r' || c = '\n'

/-- Every space of markup is a white space character of ASCII. -/
theorem isWhitespace_of_isSpace {c : Char} (space : isSpace c = true) :
    c.isWhitespace = true := by
  simp only [isSpace, Bool.or_eq_true, decide_eq_true_eq, or_assoc] at space
  rcases space with rfl | rfl | rfl | rfl <;> rfl

/-- Reads a quoted value: its resolved text and what follows the closing quote. -/
def readValue (size : Nat) (text : Text) : Except AttributeFault (Text × Text) :=
  match text.dropWhile isSpace with
  | [] => .error (.missingValue size)
  | quote :: body =>
    if quote = '"' ∨ quote = '\'' then
      match Text.splitAt? [quote] body with
      | none => .error (.unclosedQuote size quote)
      | some (written, rest) =>
        match resolve written with
        | .error fault => .error (.reference fault)
        | .ok value => .ok (value, rest)
    else .error (.unquotedValue (size - Text.byteLength (quote :: body)))

/-- Reads at most `fuel` attributes from what is left of a tag of `size` bytes. The keys read
before are given, each with what is left of the tag from it on. -/
def readAttributesWithin (size : Nat) :
    (fuel : Nat) → (seen : List (Text × Text)) → Text → Except AttributeFault (List (Text × Text))
  | 0, _, _ => .ok []
  | fuel + 1, seen, text =>
    match text.dropWhile isSpace with
    | [] => .ok []
    | first :: more =>
      let inKey := fun c => c != '=' && !isSpace c
      let key := first :: more.takeWhile inKey
      match (more.dropWhile inKey).dropWhile isSpace with
      | '=' :: written =>
        match seen.lookup key with
        | some previous =>
          .error (.duplicate (size - Text.byteLength (first :: more)) (size - previous.byteLength))
        | none => do
          let (value, rest) ← readValue size written
          let others ← readAttributesWithin size fuel ((key, first :: more) :: seen) rest
          return (key, value) :: others
      | other => .error (.expectedEquals (size - Text.byteLength other))

/-- Reads the content of an opening tag as an element without text and children. An attribute
takes at least one character, so the length of the content bounds their number. -/
def Element.ofTag (content : Text) : Except AttributeFault Element := do
  let name := content.takeWhile fun c => !isSpace c
  let rest := content.dropWhile fun c => !isSpace c
  let attributes ← readAttributesWithin content.byteLength content.length [] rest
  return ⟨name, attributes, none, []⟩

end AccessRules.Markup
