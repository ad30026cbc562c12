import AccessRules.Text.Basic

/-!
# Places in YAML documents

YAML is read by lines and columns: what belongs together stands in one column, and a key stands on
one line. A place is a position with the text from there on. The text has line feeds, line
separators and paragraph separators as ends of lines, and no others.
-/
namespace AccessRules.Yaml

/-- The character separates parts of a line. -/
def isBlank (c : Char) : Bool := c = ' ' || c = '\t'

/-- The character ends a line. -/
def isBreak (c : Char) : Bool := c = '\n' || c = '\u2028' || c = '\u2029'

/-- The character may be part of a name: of an anchor, a directive or the handle of a tag. -/
def isNameChar (c : Char) : Bool := c.isAlphanum || c = '_' || c = '-'

/-- Nothing, a blank or the end of the line comes next. -/
def endsPart (text : Text) : Bool := text.head?.all fun c => isBlank c || isBreak c

/-- Three hyphens or three points stand here as a part of their own. -/
def isMarker (text : Text) : Bool :=
  ["---".toList, "...".toList].any fun marker => (Text.after? marker text).any endsPart

/-- A position in a document. -/
structure Position where
  /-- Lines before the position. -/
  line : Nat := 0
  /-- Characters before the position on its line. -/
  column : Nat := 0
  /-- Bytes before the position on its line. -/
  offset : Nat := 0
deriving DecidableEq

/-- The position after a character. -/
def Position.past (position : Position) (c : Char) : Position :=
  if isBreak c then ⟨position.line + 1, 0, 0⟩
  else ⟨position.line, position.column + 1, position.offset + c.utf8Size⟩

/-- A place in a document. -/
structure Place extends Position where
  /-- The text from the place on. -/
  rest : Text

namespace Place

/-- The place after some characters. -/
def advance (place : Place) (count : Nat) : Place :=
  ⟨(place.rest.take count).foldl Position.past place.toPosition, place.rest.drop count⟩

/-- The place after all characters with a property. -/
def advanceWhile (place : Place) (p : Char → Bool) : Place :=
  place.advance (place.rest.takeWhile p).length

/-- The place after the end of the line, if the line ends here. -/
def pastBreak (place : Place) : Place :=
  if place.rest.head?.any isBreak then place.advance 1 else place

/-- The start of the next line, if nothing but blanks and a comment are left of this one. -/
def nextLine? (place : Place) : Option Place :=
  let place := place.advanceWhile isBlank
  let place := if place.rest.head? = some '#' then place.advanceWhile (!isBreak ·) else place
  if place.rest.head?.all isBreak then some place.pastBreak else none

end Place

end AccessRules.Yaml
