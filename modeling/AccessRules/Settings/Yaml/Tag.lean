import AccessRules.Settings.Yaml.Place

/-!
# Tags and directives of YAML

A tag names the type of a node: in full, or by a handle with a suffix. Directives stand before a
document and declare its version and handles. Percent signs escape octets, which make characters
of one to four octets; an octet is represented by the character with its number, and a name
ends before an octet that is zero.
-/
namespace AccessRules.Yaml

/-- The character may be part of a tag. Brackets and commas may be only in full tags. -/
def isTagChar (full : Bool) (c : Char) : Bool :=
  isNameChar c || ";/?:@&=+$.!~*'()".toList.contains c || (full && ",[]".toList.contains c)

/-- How many octets follow the first octet of a character. -/
def octetsAfter? (octet : Nat) : Option Nat :=
  if octet < 0x80 then some 0
  else if octet < 0xC0 then none
  else if octet < 0xE0 then some 1
  else if octet < 0xF0 then some 2
  else if octet < 0xF8 then some 3
  else none

/-- Reads the characters of a tag; `left` octets of a character are still to come. -/
def readTagChars (full : Bool) : (left : Nat) → Position → Text → Option (Text × Place)
  | left, position, '%' :: high :: low :: rest => do
    let octet := 16 * (← Text.digitValue? 16 high) + (← Text.digitValue? 16 low)
    let left ←
      if left = 0 then octetsAfter? octet
      else if octet / 64 = 2 then some (left - 1)
      else none
    let after := ['%', high, low].foldl Position.past position
    let (name, after) ← readTagChars full left after rest
    return (Char.ofNat octet :: name, after)
  | left, position, c :: rest =>
    if left ≠ 0 ∨ c = '%' then none
    else if isTagChar full c then do
      let (name, after) ← readTagChars full 0 (position.past c) rest
      return (c :: name, after)
    else some ([], ⟨position, c :: rest⟩)
  | left, position, [] => if left = 0 then some ([], ⟨position, []⟩) else none

/-- Reads part of a tag, which may be empty. -/
def readTagName (full : Bool) (place : Place) : Option (Text × Place) :=
  readTagChars full 0 place.toPosition place.rest

/-- Reads part of a tag that has at least one character. -/
def readTagPart (full : Bool) (place : Place) : Option (Text × Place) := do
  let (name, after) ← readTagName full place
  if after.column = place.column then none else return (name, after)

/-- A name up to the first octet that is zero. -/
def upToZero (name : Text) : Text := name.takeWhile (· != '\x00')

/-- Reads a tag as its handle and its suffix, from its exclamation mark on. A full tag has no
handle, and neither has the tag that is only an exclamation mark. -/
def readTag (inFlow : Bool) (place : Place) : Option (Text × Text × Place) := do
  let inside := place.advance 1
  let (handle, suffix, after) ←
    if inside.rest.head? = some '<' then do
      let (name, after) ← readTagPart true (inside.advance 1)
      if after.rest.head? = some '>' then some ([], upToZero name, after.advance 1) else none
    else do
      let word := inside.rest.takeWhile isNameChar
      let after := inside.advance word.length
      if after.rest.head? = some '!' then do
        let (suffix, after) ← readTagPart false (after.advance 1)
        some ('!' :: word ++ ['!'], upToZero suffix, after)
      else do
        let (name, after) ← readTagName false after
        let suffix := upToZero (word ++ name)
        some (if suffix = [] then ([], ['!'], after) else (['!'], suffix, after))
  if endsPart after.rest || (inFlow && after.rest.head? = some ',') then
    return (handle, suffix, after)
  else none

/-- What stands before a document. -/
inductive Directive where
  /-- The version of the format. -/
  | version (major minor : Nat)
  /-- A handle with what it stands for. -/
  | handle (name meaning : Text)
deriving DecidableEq

/-- Reads a number of at most nine digits. -/
def readVersionNumber (place : Place) : Option (Nat × Place) :=
  let digits := place.rest.takeWhile Char.isDigit
  if digits = [] ∨ 9 < digits.length then none
  else some (Text.ofDigits digits, place.advance digits.length)

/-- Reads the version in a directive. -/
def readVersion (place : Place) : Option (Directive × Place) := do
  let (major, after) ← readVersionNumber (place.advanceWhile isBlank)
  if after.rest.head? ≠ some '.' then none
  let (minor, after) ← readVersionNumber (after.advance 1)
  return (.version major minor, after)

/-- Reads the handle and its meaning in a directive. -/
def readHandle (place : Place) : Option (Directive × Place) := do
  let place := place.advanceWhile isBlank
  if place.rest.head? ≠ some '!' then none
  let word := (place.advance 1).rest.takeWhile isNameChar
  let after := place.advance (word.length + 1)
  let closed := after.rest.head? = some '!'
  if !closed && word ≠ [] then none
  let after := if closed then after.advance 1 else after
  if !after.rest.head?.any isBlank then none
  let (meaning, stop) ← readTagPart true (after.advanceWhile isBlank)
  if !endsPart stop.rest then none
  return (.handle ('!' :: word ++ if closed then ['!'] else []) (upToZero meaning), stop)

/-- Reads a directive, from its percent sign on, with the rest of its line. -/
def readDirective (place : Place) : Option (Directive × Place) := do
  let name := (place.advance 1).rest.takeWhile isNameChar
  let after := place.advance (name.length + 1)
  if !endsPart after.rest then none
  let (directive, after) ←
    if name = "YAML".toList then readVersion after
    else if name = "TAG".toList then readHandle after
    else none
  return (directive, ← after.nextLine?)

end AccessRules.Yaml
