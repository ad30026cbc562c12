import AccessRules.Markup.Token
import AccessRules.Text.Blank

/-!
# Documents

A document is read token by token. The elements whose closing tag is still to come are kept, the
innermost first; an element that is closed becomes a child of the one around it, or the root.
Blank texts are ignored. A document has exactly one root and no text outside of it.
-/
namespace AccessRules.Markup

/-- What has been read of a document. -/
structure Reading where
  /-- Elements that are not closed yet, the innermost first. -/
  opened : List Element := []
  /-- The root, once it is closed. -/
  root? : Option Element := none

namespace Reading

/-- Puts a complete element into the tree. -/
def attach (reading : Reading) (element : Element) : Except Error Reading :=
  match reading.opened, reading.root? with
  | parent :: outer, _ => .ok { reading with opened := parent.addChild element :: outer }
  | [], none => .ok { reading with root? := some element }
  | [], some _ => .error (.unexpected (.secondRoot element.name))

/-- Adds text to the innermost open element. -/
def appendText (reading : Reading) (text : Text) : Except Error Reading :=
  if text.trim = [] then .ok reading
  else
    match reading.opened with
    | current :: outer => .ok { reading with opened := current.appendText text :: outer }
    | [] => .error (.unexpected (.text text.trim))

/-- Takes one token in; `rest` is what follows it in a document of `size` bytes. -/
def step (size : Nat) (rest : Text) (reading : Reading) : Token → Except Error Reading
  | .text content =>
    match resolve content with
    | .error fault => .error (.malformed (.reference fault (size - rest.byteLength)))
    | .ok text => reading.appendText text
  | .literal content => reading.appendText content
  | .opening content =>
    match Element.ofTag content with
    | .error fault => .error (.malformed (.attributes fault))
    | .ok element => .ok { reading with opened := element :: reading.opened }
  | .empty content =>
    match Element.ofTag content with
    | .error fault => .error (.malformed (.attributes fault))
    | .ok element => reading.attach element
  | .closing name =>
    match reading.opened with
    | [] => .error (.malformed (.strayClosing name (size - rest.byteLength)))
    | current :: outer =>
      if current.name = name then { reading with opened := outer }.attach current
      else
        let position := size - rest.byteLength
        .error (.malformed (.mismatchedClosing current.name name position))
  | .aside => .ok reading

/-- The root, if the document may end here. -/
def finish (reading : Reading) : Except Error Element :=
  match reading.opened, reading.root? with
  | current :: _, _ => .error (.malformed (.unclosedElement current.name))
  | [], none => .error (.malformed .noRoot)
  | [], some root => .ok root

/-- Reads at most `fuel` tokens of what is left of a document of `size` bytes. -/
def readWithin (size : Nat) : (fuel : Nat) → Reading → Text → Except Error Element
  | 0, reading, _ => reading.finish
  | fuel + 1, reading, text =>
    match Token.next? text with
    | .error (fault, rest) => .error (.malformed (.token fault (size - rest.byteLength)))
    | .ok none => reading.finish
    | .ok (some (token, rest)) => do
      let reading ← reading.step size rest token
      readWithin size fuel reading rest

end Reading

/-- Text without a leading byte order mark. -/
def withoutMark : Text → Text
  | '\uFEFF' :: rest => rest
  | text => text

/-- Reads a document and gives its root. A token takes at least one character, so the length of
the document bounds their number. -/
def Element.read (document : Text) : Except Error Element :=
  let text := withoutMark document
  Reading.readWithin text.byteLength (text.length + 1) {} text

end AccessRules.Markup
