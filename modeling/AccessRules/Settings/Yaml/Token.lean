import AccessRules.Settings.Yaml.Scalar
import AccessRules.Settings.Yaml.Tag

/-!
# Tokens of YAML

A document is a sequence of tokens. Blocks have no brackets of their own: a token opens a block
where the first of its parts stands in a later column than the block around it, and a token closes
it where a part stands in an earlier one. Keys have a mark in front, too, though most are only
followed by a colon: the place where a key may start is kept until the colon comes, and its mark
is put in then. Such a key stands on one line and takes at most 1024 bytes.
-/
namespace AccessRules.Yaml

/-- How a scalar is written. -/
inductive Style where
  /-- Without quotes. -/
  | plain
  /-- In quotes. -/
  | quoted
  /-- As a block that keeps the ends of its lines. -/
  | literal
  /-- As a block that folds the ends of its lines. -/
  | folded
deriving DecidableEq

/-- A piece of a document. -/
inductive Token where
  /-- A directive. -/
  | directive (directive : Directive)
  /-- The mark that starts a document. -/
  | documentStart
  /-- The mark that ends a document. -/
  | documentEnd
  /-- A list after hyphens starts. -/
  | blockList
  /-- A mapping without brackets starts. -/
  | blockMapping
  /-- A block ends. -/
  | blockEnd
  /-- A list in brackets starts. -/
  | flowList
  /-- A list in brackets ends. -/
  | flowListEnd
  /-- A mapping in braces starts. -/
  | flowMapping
  /-- A mapping in braces ends. -/
  | flowMappingEnd
  /-- The hyphen before an item. -/
  | entry
  /-- The comma between items. -/
  | comma
  /-- A key comes next. -/
  | key
  /-- The colon before a value. -/
  | value
  /-- A node that was named before. -/
  | alias (name : Text)
  /-- The name of a node. -/
  | anchor (name : Text)
  /-- The type of a node. -/
  | tag (handle suffix : Text)
  /-- A scalar. -/
  | scalar (style : Style) (text : Text)
deriving DecidableEq

/-- A place where a key may have started. -/
structure KeyStart where
  /-- How many tokens come before the key. -/
  index : Nat
  /-- Where the key starts. -/
  position : Position
  /-- Nothing but a key may stand there. -/
  required : Bool

/-- The tokens of the first part of a document, and what they say about the rest. -/
structure Layout where
  /-- Where the rest starts. -/
  place : Place
  /-- The tokens so far. -/
  tokens : Array Token := #[]
  /-- The first column inside of the innermost block: the one after that of its parts. -/
  least : Nat := 0
  /-- The same of the blocks around it, innermost first. -/
  outer : List Nat := []
  /-- A key may start at the next part. -/
  keyAllowed : Bool := true
  /-- Where a key may have started that has no colon yet. -/
  key? : Option KeyStart := none
  /-- The same outside of the brackets that are open, innermost first. -/
  outerKeys : List (Option KeyStart) := []

namespace Layout

/-- Brackets are open. -/
def inFlow (layout : Layout) : Bool := !layout.outerKeys.isEmpty

/-- The text of the rest. -/
def rest (layout : Layout) : Text := layout.place.rest

/-- Adds a token. -/
def put (layout : Layout) (token : Token) : Layout :=
  { layout with tokens := layout.tokens.push token }

/-- Adds a token that was read up to a place. -/
def putUpTo (layout : Layout) (token : Token) (place : Place) : Layout :=
  { layout.put token with place }

/-- Forgets the place where a key may have started, unless a key must be there. -/
def dropKey? (layout : Layout) : Option Layout :=
  if layout.key?.any (·.required) then none else some { layout with key? := none }

/-- A key may start here, if one may start at all. It must, if nothing else can stand in this
column of the innermost block. -/
def startKey? (layout : Layout) : Option Layout :=
  if layout.keyAllowed then do
    let required := !layout.inFlow && layout.least = layout.place.column + 1
    return { ← layout.dropKey? with key? := some ⟨layout.tokens.size, layout.place.toPosition, required⟩ }
  else some layout

/-- Opens a block at a column, unless it is already open. Its token comes after `index` others. -/
def openBlock (layout : Layout) (column index : Nat) (token : Token) : Layout :=
  if !layout.inFlow && layout.least ≤ column then
    { layout with
      least := column + 1
      outer := layout.least :: layout.outer
      tokens := layout.tokens.insertIdxIfInBounds index token }
  else layout

/-- Closes all blocks whose inside starts after the column `bound`. -/
def closeBlocks (layout : Layout) (bound : Nat) : Layout :=
  if layout.inFlow then layout
  else
    let blocks := layout.least :: layout.outer
    let closed := blocks.takeWhile (bound < ·)
    match blocks.drop closed.length with
    | [] => layout
    | least :: outer =>
      { layout with
        least, outer
        tokens := closed.foldl (fun tokens _ => tokens.push .blockEnd) layout.tokens }

/-- A key that starts there cannot reach this place: a line ends between them, or the text between
them is too long. -/
def isPast (start : KeyStart) (place : Place) : Bool :=
  start.position.line < place.line ||
    start.position.offset + 1024 < place.offset

/-- Forgets where a key may have started that cannot reach this place. -/
def refreshKey (place : Place) : Option KeyStart → Option (Option KeyStart)
  | none => some none
  | some start =>
    if isPast start place then if start.required then none else some none else some (some start)

/-- Forgets all places where a key can no longer have started. -/
def refreshKeys? (layout : Layout) : Option Layout := do
  let key? ← refreshKey layout.place layout.key?
  let outerKeys ← layout.outerKeys.mapM (refreshKey layout.place)
  return { layout with key?, outerKeys }

/-- Skips blanks, comments and empty lines. Outside of brackets a key may start on a new line, and
no tab stands before one. A byte order mark may start a line. -/
def skipGap (inFlow : Bool) :
    (inComment keyAllowed : Bool) → Position → Text → Bool × Place
  | _, keyAllowed, position, [] => (keyAllowed, ⟨position, []⟩)
  | inComment, keyAllowed, position, c :: rest =>
    if isBreak c then skipGap inFlow false (keyAllowed || !inFlow) (position.past c) rest
    else if inComment || c = '#' then skipGap inFlow true keyAllowed (position.past c) rest
    else if c = ' ' || (c = '\t' && (inFlow || !keyAllowed)) ||
        (c = '\uFEFF' && position.column = 0) then
      skipGap inFlow false keyAllowed (position.past c) rest
    else (keyAllowed, ⟨position, c :: rest⟩)

/-- Moves to the next part. -/
def skip (layout : Layout) : Layout :=
  let (keyAllowed, place) :=
    skipGap layout.inFlow false layout.keyAllowed layout.place.toPosition layout.rest
  { layout with keyAllowed, place }

/-- Reads the start of a list or a mapping in brackets, which may be a key. -/
def openFlow? (layout : Layout) (token : Token) : Option Layout := do
  let layout ← layout.startKey?
  return {
    layout.putUpTo token (layout.place.advance 1) with
    outerKeys := layout.key? :: layout.outerKeys
    key? := none
    keyAllowed := true }

/-- Reads the end of a list or a mapping in brackets. -/
def closeFlow? (layout : Layout) (token : Token) : Option Layout := do
  let layout ← layout.dropKey?
  let layout := { layout.putUpTo token (layout.place.advance 1) with keyAllowed := false }
  match layout.outerKeys with
  | [] => return layout
  | key? :: outerKeys => return { layout with key?, outerKeys }

/-- Reads the comma between items. -/
def readComma? (layout : Layout) : Option Layout := do
  let layout ← layout.dropKey?
  return { layout.putUpTo .comma (layout.place.advance 1) with keyAllowed := true }

/-- Opens a block at this place, if a part of one may stand here. -/
def openHere? (layout : Layout) (token : Token) : Option Layout :=
  if layout.inFlow then some layout
  else if layout.keyAllowed then
    some (layout.openBlock layout.place.column layout.tokens.size token)
  else none

/-- Reads the hyphen before an item. -/
def readEntry? (layout : Layout) : Option Layout := do
  let layout ← (← layout.openHere? .blockList).dropKey?
  return { layout.putUpTo .entry (layout.place.advance 1) with keyAllowed := true }

/-- Reads the question mark before a key. -/
def readKey? (layout : Layout) : Option Layout := do
  let layout ← (← layout.openHere? .blockMapping).dropKey?
  return { layout.putUpTo .key (layout.place.advance 1) with keyAllowed := !layout.inFlow }

/-- Reads the colon before a value, and puts in the mark of the key if it has none. -/
def readValue? (layout : Layout) : Option Layout := do
  let layout ←
    match layout.key? with
    | some start =>
      let layout :=
        { layout with
          tokens := layout.tokens.insertIdxIfInBounds start.index .key
          key? := none
          keyAllowed := false }
      some (layout.openBlock start.position.column start.index .blockMapping)
    | none =>
      (layout.openHere? .blockMapping).map fun layout =>
        { layout with keyAllowed := !layout.inFlow }
  return layout.putUpTo .value (layout.place.advance 1)

/-- Reads a part that may be a key and that no key can follow. -/
def readNode? (layout : Layout) (read : Layout → Option Layout) : Option Layout := do
  read { ← layout.startKey? with keyAllowed := false }

/-- Reads the name of a node, or of one that was named before, after its indicator. -/
def readName? (token : Text → Token) (layout : Layout) : Option Layout :=
  let name := (layout.rest.drop 1).takeWhile isNameChar
  let after := layout.place.advance (name.length + 1)
  if name ≠ [] ∧ (endsPart after.rest ∨ after.rest.head?.any "?:,]\x7d%@`".toList.contains) then
    some (layout.putUpTo (token name) after)
  else none

/-- Reads a tag. -/
def readTag? (layout : Layout) : Option Layout := do
  let (handle, suffix, after) ← readTag layout.inFlow layout.place
  return layout.putUpTo (.tag handle suffix) after

/-- Reads a scalar in quotes. -/
def readQuoted? (read : Position → Text → Option (Text × Place)) (layout : Layout) :
    Option Layout := do
  let place := layout.place.advance 1
  let (text, after) ← read place.toPosition place.rest
  return layout.putUpTo (.scalar .quoted text) after

/-- Reads a plain scalar. A key may start after one that goes to another line. -/
def readPlain? (layout : Layout) : Option Layout := do
  let (text, crossed, after) ←
    readPlain layout.inFlow layout.least {} layout.place.toPosition layout.rest
  return { layout.putUpTo (.scalar .plain text) after with keyAllowed := crossed }

/-- Reads a scalar that is a block of lines. -/
def readBlock? (layout : Layout) (style : Style) : Option Layout := do
  let layout ← layout.dropKey?
  let (text, after) ←
    readBlockScalar (style = .literal) layout.least (layout.place.advance 1)
  return { layout.putUpTo (.scalar style text) after with keyAllowed := true }

/-- Closes all blocks before something that belongs to no document or ends one. -/
def leave? (layout : Layout) : Option Layout := do
  let layout ← (layout.closeBlocks 0).dropKey?
  return { layout with keyAllowed := false }

/-- Reads a mark that starts or ends a document. -/
def readMarker? (layout : Layout) (token : Token) : Option Layout := do
  let layout ← layout.leave?
  return layout.putUpTo token (layout.place.advance 3)

/-- Reads a directive. -/
def readDirective? (layout : Layout) : Option Layout := do
  let layout ← layout.leave?
  let (directive, after) ← readDirective layout.place
  return layout.putUpTo (.directive directive) after

/-- Reads the next token, whose first character and what follows it are given. -/
def next? (layout : Layout) (c : Char) (after : Text) : Option Layout :=
  if layout.place.column = 0 && c = '%' then layout.readDirective?
  else if layout.place.column = 0 && isMarker (c :: after) then
    layout.readMarker? (if c = '-' then .documentStart else .documentEnd)
  else if c = '[' then layout.openFlow? .flowList
  else if c = '\x7b' then layout.openFlow? .flowMapping
  else if c = ']' then layout.closeFlow? .flowListEnd
  else if c = '\x7d' then layout.closeFlow? .flowMappingEnd
  else if c = ',' then layout.readComma?
  else if c = '-' && endsPart after then layout.readEntry?
  else if c = '?' && (layout.inFlow || endsPart after) then layout.readKey?
  else if c = ':' && (layout.inFlow || endsPart after) then layout.readValue?
  else if c = '*' then layout.readNode? (readName? .alias)
  else if c = '&' then layout.readNode? (readName? .anchor)
  else if c = '!' then layout.readNode? readTag?
  else if c = '|' && !layout.inFlow then layout.readBlock? .literal
  else if c = '>' && !layout.inFlow then layout.readBlock? .folded
  else if c = '\'' then layout.readNode? (readQuoted? (readSingleQuoted {}))
  else if c = '"' then layout.readNode? (readQuoted? (readDoubleQuoted .any {}))
  else if startsPlain layout.inFlow (c :: after) then layout.readNode? readPlain?
  else none

/-- Reads at most `fuel` tokens, up to the end of the text. -/
def readWithin : (fuel : Nat) → Layout → Option (Array Token)
  | 0, _ => none
  | fuel + 1, layout => do
    let layout ← layout.skip.refreshKeys?
    let layout := layout.closeBlocks (layout.place.column + 1)
    match layout.rest with
    | [] => return (← layout.leave?).tokens
    | c :: after => readWithin fuel (← layout.next? c after)

end Layout

/-- Reads all tokens of a document. A token takes at least one character, so the length of the
document bounds their number. -/
def Token.readAll? (document : Text) : Option (List Token) :=
  (Layout.readWithin (document.length + 1) { place := ⟨{}, document⟩ }).map (·.toList)

end AccessRules.Yaml
