import AccessRules.Settings.Yaml.Place

/-!
# Scalars of YAML

A scalar is plain, quoted or a block of lines. Plain and quoted scalars may go on over lines, whose
ends are folded: one end is a space, and of several the first is dropped. A plain scalar ends at
a colon before a blank, at a comment, where the indentation ends, and inside brackets at every
character that separates items. A block keeps the ends of its lines or folds them.
-/
namespace AccessRules.Yaml

/-- Blanks and ends of lines between two parts of a scalar. -/
structure Gap where
  /-- A line ends in the gap. -/
  crossed : Bool := false
  /-- The blanks, or the first end of a line; the last character first. -/
  lead : Text := []
  /-- Further ends of lines, the last one first. -/
  more : Text := []

namespace Gap

/-- The gap with one more blank. Blanks at the end or the start of a line do not count. -/
def blank (gap : Gap) (c : Char) : Gap :=
  if gap.crossed then gap else { gap with lead := c :: gap.lead }

/-- The gap with one more end of a line. -/
def endLine (gap : Gap) (c : Char) : Gap :=
  if gap.crossed then { gap with more := c :: gap.more } else ⟨true, [c], []⟩

/-- Nothing is in the gap. -/
def isEmpty (gap : Gap) : Bool := !gap.crossed && gap.lead.isEmpty

/-- What a gap stands for. -/
def fold (gap : Gap) : Text :=
  if gap.crossed && gap.lead = ['\n'] then
    if gap.more = [] then [' '] else gap.more.reverse
  else gap.lead.reverse ++ gap.more.reverse

end Gap

/-- The character opens, closes or separates items in brackets. -/
def isFlowChar (c : Char) : Bool := c = ',' || c = '[' || c = ']' || c = '\x7b' || c = '\x7d'

/-- The character means something at the start of a part, so no plain scalar starts with it. -/
def isIndicator (c : Char) : Bool := isFlowChar c || "#&*!|>'\"%@`".toList.contains c

/-- A plain scalar may start here. -/
def startsPlain (inFlow : Bool) : Text → Bool
  | [] => false
  | c :: rest =>
    if c = '-' then !endsPart rest
    else if c = '?' || c = ':' then !inFlow && !endsPart rest
    else !isIndicator c && !endsPart [c]

/-- Reads a plain scalar that is indented to the column `least` where it goes on over lines. Gives
its text, whether a line ended after it, and the place of the next part. In brackets a colon
before a character that separates items is refused. -/
def readPlain (inFlow : Bool) (least : Nat) :
    Gap → Position → Text → Option (Text × Bool × Place)
  | gap, position, [] => some ([], gap.crossed, ⟨position, []⟩)
  | gap, position, c :: rest =>
    if isBlank c then
      if gap.crossed && position.column < least && c = '\t' then none
      else readPlain inFlow least (gap.blank c) (position.past c) rest
    else if isBreak c then readPlain inFlow least (gap.endLine c) (position.past c) rest
    else if (gap.crossed && !inFlow && position.column < least) ||
        (position.column = 0 && isMarker (c :: rest)) || (c = '#' && !gap.isEmpty) ||
        (c = ':' && endsPart rest) || (inFlow && isFlowChar c) then
      some ([], gap.crossed, ⟨position, c :: rest⟩)
    else if inFlow && c = ':' && rest.head?.any fun next => next = '?' || isFlowChar next then none
    else do
      let (text, after) ← readPlain inFlow least {} (position.past c) rest
      return (gap.fold ++ c :: text, after)

/-- Reads a single-quoted scalar, after its first quote. A quote inside is written twice. -/
def readSingleQuoted : Gap → Position → Text → Option (Text × Place)
  | _, _, [] => none
  | gap, position, '\'' :: '\'' :: rest => do
    let (text, after) ← readSingleQuoted {} ((position.past '\'').past '\'') rest
    return (gap.fold ++ '\'' :: text, after)
  | gap, position, c :: rest =>
    if isBlank c then readSingleQuoted (gap.blank c) (position.past c) rest
    else if isBreak c then readSingleQuoted (gap.endLine c) (position.past c) rest
    else if position.column = 0 && isMarker (c :: rest) then none
    else if c = '\'' then some (gap.fold, ⟨position.past c, rest⟩)
    else do
      let (text, after) ← readSingleQuoted {} (position.past c) rest
      return (gap.fold ++ c :: text, after)

/-- What comes next inside a double-quoted scalar. -/
inductive Expected where
  /-- A character. -/
  | any
  /-- The character after a backslash. -/
  | escape
  /-- A digit of the number of a character, with the digits to come and the number so far. -/
  | digit (left number : Nat)

/-- The character that an escape stands for. -/
def escaped? : Char → Option Char
  | '0' => some '\x00'
  | 'a' => some '\x07'
  | 'b' => some '\x08'
  | 't' | '\t' => some '\t'
  | 'n' => some '\n'
  | 'v' => some '\x0b'
  | 'f' => some '\x0c'
  | 'r' => some '\r'
  | 'e' => some '\x1b'
  | 'N' => some '\u0085'
  | '_' => some '\u00a0'
  | 'L' => some '\u2028'
  | 'P' => some '\u2029'
  | c => if c = ' ' ∨ c = '"' ∨ c = '/' ∨ c = '\\' then some c else none

/-- How many digits follow the escape of a character given by its number. -/
def escapeDigits? : Char → Option Nat
  | 'x' => some 2
  | 'u' => some 4
  | 'U' => some 8
  | _ => none

/-- Reads a double-quoted scalar, after its first quote. The end of a line after a backslash is no
part of the scalar, and neither are the blanks after it. -/
def readDoubleQuoted : Expected → Gap → Position → Text → Option (Text × Place)
  | _, _, _, [] => none
  | .any, gap, position, c :: rest =>
    if isBlank c then readDoubleQuoted .any (gap.blank c) (position.past c) rest
    else if isBreak c then readDoubleQuoted .any (gap.endLine c) (position.past c) rest
    else if position.column = 0 && isMarker (c :: rest) then none
    else if c = '"' then some (gap.fold, ⟨position.past c, rest⟩)
    else do
      let (expected, content) := if c = '\\' then (.escape, []) else (.any, [c])
      let (text, after) ← readDoubleQuoted expected {} (position.past c) rest
      return (gap.fold ++ content ++ text, after)
  | .escape, _, position, c :: rest =>
    if isBreak c then readDoubleQuoted .any { crossed := true } (position.past c) rest
    else
      match escapeDigits? c with
      | some left => readDoubleQuoted (.digit left 0) {} (position.past c) rest
      | none => do
        let meant ← escaped? c
        let (text, after) ← readDoubleQuoted .any {} (position.past c) rest
        return (meant :: text, after)
  | .digit left number, _, position, c :: rest => do
    let digit ← Text.digitValue? 16 c
    let number := number * 16 + digit
    if 1 < left then readDoubleQuoted (.digit (left - 1) number) {} (position.past c) rest
    else if number.isValidChar then
      let (text, after) ← readDoubleQuoted .any {} (position.past c) rest
      return (Char.ofNat number :: text, after)
    else none

/-- What is kept of the ends of lines at the end of a block. -/
inductive Chomping where
  /-- The end of the last line. -/
  | clip
  /-- Nothing. -/
  | strip
  /-- All of them. -/
  | keep
deriving DecidableEq

/-- The sign of a way to chomp. -/
def chomping? : Char → Option Chomping
  | '+' => some .keep
  | '-' => some .strip
  | _ => none

/-- Reads what stands after the indicator of a block on its line: a way to chomp and a number of
columns to indent by, in either order. -/
def readBlockHeader (place : Place) : Option (Chomping × Option Nat × Place) :=
  let increment? := fun c => if c.isDigit then some (c.toNat - '0'.toNat) else none
  let chomp? := place.rest.head?.bind chomping?
  let place := if chomp?.isSome then place.advance 1 else place
  let indent? := place.rest.head?.bind increment?
  let place := if indent?.isSome then place.advance 1 else place
  let later? := if chomp?.isNone && indent?.isSome then place.rest.head?.bind chomping? else none
  let place := if later?.isSome then place.advance 1 else place
  if indent? = some 0 then none
  else place.nextLine?.map fun place => ((chomp?.or later?).getD .clip, indent?, place)

/-- Reads empty lines of a block and the indentation after them. Gives the ends of the lines, the
last column that was reached by spaces on any of the lines, and the place of the first character
that is no indentation. No tab stands in the indentation, as long as it is not `indent?`. -/
def readEmptyLines (indent? : Option Nat) :
    (deepest : Nat) → Position → Text → Option (Text × Nat × Place)
  | deepest, position, [] => some ([], max deepest position.column, ⟨position, []⟩)
  | deepest, position, c :: rest =>
    let inside := indent?.all (position.column < ·)
    if inside && c = ' ' then readEmptyLines indent? deepest (position.past c) rest
    else if inside && c = '\t' then none
    else if isBreak c then do
      let (ends, after) ← readEmptyLines indent? (max deepest position.column) (position.past c) rest
      return (c :: ends, after)
    else some ([], max deepest position.column, ⟨position, c :: rest⟩)

/-- What has been read of a block before one of its lines. -/
structure BlockLine where
  /-- The end of the line before, if there is one. -/
  lead : Text := []
  /-- The ends of the empty lines after it. -/
  ends : Text
  /-- The line before starts with a blank. -/
  afterBlank : Bool := false

/-- Reads at most `fuel` lines of a block that are indented by `indent`. Ends of lines are folded,
unless the block is literal or a line beside them starts with a blank. -/
def readBlockLines (literal : Bool) (indent : Nat) :
    (fuel : Nat) → BlockLine → Place → Option (Text × BlockLine × Place)
  | 0, before, place => some ([], before, place)
  | fuel + 1, before, place =>
    match place.rest with
    | [] => some ([], before, place)
    | c :: _ =>
      if place.column ≠ indent then some ([], before, place)
      else do
        let folded := !literal && before.lead = ['\n'] && !before.afterBlank && !isBlank c
        let join := if !folded then before.lead else if before.ends = [] then [' '] else []
        let line := place.rest.takeWhile (!isBreak ·)
        let stop := place.advance line.length
        let next := stop.pastBreak
        let (ends, _, place) ← readEmptyLines (some indent) 0 next.toPosition next.rest
        let (text, last, place) ←
          readBlockLines literal indent fuel ⟨stop.rest.take 1, ends, isBlank c⟩ place
        return (join ++ before.ends ++ line ++ text, last, place)

/-- Reads a block scalar, after its indicator, in a block whose content starts at the column
`least`. Where the header gives no indentation, it is that of the first line that is not empty,
or of an empty line before it that is longer. -/
def readBlockScalar (literal : Bool) (least : Nat) (place : Place) : Option (Text × Place) := do
  let (chomping, increment?, start) ← readBlockHeader place
  let indent? := increment?.map (least - 1 + ·)
  let (ends, deepest, place) ← readEmptyLines indent? 0 start.toPosition start.rest
  let indent := indent?.getD (max 1 (max deepest least))
  let (text, last, place) ← readBlockLines literal indent place.rest.length { ends } place
  let tail := match chomping with
    | .strip => []
    | .clip => last.lead
    | .keep => last.lead ++ last.ends
  return (text ++ tail, place)

end AccessRules.Yaml
