import AccessRules.Settings.Datum

/-!
# JSON documents

JSON is read strictly: no comments, no commas after the last item, no other spaces than the four
of the format. Only numbers without sign, fraction and exponent are told apart. Code units that
are no characters may be written in text, but such text is not the key of a field.
-/
namespace AccessRules.Json

/-- The character separates tokens. -/
def isSpace (c : Char) : Bool := c = ' ' || c = '\t' || c = '\n' || c = '\r'

/-- The text after any spaces. -/
def skip (text : Text) : Text := text.dropWhile isSpace

/-- What a string is made of: characters and escaped code units. -/
inductive Piece where
  /-- A character. -/
  | character (c : Char)
  /-- A code unit of 16 bits. -/
  | unit (code : Nat)

/-- The text that pieces make, if every pair of code units is one and no other half is there. -/
def textOf? : List Piece → Option Text
  | [] => some []
  | .character c :: rest => (textOf? rest).map (c :: ·)
  | .unit high :: rest =>
    if 0xD800 ≤ high ∧ high < 0xDC00 then
      match rest with
      | .unit low :: rest =>
        if 0xDC00 ≤ low ∧ low < 0xE000 then
          let code := 0x10000 + (high - 0xD800) * 0x400 + (low - 0xDC00)
          (textOf? rest).map (Char.ofNat code :: ·)
        else none
      | _ => none
    else if 0xDC00 ≤ high ∧ high < 0xE000 then none
    else (textOf? rest).map (Char.ofNat high :: ·)

/-- Where a reader stands inside a string. -/
inductive Place where
  /-- Between characters. -/
  | plain
  /-- After a backslash. -/
  | escape
  /-- In a code unit, with the digits still to come and the number so far. -/
  | unit (left code : Nat)

/-- The character that an escape stands for. -/
def escaped? : Char → Option Char
  | '"' => some '"'
  | '\\' => some '\\'
  | '/' => some '/'
  | 'b' => some '\x08'
  | 'f' => some '\x0c'
  | 'n' => some '\n'
  | 'r' => some '\r'
  | 't' => some '\t'
  | _ => none

/-- Reads the rest of a string: its pieces and what follows the closing quote. -/
def readPieces : Place → Text → Option (List Piece × Text)
  | _, [] => none
  | .plain, c :: rest =>
    if c = '"' then some ([], rest)
    else if c = '\\' then readPieces .escape rest
    else if c.toNat < 0x20 then none
    else (readPieces .plain rest).map fun (pieces, after) => (.character c :: pieces, after)
  | .escape, c :: rest =>
    if c = 'u' then readPieces (.unit 4 0) rest
    else do
      let meant ← escaped? c
      let (pieces, after) ← readPieces .plain rest
      return (.character meant :: pieces, after)
  | .unit left code, c :: rest => do
    let digit ← Text.digitValue? 16 c
    let code := code * 16 + digit
    if left ≤ 1 then
      let (pieces, after) ← readPieces .plain rest
      return (.unit code :: pieces, after)
    else readPieces (.unit (left - 1) code) rest

/-- Reads a number and what follows it. -/
def readNumber (text : Text) : Option (Datum × Text) := do
  let (negative, text) := match text with
    | '-' :: rest => (true, rest)
    | text => (false, text)
  let digits := text.takeWhile Char.isDigit
  let rest := text.dropWhile Char.isDigit
  if digits = [] ∨ (digits.head? = some '0' ∧ 1 < digits.length) then none
  let (whole, rest) ← match rest with
    | '.' :: fraction =>
      if (fraction.takeWhile Char.isDigit) = [] then none
      else some (false, fraction.dropWhile Char.isDigit)
    | rest => some (true, rest)
  let (whole, rest) ← match rest with
    | 'e' :: exponent | 'E' :: exponent =>
      let unsigned := match exponent with
        | '+' :: unsigned | '-' :: unsigned => unsigned
        | unsigned => unsigned
      if (unsigned.takeWhile Char.isDigit) = [] then none
      else some (false, unsigned.dropWhile Char.isDigit)
    | rest => some (whole, rest)
  let meaning := if negative || !whole then .other else .natural (Text.ofDigits digits)
  return (.scalar none meaning, rest)

mutual

/-- Reads a value, after any spaces, and gives what follows it. -/
def readValue : (fuel : Nat) → Text → Option (Datum × Text)
  | 0, _ => none
  | fuel + 1, text =>
    match skip text with
    | '{' :: rest =>
      match skip rest with
      | '}' :: rest => some (.mapping [], rest)
      | rest => (readEntries fuel rest).map fun (entries, after) => (.mapping entries, after)
    | '[' :: rest =>
      match skip rest with
      | ']' :: rest => some (.list [], rest)
      | rest => (readItems fuel rest).map fun (items, after) => (.list items, after)
    | '"' :: rest =>
      (readPieces .plain rest).map fun (pieces, after) => (.scalar (textOf? pieces) .other, after)
    | 't' :: 'r' :: 'u' :: 'e' :: rest => some (.scalar none (.boolean true), rest)
    | 'f' :: 'a' :: 'l' :: 's' :: 'e' :: rest => some (.scalar none (.boolean false), rest)
    | 'n' :: 'u' :: 'l' :: 'l' :: rest => some (.scalar none .other, rest)
    | text => readNumber text

/-- Reads values up to the end of a list. -/
def readItems : (fuel : Nat) → Text → Option (List Datum × Text)
  | 0, _ => none
  | fuel + 1, text => do
    let (item, rest) ← readValue fuel text
    match skip rest with
    | ']' :: rest => return ([item], rest)
    | ',' :: rest =>
      let (items, rest) ← readItems fuel rest
      return (item :: items, rest)
    | _ => none

/-- Reads keys and values up to the end of a mapping. -/
def readEntries : (fuel : Nat) → Text → Option (List (Datum × Datum) × Text)
  | 0, _ => none
  | fuel + 1, text =>
    match skip text with
    | '"' :: rest => do
      let (key, rest) ← readPieces .plain rest
      let rest ← Text.after? [':'] (skip rest)
      let (value, rest) ← readValue fuel rest
      let entry := (.scalar (textOf? key) .other, value)
      match skip rest with
      | '}' :: rest => return ([entry], rest)
      | ',' :: rest =>
        let (entries, rest) ← readEntries fuel rest
        return (entry :: entries, rest)
      | _ => none
    | _ => none

end

/-- Reads a document. Every value takes a character, and reading one opens at most two levels of
recursion, so twice the length of the document bounds them. -/
def read? (document : Text) : Option Data :=
  match readValue (2 * document.length + 2) document with
  | some (datum, rest) => if skip rest = [] then some ⟨datum, []⟩ else none
  | none => none

end AccessRules.Json
