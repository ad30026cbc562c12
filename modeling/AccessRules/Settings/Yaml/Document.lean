import AccessRules.Settings.Yaml.Node

/-!
# YAML documents

A stream of settings has one document or none. Directives may stand before it, and then a mark
does too; marks that end a document may stand after it.
-/
namespace AccessRules.Yaml

/-- The character may be part of a stream. -/
def isAllowed (c : Char) : Bool :=
  let point := c.toNat
  point = 0x09 || point = 0x0A || point = 0x0D || (0x20 ≤ point && point ≤ 0x7E) ||
    point = 0x85 || (0xA0 ≤ point && point ≤ 0xFFFD) || 0x10000 ≤ point

/-- The text with carriage returns and next-line characters as line feeds. -/
def plainLines : Text → Text
  | '\r' :: '\n' :: rest => '\n' :: plainLines rest
  | c :: rest => (if c = '\r' || c = '\u0085' then '\n' else c) :: plainLines rest
  | [] => []

/-- The handles of tags that need no directive. -/
def usualHandles : List (Text × Text) := [(['!'], ['!']), (['!', '!'], formatTag)]

/-- Reads directives: gives the handles that they declare and the other tokens. The version is
given once and a known one, and no handle is given twice. -/
def readDirectives : (versioned : Bool) → (handles : List (Text × Text)) → List Token →
    Option (List (Text × Text) × List Token)
  | versioned, handles, .directive (.version major minor) :: rest =>
    if versioned || major != 1 || (minor != 1 && minor != 2) then none
    else readDirectives true handles rest
  | versioned, handles, .directive (.handle name meaning) :: rest =>
    if handles.any (·.1 == name) then none
    else readDirectives versioned ((name, meaning) :: handles) rest
  | _, handles, rest => some (handles, rest)

/-- A document that starts with a mark has nothing in it. -/
def isEmptyAfterMark : List Token → Bool
  | [] | .documentStart :: _ | .documentEnd :: _ | .directive _ :: _ => true
  | _ => false

/-- Reads a document: its root and what is left. -/
def readDocument (tokens : List Token) : Option (Datum × Reading) := do
  let (declared, rest) ← readDirectives false [] tokens
  let readRoot := fun rest =>
    readNode (declared ++ usualHandles) (8 * tokens.length + 8) true false { tokens := rest }
  match rest with
  | .documentStart :: rest =>
    if isEmptyAfterMark rest then return (empty, { tokens := rest }) else readRoot rest
  | rest => if rest.length = tokens.length then readRoot rest else none

/-- Reads a stream. A node takes a token, and reading one opens a bounded number of levels of
recursion, so a multiple of the number of tokens bounds them. -/
def read? (stream : Text) : Option Data := do
  if !stream.all isAllowed then none
  match ← Token.readAll? (plainLines stream) with
  | [] => return ⟨empty, []⟩
  | tokens =>
    let (root, reading) ← readDocument tokens
    if reading.tokens.all (· = .documentEnd) then return ⟨root, reading.anchors.numbered⟩ else none

end AccessRules.Yaml
