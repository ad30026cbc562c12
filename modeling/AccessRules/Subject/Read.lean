import AccessRules.Rule.Reader
import AccessRules.Subject.Render

/-!
# Reading leaves

A token or an element of another field belongs to other readers. One of a known field is a leaf
over subjects, or is refused: its sign or its value is wrong.
-/
namespace AccessRules

/-- Why a token or an element of a known field is refused. -/
inductive LeafFault where
  /-- The quote that opens the value does not end it. -/
  | unterminatedQuote
  /-- A value without quotes has a blank. -/
  | unquotedBlank
  /-- The value is empty. -/
  | missingValue (field : Field)
  /-- The field does not have the sign. -/
  | unsupportedSign (field : Field) (sign : Text)
  /-- The value is no network. -/
  | network (fault : NetworkFault)
  /-- The value is no date. -/
  | date (written : Text) (fault : DateFault)
  /-- The element does not name a field. -/
  | noField
  /-- The element does not have a value. -/
  | noValue
deriving DecidableEq

/-- The message of a refused token or element. -/
def LeafFault.message : LeafFault → String
  | unterminatedQuote => "unterminated quoted value"
  | unquotedBlank => "values containing spaces must be quoted"
  | missingValue field => String.ofList field.name ++ " value missing"
  | unsupportedSign field sign =>
    "unsupported " ++ String.ofList field.name ++ " operator " ++ String.ofList sign.quoted
  | network fault => fault.message
  | date written fault =>
    "invalid date " ++ String.ofList written.quoted ++ ": " ++ fault.message
  | noField => "missing field attribute"
  | noValue => "missing value attribute"

namespace SubjectLeaf

/-- The character is part of a sign. -/
def isSignChar (c : Char) : Bool := c = '=' || c = '!' || c = '<' || c = '>'

/-- The character ends the name of a field. -/
def endsField (c : Char) : Bool := Text.isBlank c || isSignChar c

/-- A value without its quotes, if it starts with one. -/
def unquote (written : Text) : Except LeafFault Text :=
  match written with
  | '"' :: inner =>
    if inner.getLast? = some '"' then .ok inner.dropLast else .error .unterminatedQuote
  | written => if written.any Text.isBlank then .error .unquotedBlank else .ok written

/-- The leaf of a field with a sign and a value. -/
def ofParts (field : Field) (sign value : Text) : Except LeafFault SubjectLeaf :=
  if value = [] then .error (.missingValue field)
  else
    match field with
    | .user =>
      match Equality.ofSymbol? sign with
      | some equality => .ok (.user equality value)
      | none => .error (.unsupportedSign field sign)
    | .group =>
      match Equality.ofSymbol? sign with
      | some equality => .ok (.group equality value)
      | none => .error (.unsupportedSign field sign)
    | .ip =>
      if sign = [] ∨ Text.sameWord sign networkSign then
        match Network.read value with
        | .ok range => .ok (.network range)
        | .error fault => .error (.network fault)
      else .error (.unsupportedSign field sign)
    | .date =>
      match Comparison.ofSymbol? sign with
      | some comparison =>
        match Date.read value with
        | .ok day => .ok (.date comparison day)
        | .error fault => .error (.date value fault)
      | none => .error (.unsupportedSign field sign)

/-- Reads a token: the field up to a blank or a sign, the sign, and the value. -/
def read (token : Text) : Except LeafFault (Option SubjectLeaf) :=
  match Field.ofName? (token.takeWhile (!endsField ·)) with
  | none => .ok none
  | some field => do
    let rest := Text.trimStart (token.dropWhile (!endsField ·))
    let value ← unquote (Text.trim (rest.dropWhile isSignChar))
    let leaf ← ofParts field (rest.takeWhile isSignChar) value
    return some leaf

/-- Reads an element. A value is trimmed and its quotes, if it has any, belong to it. -/
def readElement (element : Markup.Element) : Except LeafFault (Option SubjectLeaf) :=
  if element.name = leafElement then
    match element.attribute? fieldKey with
    | none => .error .noField
    | some name =>
      match Field.ofName? name.trim with
      | none => .ok none
      | some field =>
        match element.attribute? valueKey with
        | none => .error .noValue
        | some value => do
          let sign := (element.attribute? signKey).getD []
          let leaf ← ofParts field sign.trim value.trim
          return some leaf
  else .ok none

/-- An answer about leaves over subjects as one about conditions, whose leaves hold them. A
refusal shows the source. -/
def answer {Leaf : Type} (embed : SubjectLeaf → Leaf) (source : Text) :
    Except LeafFault (Option SubjectLeaf) → Except RuleError (Option (Condition Leaf))
  | .error fault => .error (.malformed (.reported fault.message) (some source))
  | .ok leaf? => .ok (leaf?.map fun leaf => .leaf (embed leaf))

/-- The reader of tokens for leaves over subjects. -/
def tokenReader {Leaf : Type} (embed : SubjectLeaf → Leaf) : TokenReader Leaf :=
  fun token => answer embed token (read token)

/-- The reader of elements for leaves over subjects. -/
def elementReader {Leaf : Type} (embed : SubjectLeaf → Leaf) : ElementReader Leaf :=
  fun element => answer embed element.render (readElement element)

end SubjectLeaf

end AccessRules
