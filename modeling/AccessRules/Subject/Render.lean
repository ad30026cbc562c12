import AccessRules.Subject.Basic

/-!
# Written leaves

A leaf over subjects is written as a token: field, sign and value. A name that is empty or holds a
blank stands in double quotes. As an element it is a `condition` with the same three parts as
attributes; there the network has the sign `in` and always gives its number of leading bits.
-/
namespace AccessRules

/-- What a leaf over subjects compares. -/
inductive Field where
  /-- The user. -/
  | user
  /-- The groups of the user. -/
  | group
  /-- The address of the client. -/
  | ip
  /-- The day. -/
  | date
deriving DecidableEq

namespace Field

/-- The name of a field. -/
def name : Field → Text
  | user => "user".toList
  | group => "group".toList
  | ip => "ip".toList
  | date => "date".toList

/-- The field of a name, whatever the case of its letters. -/
def ofName? (name : Text) : Option Field := [user, group, ip, date].find? (·.name == name.lower)

/-- A field is found under its name. -/
theorem ofName?_name (field : Field) : ofName? field.name = some field := by
  cases field <;> rfl

end Field

/-- The name of the elements that stand for leaves over subjects. -/
def leafElement : Text := "condition".toList

/-- The key of the attribute that names the field. -/
def fieldKey : Text := "field".toList

/-- The key of the attribute that holds the sign. -/
def signKey : Text := "operator".toList

/-- The key of the attribute that holds the value. -/
def valueKey : Text := "value".toList

/-- The sign of networks in the element form. -/
def networkSign : Text := "in".toList

/-- The element of a leaf with the given parts. -/
def Field.toElement (field : Field) (sign value : Text) : Markup.Element :=
  ⟨leafElement, [(fieldKey, field.name), (signKey, sign), (valueKey, value)], none, []⟩

namespace SubjectLeaf

/-- A name as written in a token. -/
def renderName (name : Text) : Text :=
  if name = [] ∨ name.any Text.isBlank then '"' :: name ++ ['"'] else name

/-- The leaf as a token. -/
def render : SubjectLeaf → Text
  | user equality name => "user ".toList ++ equality.symbol ++ ' ' :: renderName name
  | group equality name => "group ".toList ++ equality.symbol ++ ' ' :: renderName name
  | network range => "ip ".toList ++ range.render
  | date comparison day => "date ".toList ++ comparison.symbol ++ ' ' :: day.render

/-- The leaf as an element. -/
def toElement : SubjectLeaf → Markup.Element
  | user equality name => Field.user.toElement equality.symbol name
  | group equality name => Field.group.toElement equality.symbol name
  | network range => Field.ip.toElement networkSign range.renderFull
  | date comparison day => Field.date.toElement comparison.symbol day.render

/-- The name of a way to compare names. -/
def inspectEquality : Equality → Text
  | .equal => "Equal".toList
  | .notEqual => "NotEqual".toList

/-- The name of a way to compare days. -/
def inspectComparison : Comparison → Text
  | .less => "Less".toList
  | .lessOrEqual => "LessOrEqual".toList
  | .greater => "Greater".toList
  | .greaterOrEqual => "GreaterOrEqual".toList
  | .equal => "Equal".toList

/-- A record with its fields named. -/
def inspectRecord (name first firstValue second secondValue : Text) : Text :=
  name ++ " \x7b ".toList ++ first ++ ": ".toList ++ firstValue ++ ", ".toList ++ second ++
    ": ".toList ++ secondValue ++ " \x7d".toList

/-- The leaf with all its parts named. -/
def inspect : SubjectLeaf → Text
  | user equality name =>
    inspectRecord "UserCondition".toList "operator".toList (inspectEquality equality)
      "user_id".toList name.quoted
  | group equality name =>
    inspectRecord "GroupCondition".toList "operator".toList (inspectEquality equality)
      "group".toList name.quoted
  | network range =>
    inspectRecord "IpCondition".toList "address".toList range.address.render
      "prefix".toList (Text.decimal range.prefixLength)
  | date comparison day =>
    inspectRecord "DateCondition".toList "operator".toList (inspectComparison comparison)
      "date".toList day.render

end SubjectLeaf

instance : Predicate SubjectLeaf Subject where
  holds := SubjectLeaf.holds
  render := SubjectLeaf.render
  toElement := SubjectLeaf.toElement
  inspect := SubjectLeaf.inspect

end AccessRules
