import AccessRules.Markup.Element

/-!
# Written elements

Elements are written compactly and without a declaration. Values and texts are escaped; names and
keys are written as they are. An element without text and children is one self-closing tag.
-/
namespace AccessRules.Markup

/-- A character as written in values and texts: the five markup characters become references. -/
def escapeChar (c : Char) : Text :=
  if c = '<' then "&lt;".toList
  else if c = '>' then "&gt;".toList
  else if c = '&' then "&amp;".toList
  else if c = '\'' then "&apos;".toList
  else if c = '"' then "&quot;".toList
  else [c]

/-- Text as written in values and texts. -/
def escape (text : Text) : Text := text.flatMap escapeChar

/-- Attributes as written in a tag, each after one space. -/
def renderAttributes (attributes : List (Text × Text)) : Text :=
  attributes.flatMap fun (key, value) => ' ' :: key ++ '=' :: '"' :: escape value ++ ['"']

mutual

/-- The written form of an element. -/
def Element.render : Element → Text
  | ⟨name, attributes, none, []⟩ => '<' :: name ++ renderAttributes attributes ++ ['/', '>']
  | ⟨name, attributes, text, children⟩ =>
    '<' :: name ++ renderAttributes attributes ++ '>' :: escape (text.getD []) ++
      Element.renderAll children ++ '<' :: '/' :: name ++ ['>']

/-- The written forms of elements, one after the other. -/
def Element.renderAll : List Element → Text
  | [] => []
  | first :: rest => first.render ++ Element.renderAll rest

end

/-- The written forms of a list are joined without anything between them. -/
theorem Element.renderAll_eq_flatMap (elements : List Element) :
    Element.renderAll elements = elements.flatMap Element.render := by
  induction elements with
  | nil => rfl
  | cons first rest ih => simp [Element.renderAll, ih]

end AccessRules.Markup
