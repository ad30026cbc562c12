import AccessRules.Text.Basic

/-!
# Elements

An element has a name, attributes in the order they were first set, an optional text and child
elements. The text of an element stands before its children. Setting an attribute again changes
its value and keeps its place.
-/
namespace AccessRules.Markup

/-- A tree of named elements. -/
structure Element where
  /-- Name of the element. -/
  name : Text
  /-- Keys with their values, in order. -/
  attributes : List (Text × Text) := []
  /-- Text content, if any was set. -/
  text : Option Text := none
  /-- Child elements in order. -/
  children : List Element := []

/-- Puts a value under a key: in place if the key is there, else at the end. -/
def putAttribute (key value : Text) : List (Text × Text) → List (Text × Text)
  | [] => [(key, value)]
  | (k, v) :: rest => if k = key then (k, value) :: rest else (k, v) :: putAttribute key value rest

/-- A key that was put is found with its value. -/
theorem lookup_putAttribute_self (key value : Text) (attributes : List (Text × Text)) :
    (putAttribute key value attributes).lookup key = some value := by
  induction attributes with
  | nil => simp [putAttribute]
  | cons first rest ih =>
    obtain ⟨k, v⟩ := first
    by_cases same : k = key
    · simp [putAttribute, same]
    · have unequal : (key == k) = false := beq_eq_false_iff_ne.mpr (Ne.symm same)
      simp [putAttribute, same, List.lookup_cons, unequal, ih]

/-- Putting a value under one key leaves every other key as it was. -/
theorem lookup_putAttribute_of_ne {key other : Text} (value : Text)
    (attributes : List (Text × Text)) (different : other ≠ key) :
    (putAttribute key value attributes).lookup other = attributes.lookup other := by
  induction attributes with
  | nil => simp [putAttribute, different]
  | cons first rest ih =>
    obtain ⟨k, v⟩ := first
    by_cases same : k = key
    · have unequal : (other == key) = false := beq_eq_false_iff_ne.mpr different
      simp [putAttribute, same, List.lookup_cons, unequal]
    · simp [putAttribute, same, List.lookup_cons, ih]

namespace Element

/-- The value of an attribute. -/
def attribute? (element : Element) (key : Text) : Option Text := element.attributes.lookup key

/-- Sets an attribute. -/
def setAttribute (element : Element) (key value : Text) : Element :=
  { element with attributes := putAttribute key value element.attributes }

/-- Sets the text, in place of any text before. -/
def setText (element : Element) (text : Text) : Element := { element with text := some text }

/-- Adds to the end of the text. -/
def appendText (element : Element) (text : Text) : Element :=
  { element with text := some (element.text.getD [] ++ text) }

/-- Adds a child after the others. -/
def addChild (element child : Element) : Element :=
  { element with children := element.children ++ [child] }

/-- The first child. -/
def firstChild? (element : Element) : Option Element := element.children.head?

mutual

/-- Equality of elements is decided part by part. -/
def decEq : (left right : Element) → Decidable (left = right)
  | ⟨name, attributes, text, children⟩, ⟨name', attributes', text', children'⟩ =>
    match decEqAll children children' with
    | isTrue same =>
      decidable_of_iff (name = name' ∧ attributes = attributes' ∧ text = text') (by simp [same])
    | isFalse different => isFalse (by simp [different])

/-- Equality of lists of elements is decided element by element. -/
def decEqAll : (left right : List Element) → Decidable (left = right)
  | [], [] => isTrue rfl
  | [], _ :: _ => isFalse nofun
  | _ :: _, [] => isFalse nofun
  | first :: rest, first' :: rest' =>
    match decEq first first' with
    | isTrue same => @decidable_of_iff _ (rest = rest') (by simp [same]) (decEqAll rest rest')
    | isFalse different => isFalse (by simp [different])

end

instance : DecidableEq Element := decEq

end Element

end AccessRules.Markup
