import AccessRules.Proofs.Markup.Spelling

/-!
# Composed elements are read back

An element is composed by setting attributes and texts and by adding children. If its names and
keys are names of ASCII characters, and if each text that is set is settled, the written form is
read as the element itself. Values may be any texts, and a key that is set again keeps its place.
-/
namespace AccessRules.Markup

/-! ## Names -/

/-- The character can stand in a name: an ASCII letter or digit, a hyphen, an underscore or a full
stop. -/
def inName (c : Char) : Bool := c.isAlphanum || c = '-' || c = '_' || c = '.'

/-- The text is a name: it starts with an ASCII letter or an underscore, and each of its characters
can stand in a name. -/
def isName : Text → Bool
  | [] => false
  | first :: rest => (first.isAlpha || first = '_') && rest.all inName

/-- No character of a name is a space or has a meaning in a tag. -/
theorem plain_of_isName {name : Text} (named : isName name = true) :
    ∀ c ∈ name, c ∉ [' ', '\t', '\r', '\n', '=', '<', '>', '"', '\'', '/', '!', '?'] := by
  have plain : ∀ c, inName c = true →
      c ∉ [' ', '\t', '\r', '\n', '=', '<', '>', '"', '\'', '/', '!', '?'] := by
    intro c kind mem
    simp only [List.mem_cons, List.not_mem_nil, or_false] at mem
    rcases mem with rfl | rfl | rfl | rfl | rfl | rfl | rfl | rfl | rfl | rfl | rfl | rfl <;>
      exact absurd kind (by decide)
  cases name with
  | nil => simp
  | cons first rest =>
    rw [isName, Bool.and_eq_true] at named
    intro c mem
    rcases List.mem_cons.mp mem with rfl | mem
    · refine plain c ?_
      rcases Bool.or_eq_true _ _ ▸ named.1 with letter | underscore
      · simp [inName, Char.isAlphanum, letter]
      · simp_all [inName]
    · exact plain c (List.all_eq_true.mp named.2 c mem)

/-- No character of a name is a space. -/
theorem solid_of_isName {name : Text} (named : isName name = true) :
    ∀ c ∈ name, isSpace c = false := fun c mem => by
  have := plain_of_isName named c mem
  simp_all [isSpace]

/-- A name can be the key of an attribute. -/
theorem isKey_of_isName {name : Text} (named : isName name = true) : IsKey name where
  filled := by
    rintro rfl
    contradiction
  solid := solid_of_isName named
  unassigned mem := plain_of_isName named '=' (List.mem_of_mem_tail mem) (by decide)

/-- Text without quotes and closing angle brackets leaves no quote open. -/
theorem quoteAfter?_of_plain {text : Text} (plain : ∀ c ∈ text, c ∉ ['>', '"', '\'']) :
    quoteAfter? none text = some none := by
  induction text with
  | nil => rfl
  | cons c text ih =>
    have here := plain c (by simp)
    simp only [List.mem_cons, List.not_mem_nil, or_false, not_or] at here
    simpa [quoteAfter?, here] using ih fun d mem => plain d (by simp [mem])

/-- A quote is open up to its next occurrence. -/
theorem quoteAfter?_quoted {quote : Char} {text : Text} (free : quote ∉ text) :
    quoteAfter? (some quote) (text ++ [quote]) = some none := by
  induction text with
  | nil => simp [quoteAfter?]
  | cons c text ih =>
    rw [List.mem_cons, not_or] at free
    simpa [quoteAfter?, Ne.symm free.1] using ih free.2

/-- Attributes whose keys are names leave no quote open. -/
theorem quoteAfter?_renderAttributes {attributes : List (Text × Text)}
    (keyed : ∀ entry ∈ attributes, isName entry.1 = true) :
    quoteAfter? none (renderAttributes attributes) = some none := by
  induction attributes with
  | nil => rfl
  | cons first others ih =>
    obtain ⟨key, value⟩ := first
    have rest := ih fun entry mem => keyed entry (by simp [mem])
    have plain : ∀ c ∈ ' ' :: key ++ ['='], c ∉ ['>', '"', '\''] := by
      intro c mem
      rcases List.mem_append.mp mem with mem | mem
      · rcases List.mem_cons.mp mem with rfl | mem
        · decide
        · have := plain_of_isName (keyed (key, value) (by simp)) c mem
          simp_all
      · simp_all
    have quoted := quoteAfter?_quoted (not_mem_escape (.inl rfl) value)
    have whole : renderAttributes ((key, value) :: others) =
        (' ' :: key ++ ['=']) ++ ('"' :: (escape value ++ ['"']) ++ renderAttributes others) := by
      simp [renderAttributes]
    rw [whole, quoteAfter?_append, quoteAfter?_of_plain plain, Option.bind_some,
      quoteAfter?_append]
    simp [quoteAfter?, quoted, rest]

/-- A name opens no quote and ends no tag. -/
theorem closed_of_isName {name : Text} (named : isName name = true) :
    quoteAfter? none name = some none := quoteAfter?_of_plain fun c mem => by
  have := plain_of_isName named c mem
  simp_all

/-- A name does not end in a slash. -/
theorem unslashed_of_isName {name : Text} (named : isName name = true) :
    ∀ c ∈ name.getLast?, c ≠ '/' := fun c last => by
  have := plain_of_isName named c (List.mem_of_getLast? last)
  simp_all

/-- A tag of names, with no key given twice, is read back. -/
theorem isTag_of_isName {name : Text} {attributes : List (Text × Text)}
    (named : isName name = true) (keyed : ∀ entry ∈ attributes, isName entry.1 = true)
    (distinct : (attributes.map Prod.fst).Nodup) : IsTag name attributes where
  solid := solid_of_isName named
  keyed entry mem := isKey_of_isName (keyed entry mem)
  distinct := distinct
  first c head := by
    have := plain_of_isName named c (List.mem_of_head? head)
    simp_all
  closed := by
    rw [quoteAfter?_append, closed_of_isName named, Option.bind_some,
      quoteAfter?_renderAttributes keyed]

/-! ## Composed elements -/

/-- An element of names and settled texts, made from elements without content by setting
attributes and texts and adding children. -/
inductive Element.Composed : Element → Prop where
  | new {name : Text} (named : isName name = true) : Composed ⟨name, [], none, []⟩
  | setAttribute {element : Element} {key : Text} (value : Text) (keyed : isName key = true)
      (composed : element.Composed) : Composed (element.setAttribute key value)
  | setText {element : Element} {text : Text} (visible : ∃ c ∈ text, Text.isBlank c = false)
      (first : ∀ c ∈ text.head?, isSpace c = false)
      (last : ∀ c ∈ text.getLast?, isSpace c = false) (composed : element.Composed) :
      Composed (element.setText text)
  | addChild {element child : Element} (composed : element.Composed) (inner : child.Composed) :
      Composed (element.addChild child)

/-- Putting a value keeps the keys, with the new one at the end if it was not there. -/
theorem keys_putAttribute (key value : Text) (attributes : List (Text × Text)) :
    (putAttribute key value attributes).map Prod.fst =
      if key ∈ attributes.map Prod.fst then attributes.map Prod.fst
      else attributes.map Prod.fst ++ [key] := by
  induction attributes with
  | nil => rfl
  | cons first rest ih =>
    obtain ⟨k, v⟩ := first
    by_cases same : k = key
    · simp [putAttribute, same]
    · rw [putAttribute, if_neg same, List.map_cons, ih]
      by_cases known : key ∈ rest.map Prod.fst <;>
        simp [known, Ne.symm same]

namespace Element

/-- What is kept while an element is composed. -/
structure Fit (element : Element) : Prop where
  /-- The element has a name. -/
  named : isName element.name = true
  /-- Its keys are names. -/
  keyed : ∀ key ∈ element.attributes.map Prod.fst, isName key = true
  /-- No key is given twice. -/
  distinct : (element.attributes.map Prod.fst).Nodup
  /-- Its text is settled. -/
  settled : ∀ content ∈ element.text, IsSettled content
  /-- Its children are read back. -/
  inner : ∀ child ∈ element.children, child.Restorable

/-- An element that is kept so is read back. -/
theorem Fit.restorable {element : Element} (fit : element.Fit) : element.Restorable := by
  obtain ⟨name, attributes, text, children⟩ := element
  have tag : IsTag name attributes := isTag_of_isName fit.named
    (fun entry mem => fit.keyed entry.1 (List.mem_map_of_mem mem)) fit.distinct
  have filled := List.append_ne_nil_of_left_ne_nil (isKey_of_isName fit.named).filled
  exact .mk tag (fun _ => filled _) (fun _ => closed_of_isName fit.named)
    (fun _ _ => unslashed_of_isName fit.named) fit.settled fit.inner

/-- Each step of composing an element keeps its parts fit. -/
theorem Composed.fit {element : Element} (composed : element.Composed) : element.Fit := by
  induction composed with
  | new named => exact ⟨named, by simp, by simp, by simp, by simp⟩
  | @setAttribute element key value keyed _ ih =>
    have keys := keys_putAttribute key value element.attributes
    refine ⟨ih.named, fun other mem => ?_, ?_, ih.settled, ih.inner⟩
    · rw [Element.setAttribute, keys] at mem
      split at mem
      · exact ih.keyed other mem
      · rcases List.mem_append.mp mem with old | new
        · exact ih.keyed other old
        · rwa [List.mem_singleton.mp new]
    · rw [Element.setAttribute, keys]
      split
      · exact ih.distinct
      · rename_i fresh
        refine List.nodup_append.mpr ⟨ih.distinct, by simp, fun old mem new last same => fresh ?_⟩
        rwa [← List.mem_singleton.mp last, ← same]
  | @setText element text visible first last _ ih =>
    obtain ⟨c, mem, solid⟩ := visible
    have seen : text.trim ≠ [] := fun none => by
      rw [Text.trim_eq_nil_iff.mp none c mem] at solid
      contradiction
    refine ⟨ih.named, ih.keyed, ih.distinct, fun content set => ?_, ih.inner⟩
    obtain rfl : text = content := by simpa [Element.setText] using set
    exact ⟨seen, first, last⟩
  | @addChild element child _ _ ih ihInner =>
    refine ⟨ih.named, ih.keyed, ih.distinct, ih.settled, fun other mem => ?_⟩
    rcases List.mem_append.mp mem with old | new
    · exact ih.inner other old
    · rw [List.mem_singleton.mp new]
      exact ihInner.restorable

/-- A composed element is read back from its written form. -/
theorem read_render_of_composed {element : Element} (composed : element.Composed) :
    Element.read element.render = .ok element :=
  composed.fit.restorable.read_render

/-- An attribute is set twice, with markup in its value, and a text with markup precedes two
children, one of them with a child of its own. -/
theorem read_render_order :
    let item : Element := ((⟨"item".toList, [], none, []⟩ : Element).setAttribute "no".toList
      "1".toList).addChild ⟨"_x-1.0".toList, [], none, []⟩
    let order : Element := (((((⟨"order".toList, [], none, []⟩ : Element).setAttribute "to".toList
      "B".toList).setAttribute "for".toList " ".toList).setAttribute "to".toList
        "<\"&'>".toList).setText "x & y".toList).addChild item |>.addChild item
    order.Composed ∧ Element.read order.render = .ok order := by
  intro item order
  have named : item.Composed :=
    .addChild (.setAttribute _ (by decide) (.new (by decide))) (.new (by decide))
  have composed : order.Composed :=
    .addChild (.addChild (.setText ⟨'x', by decide, by decide⟩ (by simp [isSpace])
      (by simp [isSpace]) (.setAttribute _ (by decide) (.setAttribute _ (by decide)
        (.setAttribute _ (by decide) (.new (by decide)))))) named) named
  exact ⟨composed, read_render_of_composed composed⟩

end Element

end AccessRules.Markup
