import AccessRules.Proofs.Markup.ReadBack

/-!
# Spellings of elements

A list of elements can be spelled in many ways: spaces, comments and processing instructions stand
between the tags, and an element without content is one tag or a pair of them. Reading a spelling
puts exactly its elements into the tree, whichever elements are open around it. What is read of
the children of an element is put into the element that their opening tag has just opened, so the
law is an induction on the spelling with the state of the reading left free.
-/
namespace AccessRules.Markup

/-! ## What is passed over -/

/-- Spaces, comments and processing instructions, in any number and order. -/
inductive IsGap : Text → Prop where
  | nil : IsGap []
  | space {c : Char} {rest : Text} (space : isSpace c = true) (further : IsGap rest) :
      IsGap (c :: rest)
  | comment {content rest : Text} (free : '-' ∉ content) (further : IsGap rest) :
      IsGap ("<!--".toList ++ content ++ "-->".toList ++ rest)
  | instruction {content rest : Text} (begun : ∀ c ∈ content.head?, c ≠ '>')
      (free : ¬"?>".toList <:+: content) (further : IsGap rest) :
      IsGap ("<?".toList ++ content ++ "?>".toList ++ rest)

/-- Spaces alone are a gap. -/
theorem IsGap.of_spaces {gap : Text} (spaces : ∀ c ∈ gap, isSpace c = true) : IsGap gap := by
  induction gap with
  | nil => exact .nil
  | cons c gap ih => exact .space (spaces c (by simp)) (ih fun d mem => spaces d (by simp [mem]))

/-- A gap does not change what has been read. -/
theorem IsGap.readRest_append {gap : Text} (skipped : IsGap gap) (size : Nat) (reading : Reading)
    (rest : Text) : reading.readRest size (gap ++ rest) = reading.readRest size rest := by
  induction skipped with
  | nil => rfl
  | space space further ih =>
    rw [List.cons_append, Reading.readRest_congr (Token.next?_space space _)]
    exact ih
  | comment free further ih =>
    rw [List.append_assoc, Reading.readRest_of_token (Token.next?_comment free _)]
    exact ih
  | instruction begun free further ih =>
    rw [List.append_assoc, Reading.readRest_of_token (Token.next?_instruction begun free _)]
    exact ih

/-- What follows a gap with an angle bracket is no byte order mark. -/
theorem IsGap.withoutMark_append {gap : Text} (skipped : IsGap gap) (rest : Text) :
    withoutMark (gap ++ '<' :: rest) = gap ++ '<' :: rest := by
  cases skipped with
  | @space c further space =>
    have marked : c ≠ '\uFEFF' := by
      rintro rfl
      contradiction
    simp [withoutMark, marked]
  | _ => rfl

/-! ## Texts -/

/-- A text that is kept as it is where it stands in an element. -/
structure IsSettled (text : Text) : Prop where
  /-- It is not blank. -/
  visible : text.trim ≠ []
  /-- It starts with no space. -/
  first : ∀ c ∈ text.head?, isSpace c = false
  /-- It ends with no space. -/
  last : ∀ c ∈ text.getLast?, isSpace c = false

/-- A written character starts and ends with a space only if it is one. -/
theorem escapeChar_ends {c : Char} (solid : isSpace c = false) :
    (∀ d ∈ (escapeChar c).head?, isSpace d = false) ∧
      ∀ d ∈ (escapeChar c).getLast?, isSpace d = false := by
  rcases escapeChar_cases c with h | h | h | h | h | h <;> rw [h.2]
  case inr.inr.inr.inr.inr => simpa using solid
  all_goals
    constructor <;> simp [isSpace]

/-- A written text starts with a space only if the text does. -/
theorem isSpace_head_escape {text : Text} (first : ∀ c ∈ text.head?, isSpace c = false) :
    ∀ c ∈ (escape text).head?, isSpace c = false := by
  cases text with
  | nil => simp [escape]
  | cons d text =>
    obtain ⟨head, rest, written, -, -⟩ := escapeChar_head d
    have filled : escapeChar d ≠ [] := by simp [written]
    rw [escape, List.flatMap_cons, List.head?_append_of_ne_nil _ filled]
    exact (escapeChar_ends (first d (by simp))).1

/-- A written text ends with a space only if the text does. -/
theorem isSpace_getLast_escape {text : Text} (last : ∀ c ∈ text.getLast?, isSpace c = false) :
    ∀ c ∈ (escape text).getLast?, isSpace c = false := by
  rcases List.eq_nil_or_concat text with rfl | ⟨front, d, rfl⟩
  · simp [escape]
  · obtain ⟨head, rest, written, -, -⟩ := escapeChar_head d
    have filled : escapeChar d ≠ [] := by simp [written]
    rw [escape, List.concat_eq_append, List.flatMap_append, List.flatMap_singleton,
      List.getLast?_append_of_ne_nil _ filled]
    exact (escapeChar_ends (last d (by simp))).2

/-- Spaces are written as they are. -/
theorem escape_of_spaces {gap : Text} (spaces : ∀ c ∈ gap, isSpace c = true) :
    escape gap = gap := by
  induction gap with
  | nil => rfl
  | cons c gap ih =>
    have written : escapeChar c = [c] := by
      rcases escapeChar_cases c with h | h | h | h | h | h
      case inr.inr.inr.inr.inr => exact h.2
      all_goals exact absurd (h.1 ▸ spaces c (by simp)) (by decide)
    rw [escape, List.flatMap_cons, written, ← escape, ih fun d mem => spaces d (by simp [mem])]
    rfl

namespace Reading

/-- A settled text is added to the innermost open element, and the spaces around it are lost. -/
theorem readRest_escape {front text back rest : Text} (before : ∀ c ∈ front, isSpace c = true)
    (settled : IsSettled text) (after : ∀ c ∈ back, isSpace c = true)
    (markup : ∀ c ∈ rest.head?, c = '<') (size : Nat) (current : Element) (outer : List Element)
    (root? : Option Element) :
    readRest size ⟨current :: outer, root?⟩ (escape (front ++ text ++ back) ++ rest) =
      readRest size ⟨current.appendText text :: outer, root?⟩ rest := by
  have filled : text ≠ [] := fun none => settled.visible (by rw [none]; rfl)
  have next := Token.next?_text (escape_ne_nil filled) (not_mem_escape (.inr rfl) text)
    (isSpace_head_escape settled.first) (isSpace_getLast_escape settled.last) after markup
  have whole : escape (front ++ text ++ back) ++ rest =
      front ++ (escape text ++ back ++ rest) := by
    rw [escape, List.flatMap_append, List.flatMap_append, ← escape, ← escape, ← escape,
      escape_of_spaces before, escape_of_spaces after]
    simp
  rw [whole, (IsGap.of_spaces before).readRest_append, readRest_of_token next]
  simp only [step, resolve_escape, appendText, if_neg settled.visible]
  rfl

/-- Elements that are put into an open element become its children. -/
theorem foldlM_attach (children outer : List Element) (parent : Element)
    (root? : Option Element) : children.foldlM attach ⟨parent :: outer, root?⟩ =
      .ok ⟨{ parent with children := parent.children ++ children } :: outer, root?⟩ := by
  induction children generalizing parent with
  | nil =>
    cases parent
    rw [List.append_nil]
    rfl
  | cons child children ih =>
    rw [List.foldlM_cons]
    exact (ih (parent.addChild child)).trans (by simp [Element.addChild])

end Reading

/-! ## Spellings -/

/-- A name and attributes as they are read from a tag. -/
structure IsReadable (name : Text) (attributes : List (Text × Text)) : Prop where
  /-- The name ends before the first space. -/
  solid : ∀ c ∈ name, isSpace c = false
  /-- The name starts no closing tag, declaration or instruction. -/
  first : ∀ c ∈ name.head?, c ≠ '/' ∧ c ≠ '!' ∧ c ≠ '?'
  /-- Each key can stand in a tag. -/
  keyed : ∀ entry ∈ attributes, IsKey entry.1
  /-- No key is given twice. -/
  distinct : (attributes.map Prod.fst).Nodup

/-- A name and attributes that are read back from their written form in a tag. -/
structure IsTag (name : Text) (attributes : List (Text × Text)) : Prop
    extends IsReadable name attributes where
  /-- Every quote is closed again, and no angle bracket stands outside of quotes. -/
  closed : quoteAfter? none (name ++ renderAttributes attributes) = some none

/-- What starts a tag is what starts its name, or the space before an attribute. -/
theorem IsReadable.head {name : Text} {attributes : List (Text × Text)}
    (readable : IsReadable name attributes) :
    ∀ c ∈ (name ++ renderAttributes attributes).head?, c ≠ '/' ∧ c ≠ '!' ∧ c ≠ '?' := by
  cases name with
  | nil => cases attributes <;> simp +contextual [renderAttributes, eq_comm]
  | cons c name => exact readable.first

/-- A name and its attributes are read back from the content of a tag. -/
theorem IsTag.ofTag {name : Text} {attributes : List (Text × Text)}
    (tag : IsTag name attributes) :
    Element.ofTag (name ++ renderAttributes attributes) = .ok ⟨name, attributes, none, []⟩ :=
  Element.ofTag_renderAttributes tag.solid tag.keyed tag.distinct

/-- A tag with attributes ends in a quote, so it ends in a slash only if its name does. -/
theorem getLast_renderAttributes {name : Text} {attributes : List (Text × Text)}
    (unslashed : attributes = [] → ∀ c ∈ name.getLast?, c ≠ '/') :
    ∀ c ∈ (name ++ renderAttributes attributes).getLast?, c ≠ '/' := by
  rcases List.eq_nil_or_concat attributes with rfl | ⟨others, last, rfl⟩
  · simpa [renderAttributes] using unslashed rfl
  · have ending : name ++ renderAttributes (others.concat last) =
        name ++ renderAttributes others ++ ' ' :: last.1 ++ '=' :: '"' :: escape last.2 ++
          ['"'] := by
      simp [renderAttributes]
    rw [ending, List.getLast?_concat]
    simp +contextual [eq_comm]

/-- A name without spaces is the name in its closing tag. -/
theorem closingName_of_solid {name : Text} (solid : ∀ c ∈ name, isSpace c = false) :
    closingName name = name := by
  have last : ∀ c ∈ name.getLast?, isSpace c = false := fun c mem =>
    solid c (List.mem_of_getLast? mem)
  rw [closingName, Text.dropEndWhile_eq_self last, ite_self]

namespace Reading

/-- A tag that ends in no slash opens its element. -/
theorem readRest_opening {name : Text} {attributes : List (Text × Text)}
    (tag : IsTag name attributes)
    (last : ∀ c ∈ (name ++ renderAttributes attributes).getLast?, c ≠ '/') (size : Nat)
    (reading : Reading) (body : Text) :
    readRest size reading ('<' :: (name ++ renderAttributes attributes) ++ '>' :: body) =
      readRest size ⟨⟨name, attributes, none, []⟩ :: reading.opened, reading.root?⟩ body := by
  rw [readRest_of_token (Token.next?_opening tag.closed tag.head last body)]
  simp only [step, tag.ofTag]
  rfl

/-- The text of an element that has just been opened is taken in. -/
theorem readRest_text {name rest : Text} {attributes : List (Text × Text)} {text : Option Text}
    (settled : ∀ content ∈ text, IsSettled content)
    (markup : text ≠ none → ∀ c ∈ rest.head?, c = '<') (size : Nat) (outer : List Element)
    (root? : Option Element) :
    readRest size ⟨⟨name, attributes, none, []⟩ :: outer, root?⟩ (escape (text.getD []) ++ rest) =
      readRest size ⟨⟨name, attributes, text, []⟩ :: outer, root?⟩ rest := by
  cases text with
  | none => rfl
  | some content =>
    have read := readRest_escape (List.forall_mem_nil _) (settled content rfl)
      (List.forall_mem_nil _) (markup (by simp)) size ⟨name, attributes, none, []⟩ outer root?
    rw [List.nil_append, List.append_nil] at read
    exact read

end Reading

/-- The documents and parts of documents that spell elements. -/
inductive Spelled : List Element → Text → Prop where
  | nil {gap : Text} (skipped : IsGap gap) : Spelled [] gap
  | empty {gap name further : Text} {attributes : List (Text × Text)} {others : List Element}
      (skipped : IsGap gap) (tag : IsTag name attributes)
      (filled : name ++ renderAttributes attributes ≠ []) (rest : Spelled others further) :
      Spelled (⟨name, attributes, none, []⟩ :: others)
        (gap ++ '<' :: (name ++ renderAttributes attributes) ++ '/' :: '>' :: further)
  | pair {gap name inside further : Text} {attributes : List (Text × Text)} {text : Option Text}
      {children others : List Element} (skipped : IsGap gap) (tag : IsTag name attributes)
      (ended : quoteAfter? none name = some none)
      (unslashed : attributes = [] → ∀ c ∈ name.getLast?, c ≠ '/')
      (settled : ∀ content ∈ text, IsSettled content)
      (placed : text ≠ none → ∀ c ∈ inside.head?, c = '<') (inner : Spelled children inside)
      (rest : Spelled others further) :
      Spelled (⟨name, attributes, text, children⟩ :: others)
        (gap ++ '<' :: (name ++ renderAttributes attributes) ++ '>' :: (escape (text.getD []) ++
          inside ++ '<' :: '/' :: name ++ '>' :: further))

/-- Reading a spelling puts its elements into the tree, and what follows it is left. -/
theorem Spelled.readRest_append {elements : List Element} {text : Text}
    (spelled : Spelled elements text) (size : Nat) (reading : Reading) (rest : Text) :
    reading.readRest size (text ++ rest) =
      elements.foldlM Reading.attach reading >>= fun reading => reading.readRest size rest := by
  induction spelled generalizing reading rest with
  | nil skipped => exact skipped.readRest_append size reading rest
  | @empty gap name further attributes others skipped tag filled _ ih =>
    have next := Token.next?_empty tag.closed filled tag.head (further ++ rest)
    have text : gap ++ '<' :: (name ++ renderAttributes attributes) ++ '/' :: '>' :: further ++
        rest = gap ++ ('<' :: (name ++ renderAttributes attributes) ++
          '/' :: '>' :: (further ++ rest)) := by simp
    rw [text, skipped.readRest_append, Reading.readRest_of_token next]
    simp only [Reading.step, tag.ofTag, List.foldlM_cons, bind_assoc, ih]
  | @pair gap name inside further attributes text children others skipped tag ended unslashed
      settled placed _ _ ihInner ih =>
    obtain ⟨closing, closes⟩ : ∃ closing : Text,
        closing = '<' :: '/' :: name ++ '>' :: (further ++ rest) := ⟨_, rfl⟩
    obtain ⟨body, follows⟩ : ∃ body : Text,
        body = escape (text.getD []) ++ (inside ++ closing) := ⟨_, rfl⟩
    have whole : gap ++ '<' :: (name ++ renderAttributes attributes) ++ '>' ::
        (escape (text.getD []) ++ inside ++ '<' :: '/' :: name ++ '>' :: further) ++ rest =
          gap ++ ('<' :: (name ++ renderAttributes attributes) ++ '>' :: body) := by
      simp [follows, closes]
    -- The text is taken in while the element is open, and then its children are.
    have markup : text ≠ none → ∀ c ∈ (inside ++ closing).head?, c = '<' := by
      intro some
      cases inside with
      | nil => simp +contextual [closes, eq_comm]
      | cons d inside => exact placed some
    have filled : Reading.readRest size ⟨⟨name, attributes, none, []⟩ :: reading.opened,
          reading.root?⟩ body =
        Reading.readRest size ⟨⟨name, attributes, text, []⟩ :: reading.opened, reading.root?⟩
          (inside ++ closing) := by
      rw [follows]
      exact Reading.readRest_text settled markup size _ _
    have attached : Reading.readRest size ⟨⟨name, attributes, text, []⟩ :: reading.opened,
          reading.root?⟩ (inside ++ closing) =
        Reading.readRest size ⟨⟨name, attributes, text, children⟩ :: reading.opened,
          reading.root?⟩ closing := by
      rw [ihInner, Reading.foldlM_attach]
      rfl
    have next := Token.next?_closing ended (further ++ rest)
    rw [closingName_of_solid tag.solid] at next
    rw [whole, skipped.readRest_append,
      Reading.readRest_opening tag (getLast_renderAttributes unslashed)]
    refine filled.trans (attached.trans ?_)
    rw [closes, Reading.readRest_of_token next]
    simp only [Reading.step, if_true, List.foldlM_cons, bind_assoc, ih]

/-- A spelling of one element is a document that is read as the element. -/
theorem Spelled.read {element : Element} {document : Text} (spelled : Spelled [element] document) :
    Element.read document = .ok element := by
  have unmarked : withoutMark document = document := by
    cases spelled with
    | empty skipped => simpa using skipped.withoutMark_append _
    | pair skipped => simpa using skipped.withoutMark_append _
  have read := spelled.readRest_append document.byteLength {} []
  rw [List.append_nil] at read
  rw [Element.read, unmarked]
  exact read

/-! ## The written form -/

/-- An element whose written form is one of its spellings. -/
inductive Element.Restorable : Element → Prop where
  | mk {name : Text} {attributes : List (Text × Text)} {text : Option Text}
      {children : List Element} (tag : IsTag name attributes)
      (filled : text = none ∧ children = [] → name ++ renderAttributes attributes ≠ [])
      (ended : text ≠ none ∨ children ≠ [] → quoteAfter? none name = some none)
      (unslashed : text ≠ none ∨ children ≠ [] → attributes = [] → ∀ c ∈ name.getLast?, c ≠ '/')
      (settled : ∀ content ∈ text, IsSettled content)
      (inner : ∀ child ∈ children, child.Restorable) : Restorable ⟨name, attributes, text, children⟩

/-- Elements that can each be put before a spelling are spelled by their written forms. -/
theorem spelled_renderAll {elements : List Element}
    (each : ∀ element ∈ elements, ∀ others further, Spelled others further →
      Spelled (element :: others) (element.render ++ further)) :
    Spelled elements (Element.renderAll elements) := by
  induction elements with
  | nil => exact .nil .nil
  | cons first rest ih =>
    exact each first (by simp) rest _ (ih fun element mem => each element (by simp [mem]))

/-- Written forms of elements start with an angle bracket. -/
theorem Element.head_renderAll (elements : List Element) :
    ∀ c ∈ (Element.renderAll elements).head?, c = '<' := by
  obtain ⟨rest, markup⟩ := renderAll_markup elements []
  intro c head
  obtain ⟨more, written⟩ := List.head?_eq_some_iff.mp head
  rw [written] at markup
  exact (List.cons.inj markup).1

/-- The written form of a restorable element can be put before every spelling. -/
theorem Element.Restorable.spelled_cons {element : Element} (restorable : element.Restorable)
    {others : List Element} {further : Text} (rest : Spelled others further) :
    Spelled (element :: others) (element.render ++ further) := by
  induction restorable generalizing others further with
  | @mk name attributes text children tag filled ended unslashed settled _ ih =>
    rcases bare_or_content text children with ⟨rfl, rfl⟩ | content
    · simpa [render_bare] using Spelled.empty .nil tag (filled ⟨rfl, rfl⟩) rest
    · have inside := spelled_renderAll fun child mem _ _ => ih child mem
      have pair := Spelled.pair .nil tag (ended content) (unslashed content) settled
        (fun _ => head_renderAll children) inside rest
      simpa [render_of_content content] using pair

/-- A restorable element is put into the tree from its written form. -/
theorem Element.Restorable.readRest_render {element : Element} (restorable : element.Restorable)
    (size : Nat) (reading : Reading) (rest : Text) :
    reading.readRest size (element.render ++ rest) =
      reading.attach element >>= fun reading => reading.readRest size rest := by
  have spelled := (restorable.spelled_cons (.nil .nil)).readRest_append size reading rest
  rw [List.append_nil] at spelled
  simpa using spelled

/-- A restorable element is read back from its written form. -/
theorem Element.Restorable.read_render {element : Element} (restorable : element.Restorable) :
    Element.read element.render = .ok element := by
  have spelled := restorable.spelled_cons (.nil .nil)
  rw [List.append_nil] at spelled
  exact spelled.read

end AccessRules.Markup
