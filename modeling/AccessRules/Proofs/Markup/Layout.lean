import AccessRules.Proofs.Markup.RoundTrip
import AccessRules.Rule.Reader

/-!
# Layout of documents

A document can be laid out around the tags of its elements: spaces, comments and processing
instructions stand before and after each tag, and an element without children is written as one
tag or as a pair of tags. An element without text is read the same from each of its layouts, so a
reader of rules gives the same condition or the same refusal for all of them.
-/
namespace AccessRules.Markup

/-- The layouts of elements without text. Where `render` writes the tags of the elements one after
the other, a gap can be put before each tag and after the last one, and the tag of an element
without children can be written as a pair of tags. -/
inductive LaidOut : List Element → Text → Prop where
  | nil {gap : Text} (skipped : IsGap gap) : LaidOut [] gap
  | single {gap name further : Text} {attributes : List (Text × Text)} {others : List Element}
      (skipped : IsGap gap) (rest : LaidOut others further) :
      LaidOut (⟨name, attributes, none, []⟩ :: others)
        (gap ++ '<' :: name ++ renderAttributes attributes ++ ['/', '>'] ++ further)
  | pair {gap name inside further : Text} {attributes : List (Text × Text)}
      {children others : List Element} (skipped : IsGap gap) (inner : LaidOut children inside)
      (rest : LaidOut others further) :
      LaidOut (⟨name, attributes, none, children⟩ :: others)
        (gap ++ '<' :: name ++ renderAttributes attributes ++ ['>'] ++ inside ++
          '<' :: '/' :: name ++ ['>'] ++ further)

/-- Elements that can each be put before a layout are laid out by their written forms. -/
theorem laidOut_renderAll {elements : List Element}
    (each : ∀ element ∈ elements, ∀ others further, LaidOut others further →
      LaidOut (element :: others) (element.render ++ further)) :
    LaidOut elements (Element.renderAll elements) := by
  induction elements with
  | nil => exact .nil .nil
  | cons first rest ih =>
    exact each first (by simp) rest _ (ih fun element mem => each element (by simp [mem]))

namespace Element

/-- There is no text anywhere in the element. -/
inductive Textless : Element → Prop where
  | mk {name : Text} {attributes : List (Text × Text)} {children : List Element}
      (inner : ∀ child ∈ children, child.Textless) : Textless ⟨name, attributes, none, children⟩

/-- All names and keys in the element are names, and no key of an element is given twice. -/
inductive WellNamed : Element → Prop where
  | mk {name : Text} {attributes : List (Text × Text)} {text : Option Text}
      {children : List Element} (named : isName name = true)
      (keyed : ∀ entry ∈ attributes, isName entry.1 = true)
      (distinct : (attributes.map Prod.fst).Nodup) (inner : ∀ child ∈ children, child.WellNamed) :
      WellNamed ⟨name, attributes, text, children⟩

/-- Before a layout, the written form of an element without text goes on as one. -/
theorem Textless.laidOut_cons {element : Element} (textless : element.Textless)
    {others : List Element} {further : Text} (rest : LaidOut others further) :
    LaidOut (element :: others) (element.render ++ further) := by
  induction textless generalizing others further with
  | @mk name attributes children _ ih =>
    have inside := laidOut_renderAll fun child mem _ _ => ih child mem
    rcases bare_or_content none children with ⟨-, rfl⟩ | content
    · have single : LaidOut (⟨name, attributes, none, []⟩ :: others) _ := .single .nil rest
      simpa [render_bare] using single
    · have pair : LaidOut (⟨name, attributes, none, children⟩ :: others) _ :=
        .pair .nil inside rest
      simpa [render_of_content content, escape] using pair

/-- The written form of an element without text is one of its layouts. -/
theorem Textless.laidOut_render {element : Element} (textless : element.Textless) :
    LaidOut [element] element.render := by
  simpa using textless.laidOut_cons (.nil .nil)

end Element

/-- A layout of elements with proper names is one of their spellings. -/
theorem LaidOut.spelled {elements : List Element} {text : Text} (laidOut : LaidOut elements text)
    (named : ∀ element ∈ elements, element.WellNamed) : Spelled elements text := by
  induction laidOut with
  | nil skipped => exact .nil skipped
  | @single gap name further attributes others skipped rest ih =>
    obtain ⟨proper, keyed, distinct, -⟩ := named _ List.mem_cons_self
    have filled : name ++ renderAttributes attributes ≠ [] :=
      List.append_ne_nil_of_left_ne_nil (isKey_of_isName proper).filled _
    have spelled := Spelled.empty skipped (isTag_of_isName proper keyed distinct) filled
      (ih fun element mem => named element (by simp [mem]))
    simpa using spelled
  | @pair gap name inside further attributes children others skipped inner rest ihInner ih =>
    obtain ⟨proper, keyed, distinct, below⟩ := named _ List.mem_cons_self
    have spelled : Spelled (⟨name, attributes, none, children⟩ :: others) _ :=
      .pair skipped (isTag_of_isName proper keyed distinct) (closed_of_isName proper)
        (fun _ => unslashed_of_isName proper) (by simp) (by simp) (ihInner below)
        (ih fun element mem => named element (by simp [mem]))
    simpa [escape] using spelled

/-- Every layout of an element without text and with proper names is read as the element, and a
reader of rules gives for it, unless it is too long, what it gives for the element. -/
theorem readDocument_of_laidOut {Leaf : Type} (reader : Reader Leaf) {element : Element}
    {document : Text} (named : element.WellNamed) (laidOut : LaidOut [element] document) :
    Element.read document = .ok element ∧
      (document.byteLength ≤ reader.limits.maxLength →
        reader.readDocument document = reader.readElement? (some element)) := by
  have read := (laidOut.spelled fun other mem => List.mem_singleton.mp mem ▸ named).read
  refine ⟨read, fun fits => ?_⟩
  rw [Reader.readDocument, if_neg (Nat.not_lt.mpr fits), read]
  rfl

/-- An indented document with an instruction and comments, in which one element without children is
written as one tag and the other one as two. -/
theorem readDocument_indented :
    let always : Element := ⟨"boolean".toList, [("operator".toList, "true".toList)], none, []⟩
    let never : Element := ⟨"boolean".toList, [("operator".toList, "or".toList)], none, []⟩
    let root : Element :=
      ⟨"boolean".toList, [("operator".toList, "and".toList)], none, [always, never]⟩
    let document : Text := ("<?xml?>\n<boolean operator=\"and\">\n <!-- both -->" ++
      "<boolean operator=\"true\"/>\n <boolean operator=\"or\"><!-- none --></boolean>\n" ++
      "</boolean>\n<!-- end -->").toList
    let reader : Reader Empty := { limits := ⟨4, 200⟩ }
    root.WellNamed ∧ LaidOut [root] document ∧ Element.read document = .ok root ∧
      reader.readDocument document = reader.readElement? (some root) := by
  intro always never root document reader
  have named : root.WellNamed := by
    have bare : ∀ value, Element.WellNamed
        ⟨"boolean".toList, [("operator".toList, value)], none, []⟩ := fun value =>
      .mk (by decide) (by simp; decide) (by simp) (by simp)
    refine .mk (by decide) (by simp; decide) (by simp) fun child mem => ?_
    rcases List.mem_pair.mp mem with rfl | rfl <;> exact bare _
  have indent : ∀ {rest : Text}, IsGap rest → IsGap ('\n' :: ' ' :: rest) := fun further =>
    .space rfl (.space rfl further)
  have comment : ∀ content : Text, '-' ∉ content → IsGap ("<!--".toList ++ content ++
      "-->".toList ++ []) := fun content free => .comment free .nil
  have children : LaidOut [always, never] _ :=
    .single (indent (comment " both ".toList (by decide))) (.pair (indent .nil)
      (.nil (comment " none ".toList (by decide))) (.nil (.space (rfl : isSpace '\n' = true) .nil)))
  have declared : IsGap ("<?".toList ++ "xml".toList ++ "?>".toList ++ ['\n']) :=
    .instruction (by simp) (by decide) (.space rfl .nil)
  have pair : LaidOut [root] _ := .pair declared children
    (.nil (.space (rfl : isSpace '\n' = true) (comment " end ".toList (by decide))))
  have laidOut : LaidOut [root] document := by
    simpa [root, document, renderAttributes, escape, escapeChar] using pair
  have read := readDocument_of_laidOut reader named laidOut
  exact ⟨named, laidOut, read.1, read.2 (by simp [document, reader, Char.utf8Size])⟩

end AccessRules.Markup
