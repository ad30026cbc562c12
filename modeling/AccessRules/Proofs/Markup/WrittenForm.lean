import AccessRules.Markup.Render

/-!
# Elements told apart by their written form

Names and keys are written as they are, so a name that holds markup can imitate attributes or
children. Where names end before the first space, slash or angle bracket, keys hold no equals
sign and no empty text precedes children, the written form is a prefix code: it determines the
element, whatever is written after it.
-/
namespace AccessRules.Markup

/-- The character ends the name in a tag. -/
def endsName (c : Char) : Bool := c = ' ' || c = '/' || c = '>'

/-- An element whose parts can be told apart where it is written, and whose children are alike. -/
inductive Element.Legible : Element → Prop where
  | mk {name : Text} {attributes : List (Text × Text)} {text : Option Text}
      {children : List Element} (named : name ≠ []) (closed : ∀ c ∈ name, endsName c = false)
      (keyed : ∀ entry ∈ attributes, '=' ∉ entry.1) (settled : children ≠ [] → text ≠ some [])
      (inner : ∀ child ∈ children, child.Legible) : Legible ⟨name, attributes, text, children⟩

/-- Two texts that stop at the first character of a kind are the same text up to there. -/
theorem append_cons_inj_of_all {p : Char → Bool} {left right : Text} {x y : Char}
    {after later : Text} (leftFree : ∀ c ∈ left, p c = false) (rightFree : ∀ c ∈ right, p c = false)
    (stop : p x = true) (halt : p y = true) (same : left ++ x :: after = right ++ y :: later) :
    left = right ∧ x = y ∧ after = later := by
  induction left generalizing right with
  | nil =>
    cases right with
    | nil => simpa using same
    | cons d right =>
      obtain rfl : x = d := by simpa using congrArg List.head? same
      simp [rightFree x (by simp)] at stop
  | cons c left ih =>
    cases right with
    | nil =>
      obtain rfl : c = y := by simpa using congrArg List.head? same
      simp [leftFree c (by simp)] at halt
    | cons d right =>
      simp only [List.cons_append, List.cons.injEq] at same
      have rest := ih (fun c mem => leftFree c (by simp [mem]))
        (fun c mem => rightFree c (by simp [mem])) same.2
      exact ⟨by rw [same.1, rest.1], rest.2⟩

/-! ## Values and texts -/

/-- The five markup characters are written as references, every other one as itself. -/
theorem escapeChar_cases (c : Char) :
    c = '<' ∧ escapeChar c = ['&', 'l', 't', ';'] ∨ c = '>' ∧ escapeChar c = ['&', 'g', 't', ';'] ∨
      c = '&' ∧ escapeChar c = ['&', 'a', 'm', 'p', ';'] ∨
      c = '\'' ∧ escapeChar c = ['&', 'a', 'p', 'o', 's', ';'] ∨
      c = '"' ∧ escapeChar c = ['&', 'q', 'u', 'o', 't', ';'] ∨
      (c ≠ '<' ∧ c ≠ '&' ∧ c ≠ '"') ∧ escapeChar c = [c] := by
  by_cases less : c = '<'
  · simp [less, escapeChar]
  by_cases greater : c = '>'
  · simp [greater, escapeChar]
  by_cases ampersand : c = '&'
  · simp [ampersand, escapeChar]
  by_cases apostrophe : c = '\''
  · simp [apostrophe, escapeChar]
  by_cases quote : c = '"'
  · simp [quote, escapeChar]
  simp [less, greater, ampersand, apostrophe, quote, escapeChar]

/-- A written character starts with neither a quote nor an angle bracket. -/
theorem escapeChar_head (c : Char) :
    ∃ head rest, escapeChar c = head :: rest ∧ head ≠ '"' ∧ head ≠ '<' := by
  rcases escapeChar_cases c with h | h | h | h | h | h <;> exact ⟨_, _, h.2, by grind, by grind⟩

/-- No written character is the beginning of another one. -/
theorem escapeChar_append_inj {c d : Char} {after later : Text}
    (same : escapeChar c ++ after = escapeChar d ++ later) : c = d ∧ after = later := by
  rcases escapeChar_cases c with left | left | left | left | left | left <;>
    rcases escapeChar_cases d with right | right | right | right | right | right <;>
    simp only [left.2, right.2, List.cons_append, List.nil_append] at same <;> grind

/-- Values and texts can be read back up to the quote or angle bracket after them. -/
theorem escape_append_inj {left right : Text} {x y : Char} {after later : Text}
    (stop : x = '"' ∨ x = '<') (halt : y = '"' ∨ y = '<')
    (same : escape left ++ x :: after = escape right ++ y :: later) :
    left = right ∧ x = y ∧ after = later := by
  induction left generalizing right with
  | nil =>
    cases right with
    | nil => simpa [escape] using same
    | cons d right =>
      obtain ⟨head, rest, written, unquoted, open'⟩ := escapeChar_head d
      simp only [escape, List.flatMap_nil, List.nil_append, List.flatMap_cons, written,
        List.cons_append, List.cons.injEq] at same
      rcases stop with rfl | rfl
      · exact absurd same.1.symm unquoted
      · exact absurd same.1.symm open'
  | cons c left ih =>
    cases right with
    | nil =>
      obtain ⟨head, rest, written, unquoted, open'⟩ := escapeChar_head c
      simp only [escape, List.flatMap_nil, List.nil_append, List.flatMap_cons, written,
        List.cons_append, List.cons.injEq] at same
      rcases halt with rfl | rfl
      · exact absurd same.1 unquoted
      · exact absurd same.1 open'
    | cons d right =>
      simp only [escape, List.flatMap_cons, List.append_assoc] at same
      obtain ⟨rfl, further⟩ := escapeChar_append_inj same
      obtain ⟨rfl, rest⟩ := ih further
      exact ⟨rfl, rest⟩

/-- Attributes can be read back up to the end of their tag. -/
theorem renderAttributes_append_inj {left right : List (Text × Text)} {x y : Char}
    {after later : Text} (leftKeyed : ∀ entry ∈ left, '=' ∉ entry.1)
    (rightKeyed : ∀ entry ∈ right, '=' ∉ entry.1) (stop : x ≠ ' ') (halt : y ≠ ' ')
    (same : renderAttributes left ++ x :: after = renderAttributes right ++ y :: later) :
    left = right ∧ x = y ∧ after = later := by
  induction left generalizing right with
  | nil =>
    cases right with
    | nil => simpa [renderAttributes] using same
    | cons entry right =>
      exact absurd (by simpa [renderAttributes] using congrArg List.head? same) stop
  | cons first left ih =>
    cases right with
    | nil => exact absurd (by simpa [renderAttributes] using (congrArg List.head? same).symm) halt
    | cons second right =>
      obtain ⟨key, value⟩ := first
      obtain ⟨other, different⟩ := second
      have keyFree : ∀ c ∈ key, (c == '=') = false := fun c mem =>
        beq_eq_false_iff_ne.mpr fun equals => leftKeyed (key, value) (by simp) (equals ▸ mem)
      have otherFree : ∀ c ∈ other, (c == '=') = false := fun c mem =>
        beq_eq_false_iff_ne.mpr fun equals => rightKeyed (other, different) (by simp) (equals ▸ mem)
      have tail : key ++ '=' :: '"' ::
            (escape value ++ '"' :: (renderAttributes left ++ x :: after)) =
          other ++ '=' :: '"' ::
            (escape different ++ '"' :: (renderAttributes right ++ y :: later)) := by
        simpa [renderAttributes] using same
      obtain ⟨rfl, -, quoted⟩ := append_cons_inj_of_all keyFree otherFree (by simp) (by simp) tail
      obtain ⟨rfl, -, further⟩ := escape_append_inj (.inl rfl) (.inl rfl) (List.cons.inj quoted).2
      obtain ⟨rfl, rest⟩ := ih (fun entry mem => leftKeyed entry (by simp [mem]))
        (fun entry mem => rightKeyed entry (by simp [mem])) further
      exact ⟨rfl, rest⟩

/-- What follows a name in a tag ends it. -/
theorem endsName_renderAttributes (attributes : List (Text × Text)) {x : Char} (after : Text)
    (ends : endsName x = true) : ∃ stop rest, endsName stop = true ∧
      renderAttributes attributes ++ x :: after = stop :: rest := by
  cases attributes with
  | nil => exact ⟨x, after, ends, by simp [renderAttributes]⟩
  | cons entry attributes => exact ⟨' ', _, rfl, by simp [renderAttributes]; rfl⟩

/-- A name and its attributes can be read back up to the end of their tag. -/
theorem tag_append_inj {name other : Text} {left right : List (Text × Text)} {x y : Char}
    {after later : Text} (nameClosed : ∀ c ∈ name, endsName c = false)
    (otherClosed : ∀ c ∈ other, endsName c = false) (leftKeyed : ∀ entry ∈ left, '=' ∉ entry.1)
    (rightKeyed : ∀ entry ∈ right, '=' ∉ entry.1) (stop : x = '/' ∨ x = '>')
    (halt : y = '/' ∨ y = '>')
    (same : name ++ (renderAttributes left ++ x :: after) =
      other ++ (renderAttributes right ++ y :: later)) :
    name = other ∧ left = right ∧ x = y ∧ after = later := by
  obtain ⟨p, rest, pEnds, leftTail⟩ := endsName_renderAttributes left after
    (show endsName x = true by rcases stop with rfl | rfl <;> rfl)
  obtain ⟨q, further, qEnds, rightTail⟩ := endsName_renderAttributes right later
    (show endsName y = true by rcases halt with rfl | rfl <;> rfl)
  rw [leftTail, rightTail] at same
  obtain ⟨rfl, rfl, rfl⟩ := append_cons_inj_of_all nameClosed otherClosed pEnds qEnds same
  exact ⟨rfl, renderAttributes_append_inj leftKeyed rightKeyed
    (by rcases stop with rfl | rfl <;> decide) (by rcases halt with rfl | rfl <;> decide)
    (leftTail.trans rightTail.symm)⟩

/-! ## Elements -/

/-- An element with content is written as a pair of tags around it. -/
theorem Element.render_of_content {name : Text} {attributes : List (Text × Text)}
    {text : Option Text} {children : List Element} (content : text ≠ none ∨ children ≠ []) :
    Element.render ⟨name, attributes, text, children⟩ =
      '<' :: name ++ renderAttributes attributes ++ '>' :: escape (text.getD []) ++
        Element.renderAll children ++ '<' :: '/' :: name ++ ['>'] := by
  cases text with
  | some text => rw [Element.render]; simp
  | none =>
    cases children with
    | nil => simp at content
    | cons child children => rw [Element.render]; simp

/-- An element without content is written as one tag. -/
theorem Element.render_bare {name : Text} {attributes : List (Text × Text)} :
    Element.render ⟨name, attributes, none, []⟩ =
      '<' :: name ++ renderAttributes attributes ++ ['/', '>'] := by
  rw [Element.render]

/-- An element has content or neither text nor children. -/
theorem Element.bare_or_content (text : Option Text) (children : List Element) :
    text = none ∧ children = [] ∨ (text ≠ none ∨ children ≠ []) := by
  cases text <;> cases children <;> simp

/-- The written form of a legible element is no closing tag. -/
theorem Element.Legible.render_head {element : Element} (legible : element.Legible) :
    ∃ c rest, element.render = '<' :: c :: rest ∧ c ≠ '/' := by
  obtain @⟨name, attributes, text, children, named, closed, -, -, -⟩ := legible
  obtain ⟨c, more, rfl⟩ := List.exists_cons_of_ne_nil named
  have noSlash : c ≠ '/' := by
    rintro rfl
    exact absurd (closed '/' (by simp)) (by decide)
  rcases bare_or_content text children with ⟨rfl, rfl⟩ | content
  · exact ⟨c, _, by simp [render_bare]; rfl, noSlash⟩
  · exact ⟨c, _, by simp [render_of_content content]; rfl, noSlash⟩

/-- What follows the text of an element is markup. -/
theorem Element.renderAll_markup (elements : List Element) (after : Text) :
    ∃ rest, Element.renderAll elements ++ '<' :: after = '<' :: rest := by
  cases elements with
  | nil => exact ⟨after, rfl⟩
  | cons first rest =>
    obtain ⟨name, attributes, text, children⟩ := first
    rcases bare_or_content text children with ⟨rfl, rfl⟩ | content
    · exact ⟨_, by simp [Element.renderAll, render_bare]; rfl⟩
    · exact ⟨_, by simp [Element.renderAll, render_of_content content]; rfl⟩

/-- Children that can each be read back can be read back up to the closing tag after them. -/
theorem Element.renderAll_append_inj {left right : List Element} {after later : Text}
    (each : ∀ child ∈ left, ∀ other : Element, other.Legible → ∀ rest further : Text,
      child.render ++ rest = other.render ++ further → child = other ∧ rest = further)
    (leftLegible : ∀ child ∈ left, child.Legible) (rightLegible : ∀ child ∈ right, child.Legible)
    (same : Element.renderAll left ++ '<' :: '/' :: after =
      Element.renderAll right ++ '<' :: '/' :: later) : left = right ∧ after = later := by
  induction left generalizing right with
  | nil =>
    cases right with
    | nil => simpa [Element.renderAll] using same
    | cons child right =>
      obtain ⟨c, rest, written, noSlash⟩ := (rightLegible child (by simp)).render_head
      simp only [Element.renderAll, written, List.nil_append, List.cons_append,
        List.cons.injEq] at same
      exact absurd same.2.1.symm noSlash
  | cons child left ih =>
    cases right with
    | nil =>
      obtain ⟨c, rest, written, noSlash⟩ := (leftLegible child (by simp)).render_head
      simp only [Element.renderAll, written, List.nil_append, List.cons_append,
        List.cons.injEq] at same
      exact absurd same.2.1 noSlash
    | cons other right =>
      simp only [Element.renderAll, List.append_assoc] at same
      obtain ⟨rfl, further⟩ := each child (by simp) other (rightLegible other (by simp)) _ _ same
      obtain ⟨rfl, rest⟩ := ih (fun child mem => each child (by simp [mem]))
        (fun child mem => leftLegible child (by simp [mem]))
        (fun child mem => rightLegible child (by simp [mem])) further
      exact ⟨rfl, rest⟩

/-- The written form of a legible element can be read back, whatever is written after it. -/
theorem Element.Legible.render_append_inj {left right : Element} (legible : left.Legible)
    (other : right.Legible) {after later : Text}
    (same : left.render ++ after = right.render ++ later) : left = right ∧ after = later := by
  induction legible generalizing right after later with
  | @mk name attributes text children named closed keyed settled inner ih =>
    obtain @⟨name', attributes', text', children', -, closed', keyed', settled', inner'⟩ := other
    rcases bare_or_content text children with ⟨rfl, rfl⟩ | content <;>
      rcases bare_or_content text' children' with ⟨rfl, rfl⟩ | content'
    · simp only [render_bare, List.append_assoc, List.cons_append, List.cons.injEq, true_and,
        List.nil_append] at same
      obtain ⟨rfl, rfl, -, rest⟩ := tag_append_inj closed closed' keyed keyed' (.inl rfl)
        (.inl rfl) same
      exact ⟨rfl, (List.cons.inj rest).2⟩
    · simp only [render_bare, render_of_content content', List.append_assoc, List.cons_append,
        List.cons.injEq, true_and, List.nil_append] at same
      exact absurd (tag_append_inj closed closed' keyed keyed' (.inl rfl) (.inr rfl) same).2.2.1
        (by decide)
    · simp only [render_bare, render_of_content content, List.append_assoc, List.cons_append,
        List.cons.injEq, true_and, List.nil_append] at same
      exact absurd (tag_append_inj closed closed' keyed keyed' (.inr rfl) (.inl rfl) same).2.2.1
        (by decide)
    · simp only [render_of_content content, render_of_content content', List.append_assoc,
        List.cons_append, List.cons.injEq, true_and, List.nil_append] at same
      obtain ⟨rfl, rfl, -, body⟩ := tag_append_inj closed closed' keyed keyed' (.inr rfl)
        (.inr rfl) same
      obtain ⟨rest, markup⟩ := renderAll_markup children ('/' :: (name ++ '>' :: after))
      obtain ⟨further, markup'⟩ := renderAll_markup children' ('/' :: (name ++ '>' :: later))
      rw [markup, markup'] at body
      obtain ⟨texts, -, rfl⟩ := escape_append_inj (.inr rfl) (.inr rfl) body
      obtain ⟨rfl, ending⟩ := renderAll_append_inj
        (fun child mem other legible _ _ same => ih child mem legible same) inner inner'
        (markup.trans markup'.symm)
      obtain rfl : text = text' := by
        cases text <;> cases text' <;> by_cases none : children = [] <;> simp_all
      simpa using ending

/-- Legible elements with one written form are one element. -/
theorem Element.Legible.eq_of_render_eq {left right : Element} (legible : left.Legible)
    (other : right.Legible) (same : left.render = right.render) : left = right :=
  (legible.render_append_inj other (congrArg (· ++ []) same)).1

end AccessRules.Markup
