import AccessRules.Proofs.Markup.Layout
import AccessRules.Proofs.Markup.Stability

/-!
# Elements that are read again as themselves

An element that was read is read back from its written form exactly if it is stable. That a stable
one is read back was shown by spelling it. For the other direction, reading is followed backwards:
where the root is given, every element that was open on the way has become a part of it, so at each
place of the written form it is known which element has to be put into the tree there. Its tag, its
text and its children can then have been read in one way only.
-/
namespace AccessRules.Markup

/-! ## Tags that are read again -/

/-- A value that is read stands in quotes. -/
theorem exists_of_readValue {size : Nat} {text value rest : Text}
    (success : readValue size text = .ok (value, rest)) :
    ∃ quote body written, text.dropWhile isSpace = quote :: body ∧
      Text.splitAt? [quote] body = some (written, rest) := by
  unfold readValue at success
  split at success
  · contradiction
  rename_i quote body begins
  split at success
  · split at success
    · contradiction
    rename_i written rest' split
    split at success
    · contradiction
    obtain ⟨-, rfl⟩ := Prod.mk.inj (Except.ok.inj success)
    exact ⟨quote, body, written, begins, split⟩
  · contradiction

/-- Where a text starts with no space, nothing is dropped before its first character. -/
theorem eq_of_dropWhile_isSpace {text body after beyond : Text} {c d : Char}
    (solid : isSpace d = false) (begins : text.dropWhile isSpace = c :: body)
    (same : text ++ after = d :: beyond) : text = d :: body ∧ c = d ∧ body ++ after = beyond := by
  cases text with
  | nil => simp at begins
  | cons e text =>
    obtain ⟨rfl, further⟩ := List.cons.inj same
    rw [List.dropWhile_cons, solid] at begins
    obtain ⟨rfl, rfl⟩ := List.cons.inj begins
    exact ⟨rfl, rfl, further⟩

/-- What is read as attributes, from a place where they are written, is their written form, with
spaces after it. -/
theorem eq_of_readAttributesWithin {size fuel : Nat} {seen attributes : List (Text × Text)}
    {text after beyond : Text} (enough : text.length ≤ fuel)
    (success : readAttributesWithin size fuel seen text = .ok attributes)
    (same : text ++ after = renderAttributes attributes ++ beyond) :
    ∃ spaces, text = renderAttributes attributes ++ spaces ∧ ∀ c ∈ spaces, isSpace c = true := by
  induction fuel generalizing seen attributes text with
  | zero =>
    obtain rfl : [] = attributes := by simpa [readAttributesWithin] using success
    obtain rfl := List.length_eq_zero_iff.mp (Nat.le_zero.mp enough)
    exact ⟨[], rfl, by simp⟩
  | succ fuel ih =>
    cases begins : text.dropWhile isSpace with
    | nil =>
      obtain rfl : [] = attributes := by simpa [readAttributesWithin, begins] using success
      exact ⟨text, rfl, by simpa using begins⟩
    | cons first more =>
      obtain ⟨key, written, value, rest, others, named, assigned, -, valued, read, rfl⟩ :=
        exists_of_readAttributesWithin begins success
      obtain ⟨quote, body, raw, quoted, split⟩ := exists_of_readValue valued
      have solid : isSpace first = false := by
        have kind := List.head?_dropWhile_not isSpace text
        rwa [begins] at kind
      -- Each part starts and ends where it is written to, from the space before the key on.
      obtain ⟨tail, ends⟩ : ∃ tail, tail = more.takeWhile fun c => c != '=' && !isSpace c :=
        ⟨_, rfl⟩
      obtain ⟨rear, starts⟩ : ∃ rear, rear = more.dropWhile fun c => c != '=' && !isSpace c :=
        ⟨_, rfl⟩
      have cut : more = tail ++ rear := by rw [ends, starts, List.takeWhile_append_dropWhile]
      rw [← ends] at named
      rw [← starts] at assigned
      have line : text ++ after = ' ' :: first :: (tail ++ '=' :: '"' :: (escape value ++
          '"' :: (renderAttributes others ++ beyond))) := by
        simpa [renderAttributes, named] using same
      obtain ⟨text', rfl⟩ : ∃ text', text = ' ' :: text' := by
        cases text with
        | nil => simp at begins
        | cons c text => exact ⟨text, by rw [(List.cons.inj line).1]⟩
      have begins' : text'.dropWhile isSpace = first :: more := begins
      obtain ⟨rfl, -, beyondFirst⟩ :=
        eq_of_dropWhile_isSpace solid begins' (List.cons.inj line).2
      rw [cut, List.append_assoc] at beyondFirst
      obtain ⟨rfl, -, beyondSign⟩ :=
        eq_of_dropWhile_isSpace rfl assigned (List.append_cancel_left beyondFirst)
      obtain ⟨rfl, rfl, beyondQuote⟩ := eq_of_dropWhile_isSpace rfl quoted beyondSign
      have raw_free : ∀ c ∈ raw, (c == '"') = false := fun c mem =>
        beq_eq_false_iff_ne.mpr fun quote => Text.not_mem_of_splitAt? split (quote ▸ mem)
      have value_free : ∀ c ∈ escape value, (c == '"') = false := fun c mem =>
        beq_eq_false_iff_ne.mpr fun quote => not_mem_escape (.inl rfl) value (quote ▸ mem)
      have whole : body = raw ++ '"' :: rest := by
        rw [Text.eq_of_splitAt? split, List.append_assoc]
        rfl
      rw [whole, List.append_assoc, List.cons_append] at beyondQuote
      obtain ⟨rfl, -, beyondValue⟩ := append_cons_inj_of_all raw_free value_free
        (beq_self_eq_true _) (beq_self_eq_true _) beyondQuote
      have shorter : rest.length ≤ fuel := by
        simp only [cut, whole, List.length_cons, List.length_append] at enough
        omega
      obtain ⟨spaces, trailing, kind⟩ := ih shorter read beyondValue
      exact ⟨spaces, by simp [renderAttributes, named, cut, whole, trailing], kind⟩

/-- What is read as a name and attributes, from a place where they are written before no space, is
their written form. -/
theorem eq_of_ofTag {name content after beyond : Text} {attributes : List (Text × Text)}
    (success : Element.ofTag content = .ok ⟨name, attributes, none, []⟩)
    (solid : ∀ c ∈ beyond.head?, isSpace c = false)
    (same : content ++ after = name ++ renderAttributes attributes ++ beyond) :
    content = name ++ renderAttributes attributes ∧ after = beyond := by
  obtain ⟨others, read, same'⟩ := bind_eq_ok.mp success
  simp only [pure, Except.pure, Except.ok.injEq, Element.mk.injEq, and_true] at same'
  obtain ⟨named, rfl⟩ := same'
  have cut : content = name ++ content.dropWhile fun c => !isSpace c := by
    rw [← named, List.takeWhile_append_dropWhile]
  have shorter : (content.dropWhile fun c => !isSpace c).length ≤ content.length :=
    (List.dropWhile_sublist _).length_le
  rw [cut, List.append_assoc, List.append_assoc] at same
  obtain ⟨spaces, whole, kind⟩ :=
    eq_of_readAttributesWithin shorter read (List.append_cancel_left same)
  rw [whole, List.append_assoc] at same
  have rest := List.append_cancel_left (List.append_cancel_left same)
  cases spaces with
  | nil => exact ⟨by rw [cut, whole, List.append_nil], rest⟩
  | cons c spaces =>
    have space := kind c (by simp)
    rw [solid c (by simp [← rest])] at space
    contradiction

/-- A tag gives an element without content. -/
theorem bare_of_ofTag {content : Text} {element : Element}
    (success : Element.ofTag content = .ok element) :
    element = ⟨element.name, element.attributes, none, []⟩ := by
  obtain ⟨attributes, -, same⟩ := bind_eq_ok.mp success
  rw [← Except.ok.inj same]

/-! ## What is still to come -/

/-- The other element has the same tag, and its text and children go on where those of this one
end. -/
structure Element.Grows (element final : Element) : Prop where
  /-- The name is the same. -/
  name : final.name = element.name
  /-- The attributes are the same. -/
  attributes : final.attributes = element.attributes
  /-- The text is the same or is followed by text that is not blank. -/
  text : final.text = element.text ∨
    ∃ more : Text, more.trim ≠ [] ∧ final.text = some (element.text.getD [] ++ more)
  /-- The children come first. -/
  children : element.children <+: final.children

namespace Element.Grows

variable {element final child : Element}

/-- An element may stay as it is. -/
theorem refl (element : Element) : element.Grows element :=
  ⟨rfl, rfl, .inl rfl, List.prefix_rfl⟩

/-- What grows from an element with more text grows from the element. -/
theorem of_appendText {text : Text} (visible : text.trim ≠ [])
    (grows : (element.appendText text).Grows final) : element.Grows final := by
  refine ⟨grows.name, grows.attributes, .inr ?_, grows.children⟩
  rcases grows.text with same | ⟨more, -, same⟩
  · exact ⟨text, visible, same⟩
  · refine ⟨text ++ more, fun blank => visible ?_, by simpa [appendText] using same⟩
    rw [Text.trim_eq_nil_iff] at blank ⊢
    exact fun c mem => blank c (List.mem_append_left more mem)

/-- What grows from an element with one more child grows from the element, and has the child at its
place. -/
theorem of_addChild (grows : (element.addChild child).Grows final) :
    element.Grows final ∧ final.children[element.children.length]? = some child := by
  obtain ⟨more, whole⟩ := grows.children
  rw [addChild, List.append_assoc] at whole
  refine ⟨⟨grows.name, grows.attributes, grows.text, ⟨_, whole⟩⟩, ?_⟩
  simp [← whole]

end Element.Grows

/-- The next element that is put into the open ones has to be the given one if the root is to be
read. -/
def Awaits (root : Element) : (opened : List Element) → Element → Prop
  | [], element => element = root
  | parent :: outer, element => ∃ final, Awaits root outer final ∧ parent.Grows final ∧
      final.children[parent.children.length]? = some element

/-- At most one element is awaited. -/
theorem Awaits.unique {root : Element} {opened : List Element} {element other : Element}
    (first : Awaits root opened element) (second : Awaits root opened other) : element = other := by
  induction opened generalizing element other with
  | nil => exact Eq.trans first (Eq.symm second)
  | cons parent outer ih =>
    obtain ⟨final, awaits, -, found⟩ := first
    obtain ⟨final', awaits', -, found'⟩ := second
    obtain rfl := ih awaits awaits'
    exact Option.some.inj (found.symm.trans found')

namespace Reading

variable {root element : Element} {reading next : Reading} {opened : List Element}

/-- The root can still be read. -/
def LeadsTo (root : Element) (reading : Reading) : Prop :=
  match reading.opened with
  | [] => ∀ done ∈ reading.root?, done = root
  | current :: outer => reading.root? = none ∧ ∃ final, Awaits root outer final ∧
      current.Grows final

/-- The root can still be read where an element is awaited. -/
theorem leadsTo_of_awaits (awaits : Awaits root opened element) :
    LeadsTo root ⟨opened, none⟩ := by
  cases opened with
  | nil => simp [LeadsTo]
  | cons parent outer =>
    obtain ⟨final, further, grows, -⟩ := awaits
    exact ⟨rfl, final, further, grows⟩

/-- An element that was put into a tree was awaited there. -/
theorem awaits_of_attach (success : reading.attach element = .ok next)
    (leads : next.LeadsTo root) : reading.root? = none ∧ Awaits root reading.opened element := by
  obtain ⟨opened, root?⟩ := reading
  cases opened with
  | nil =>
    cases root? with
    | none =>
      obtain rfl : ⟨[], some element⟩ = next := by simpa [attach] using success
      exact ⟨rfl, leads element rfl⟩
    | some other => simp [attach] at success
  | cons parent outer =>
    obtain rfl : ⟨parent.addChild element :: outer, root?⟩ = next := by
      simpa [attach] using success
    obtain ⟨none, final, further, grows⟩ := leads
    exact ⟨none, final, further, grows.of_addChild⟩

/-- Before an element is put into a tree the root can be read if it can be afterwards. -/
theorem leadsTo_of_attach (success : reading.attach element = .ok next)
    (leads : next.LeadsTo root) : reading.LeadsTo root := by
  obtain ⟨none, awaits⟩ := awaits_of_attach success leads
  obtain ⟨opened, root?⟩ := reading
  obtain rfl : root? = .none := none
  exact leadsTo_of_awaits awaits

/-- Before a token is taken in the root can be read if it can be afterwards. -/
theorem leadsTo_of_step {size : Nat} {rest : Text} {token : Token}
    (success : reading.step size rest token = .ok next) (leads : next.LeadsTo root) :
    reading.LeadsTo root := by
  have appended {text : Text} (success : reading.appendText text = .ok next) :
      reading.LeadsTo root := by
    obtain ⟨opened, root?⟩ := reading
    unfold appendText at success
    split at success
    · rwa [Except.ok.inj success]
    rename_i visible
    cases opened with
    | nil => contradiction
    | cons current outer =>
      obtain rfl := Except.ok.inj success
      obtain ⟨none, final, awaits, grows⟩ := leads
      exact ⟨none, final, awaits, grows.of_appendText visible⟩
  unfold step at success
  cases token with
  | text content =>
    simp only at success
    split at success
    · contradiction
    · exact appended success
  | literal content => exact appended success
  | opening content =>
    simp only at success
    split at success
    · contradiction
    obtain rfl := Except.ok.inj success
    obtain ⟨none, final, awaits, -⟩ := leads
    obtain ⟨opened, root?⟩ := reading
    obtain rfl : root? = .none := none
    exact leadsTo_of_awaits awaits
  | empty content =>
    simp only at success
    split at success
    · contradiction
    · exact leadsTo_of_attach success leads
  | closing name =>
    simp only at success
    split at success
    · contradiction
    rename_i current outer nested
    split at success
    · obtain ⟨none, awaits⟩ := awaits_of_attach success leads
      rw [LeadsTo, nested]
      exact ⟨none, current, awaits, .refl current⟩
    · contradiction
  | aside => rwa [Except.ok.inj success]

/-- On the way to a root that is read, it can be read. -/
theorem leadsTo_of_readRest {size : Nat} {text : Text}
    (success : readRest size reading text = .ok root) : reading.LeadsTo root := by
  refine holds_of_readRest (fun {last} finished => ?_) leadsTo_of_step success
  obtain ⟨opened, root?⟩ := last
  cases opened with
  | nil =>
    cases root? with
    | none => simp [finish] at finished
    | some done =>
      intro other mem
      obtain rfl := Option.some.inj mem
      simpa [finish] using finished
  | cons current outer => simp [finish] at finished

end Reading

/-! ## Parts of the awaited element -/

section

variable {element root : Element} {opened : List Element} {size : Nat}

/-- The tag of an awaited element ends where it is written to: as a whole element, if there is no
content, or as one that opens it. -/
theorem tag_of_readRest {tail : Text} (awaits : Awaits root opened element)
    (readable : IsReadable element.name element.attributes)
    (marked : ∀ c ∈ tail.head?, c = '/' ∨ c = '>')
    (success : Reading.readRest size ⟨opened, none⟩
      ('<' :: (element.name ++ renderAttributes element.attributes ++ tail)) = .ok root) :
    quoteAfter? none (element.name ++ renderAttributes element.attributes) = some none ∧
      ((element.name ++ renderAttributes element.attributes ≠ [] ∧ element.text = none ∧
          element.children = [] ∧ ∃ after, tail = '/' :: '>' :: after) ∨
        (element.name ++ renderAttributes element.attributes).getLast? ≠ some '/' ∧
          ∃ after, tail = '>' :: after) := by
  have solid : ∀ c ∈ tail.head?, isSpace c = false := by
    intro c head
    rcases marked c head with rfl | rfl <;> rfl
  have first : ∀ c ∈ (element.name ++ renderAttributes element.attributes ++ tail).head?,
      c ≠ '!' ∧ c ≠ '?' := by
    intro c head
    rw [List.head?_append, Option.mem_def, Option.or_eq_some_iff] at head
    rcases head with inside | ⟨-, after⟩
    · exact (readable.head c inside).2
    · rcases marked c after with rfl | rfl <;> decide
  rcases Reading.readRest_eq_ok success with finished | ⟨token, rest, next, found, taken, further⟩
  · cases opened <;> simp [Reading.finish] at finished
  rw [Token.next?_tag first] at found
  have read : readTag (element.name ++ renderAttributes element.attributes ++ tail) =
      .ok (token, rest) := by
    cases tag : readTag (element.name ++ renderAttributes element.attributes ++ tail) <;>
      simp_all [Except.map]
  have leads := Reading.leadsTo_of_readRest further
  obtain ⟨content, closed, split, kind⟩ := readTag_cases read
  rcases kind with ⟨name, rfl, rfl⟩ | ⟨unslashed, ⟨inside, rfl, rfl⟩ | ⟨ends, rfl⟩⟩
  · -- The open element would be closed before the awaited child is put into it.
    cases opened with
    | nil => contradiction
    | cons current outer =>
      simp only [Reading.step] at taken
      split at taken
      · obtain ⟨-, complete⟩ := Reading.awaits_of_attach taken leads
        obtain ⟨final, further, -, found⟩ := awaits
        obtain rfl := complete.unique further
        simp at found
      · contradiction
  · simp only [Reading.step] at taken
    split at taken
    · contradiction
    rename_i made tag
    obtain ⟨-, complete⟩ := Reading.awaits_of_attach taken leads
    obtain rfl := complete.unique awaits
    have bare := bare_of_ofTag tag
    rw [bare] at tag
    obtain ⟨rfl, rfl⟩ := eq_of_ofTag tag solid (by simpa using split.symm)
    refine ⟨quoteAfter?_of_append (by simp) closed,
      .inl ⟨fun none => ?_, by rw [bare], by rw [bare], rest, rfl⟩⟩
    simp [none] at unslashed
  · simp only [Reading.step] at taken
    split at taken
    · contradiction
    rename_i made tag
    obtain rfl := Except.ok.inj taken
    obtain ⟨-, final, complete, grows⟩ := leads
    obtain rfl := complete.unique awaits
    rw [bare_of_ofTag tag, ← grows.name, ← grows.attributes] at tag
    obtain ⟨rfl, rfl⟩ := eq_of_ofTag tag solid split.symm
    exact ⟨closed, .inr ⟨ends, rest, rfl⟩⟩

/-- Every space of markup is a blank. -/
theorem isBlank_of_isSpace {c : Char} (space : isSpace c = true) : Text.isBlank c = true :=
  Text.isBlank_of_isWhitespace (isWhitespace_of_isSpace space)

/-- A text that is not blank is a settled one between spaces. -/
theorem exists_eq_settled {text : Text} (visible : text.trim ≠ []) :
    ∃ front core back, text = front ++ core ++ back ∧ (∀ c ∈ front, isSpace c = true) ∧
      IsSettled core ∧ ∀ c ∈ back, isSpace c = true := by
  obtain ⟨core, made⟩ : ∃ core, core = Text.dropEndWhile isSpace (text.dropWhile isSpace) :=
    ⟨_, rfl⟩
  obtain ⟨back, split, after⟩ := Text.exists_eq_dropEndWhile isSpace (text.dropWhile isSpace)
  rw [← made] at split
  have whole : text = text.takeWhile isSpace ++ core ++ back := by
    rw [List.append_assoc, ← split, List.takeWhile_append_dropWhile]
  have before : ∀ c ∈ text.takeWhile isSpace, isSpace c = true := fun c => List.mem_takeWhile_imp
  refine ⟨_, core, back, whole, before,
    ⟨fun none => visible ?_, fun c head => ?_, fun c last => ?_⟩, after⟩
  · rw [Text.trim_eq_nil_iff] at none ⊢
    intro c mem
    rw [whole] at mem
    rcases List.mem_append.mp mem with inside | behind
    · rcases List.mem_append.mp inside with ahead | within
      · exact isBlank_of_isSpace (before c ahead)
      · exact none c within
    · exact isBlank_of_isSpace (after c behind)
  · have kind := List.head?_dropWhile_not isSpace text
    rw [split, List.head?_append, Option.mem_def.mp head] at kind
    exact kind
  · rw [made] at last
    exact Text.not_of_getLast?_dropEndWhile last

/-- The text of an awaited element is written as it is read. -/
theorem settled_of_readRest {name content rest : Text} {attributes : List (Text × Text)}
    {children : List Element}
    (awaits : Awaits root opened ⟨name, attributes, some content, children⟩)
    (visible : content.trim ≠ []) (markup : ∀ c ∈ rest.head?, c = '<')
    (success : Reading.readRest size ⟨⟨name, attributes, none, []⟩ :: opened, none⟩
      (escape content ++ rest) = .ok root) : IsSettled content := by
  obtain ⟨front, core, back, rfl, before, settled, after⟩ := exists_eq_settled visible
  rw [Reading.readRest_escape before settled after markup] at success
  obtain ⟨-, final, complete, grows⟩ := Reading.leadsTo_of_readRest success
  obtain rfl := complete.unique awaits
  have text : front ++ core ++ back = core ∨ ∃ more, Text.trim more ≠ [] ∧
      front ++ core ++ back = core ++ more := by
    simpa [Element.appendText] using grows.text
  rcases text with same | ⟨more, seen, same⟩
  · rwa [same]
  obtain ⟨d, inside, rfl⟩ : ∃ d inside, core = d :: inside :=
    List.exists_cons_of_ne_nil fun none => settled.visible (by rw [none]; rfl)
  cases front with
  | nil =>
    obtain rfl : back = more := List.append_cancel_left same
    exact absurd (Text.trim_eq_nil_iff.mpr fun c mem => isBlank_of_isSpace (after c mem)) seen
  | cons c front =>
    obtain ⟨rfl, -⟩ := List.cons.inj same
    have space := before c (by simp)
    rw [settled.first c (by simp)] at space
    contradiction

/-- Children that are awaited one after the other are stable if each one is. -/
theorem stable_of_renderAll {parent : Element} {tail : Text} {others : List Element}
    (sound : ∀ child ∈ others, child.Sound)
    (each : ∀ child ∈ others, ∀ {opened rest}, Awaits root opened child →
      Reading.readRest size ⟨opened, none⟩ (child.render ++ rest) = .ok root → child.Stable)
    (awaits : Awaits root opened { parent with children := parent.children ++ others })
    (success : Reading.readRest size ⟨parent :: opened, none⟩
      (Element.renderAll others ++ tail) = .ok root) : ∀ child ∈ others, child.Stable := by
  induction others generalizing parent with
  | nil => simp
  | cons child others ih =>
    have here : Awaits root (parent :: opened) child :=
      ⟨_, awaits, ⟨rfl, rfl, .inl rfl, List.prefix_append _ _⟩, by simp⟩
    rw [Element.renderAll, List.append_assoc] at success
    have stable := each child (by simp) here success
    have restorable := (sound child (by simp)).restorable stable
    rw [restorable.readRest_render] at success
    have further : Reading.readRest size ⟨parent.addChild child :: opened, none⟩
        (Element.renderAll others ++ tail) = .ok root := success
    have rest := ih (fun other mem => sound other (by simp [mem]))
      (fun other mem => each other (by simp [mem])) (by simpa [Element.addChild] using awaits)
      further
    exact List.forall_mem_cons.mpr ⟨stable, rest⟩

/-- An element that was read and is awaited where its written form is read is stable. -/
theorem Element.Sound.stable_of_readRest {rest : Text} (sound : element.Sound)
    (awaits : Awaits root opened element)
    (success : Reading.readRest size ⟨opened, none⟩ (element.render ++ rest) = .ok root) :
    element.Stable := by
  -- The children are awaited in the open element, so the open elements are left free.
  induction sound generalizing opened rest with
  | @mk name attributes text children readable visible ended inner ih =>
    rcases bare_or_content text children with ⟨rfl, rfl⟩ | held
    · have whole : Element.render ⟨name, attributes, none, []⟩ ++ rest =
          '<' :: (name ++ renderAttributes attributes ++ '/' :: '>' :: rest) := by
        simp [render_bare]
      rw [whole] at success
      obtain ⟨closed, ⟨filled, -⟩ | ⟨-, after, differs⟩⟩ :=
        tag_of_readRest awaits readable (by simp) success
      · exact .mk closed (fun _ => filled) (by simp) (by simp) (by simp) (by simp)
      · simp at differs
    · obtain ⟨closing, closes⟩ : ∃ closing : Text, closing = '<' :: ('/' :: name ++ '>' :: rest) :=
        ⟨_, rfl⟩
      have whole : Element.render ⟨name, attributes, text, children⟩ ++ rest =
          '<' :: (name ++ renderAttributes attributes ++
            '>' :: (escape (text.getD []) ++ (renderAll children ++ closing))) := by
        simp [render_of_content held, closes]
      rw [whole] at success
      obtain ⟨closed, ⟨-, -, -, after, differs⟩ | ⟨ends, -⟩⟩ :=
        tag_of_readRest awaits readable (by simp) success
      · simp at differs
      have last : ∀ c ∈ (name ++ renderAttributes attributes).getLast?, c ≠ '/' :=
        fun c mem slash => ends (slash ▸ mem)
      have markup : ∀ c ∈ (renderAll children ++ closing).head?, c = '<' := by
        obtain ⟨after, begins⟩ := renderAll_markup children ('/' :: name ++ '>' :: rest)
        rw [closes, begins]
        simp
      rw [← List.cons_append, Reading.readRest_opening ⟨readable, closed⟩ last] at success
      have settled : ∀ content ∈ text, IsSettled content := by
        rintro content rfl
        exact settled_of_readRest awaits (visible content rfl) markup success
      rw [Reading.readRest_text settled fun _ => markup] at success
      have below := stable_of_renderAll inner (fun child mem => ih child mem) awaits success
      refine .mk closed (fun bare => ?_) (fun _ none => ?_)
        (fun content set => (settled content set).first)
        (fun content set => (settled content set).last) below
      · exact absurd bare (not_and_or.mpr held)
      · simpa [none, renderAttributes] using last

end

/-! ## Whole documents -/

namespace Element

/-- No byte order mark stands before the written form of an element. -/
theorem withoutMark_render (element : Element) : withoutMark element.render = element.render := by
  obtain ⟨name, attributes, text, children⟩ := element
  rcases bare_or_content text children with ⟨rfl, rfl⟩ | content
  · rw [render_bare]
    rfl
  · rw [render_of_content content]
    rfl

/-- The root of a document is read again from its written form exactly if it is stable. -/
theorem read_render_iff_stable {document : Text} {element : Element}
    (accepted : Element.read document = .ok element) :
    Element.read element.render = .ok element ↔ element.Stable := by
  have sound := sound_of_read accepted
  refine ⟨fun again => ?_, fun stable => (sound.restorable stable).read_render⟩
  rw [Element.read, withoutMark_render] at again
  have whole : Reading.readRest element.render.byteLength {} (element.render ++ []) =
      .ok element := by
    rw [List.append_nil]
    exact again
  have start : Awaits element [] element := rfl
  exact sound.stable_of_readRest start whole

/-- No text in the element starts or ends with a space. -/
inductive Unpadded : Element → Prop where
  | mk {name : Text} {attributes : List (Text × Text)} {text : Option Text}
      {children : List Element}
      (first : ∀ content ∈ text, ∀ c ∈ content.head?, isSpace c = false)
      (last : ∀ content ∈ text, ∀ c ∈ content.getLast?, isSpace c = false)
      (inner : ∀ child ∈ children, child.Unpadded) : Unpadded ⟨name, attributes, text, children⟩

/-- With proper names, only spaces around texts keep an element from being stable. -/
theorem WellNamed.stable_iff {element : Element} (named : element.WellNamed) :
    element.Stable ↔ element.Unpadded := by
  induction named with
  | @mk name attributes text children proper keyed distinct _ ih =>
    constructor
    · rintro ⟨-, -, -, first, last, inner⟩
      exact .mk first last fun child mem => (ih child mem).mp (inner child mem)
    · rintro ⟨first, last, inner⟩
      have filled := List.append_ne_nil_of_left_ne_nil (isKey_of_isName proper).filled
      exact .mk (isTag_of_isName proper keyed distinct).closed (fun _ => filled _)
        (fun _ _ => unslashed_of_isName proper) first last
        fun child mem => (ih child mem).mpr (inner child mem)

/-- Text around a literal section and a comment is read again, before a child. -/
theorem read_render_of_mixed_content :
    let document := "<a k='1'>x&#32;<![CDATA[<y>]]><!-- z --><b></b></a>".toList
    let element : Element :=
      ⟨"a".toList, [("k".toList, "1".toList)], some "x <y>".toList, [⟨"b".toList, [], none, []⟩]⟩
    Element.read document = .ok element ∧ element.Stable ∧
      element.render = "<a k=\"1\">x &lt;y&gt;<b/></a>".toList ∧
      Element.read element.render = .ok element := by
  have accepted : Element.read "<a k='1'>x&#32;<![CDATA[<y>]]><!-- z --><b></b></a>".toList =
      .ok ⟨"a".toList, [("k".toList, "1".toList)], some "x <y>".toList,
        [⟨"b".toList, [], none, []⟩]⟩ := by rfl
  have child : Stable ⟨"b".toList, [], none, []⟩ :=
    .mk (by decide) (by simp) (by simp) (by simp) (by simp) (by simp)
  have stable : Stable ⟨"a".toList, [("k".toList, "1".toList)], some "x <y>".toList,
      [⟨"b".toList, [], none, []⟩]⟩ :=
    .mk (by decide) (by simp) (by simp) (by simp [isSpace]) (by simp [isSpace])
      (List.forall_mem_singleton.mpr child)
  exact ⟨accepted, stable, by rfl, (read_render_iff_stable accepted).mpr stable⟩

/-- A space that a literal section gives is written bare, and is lost where a text starts with
it. -/
theorem leading_space_lost :
    let element : Element := ⟨"a".toList, [], some " x".toList, []⟩
    Element.read "<a><![CDATA[ x]]></a>".toList = .ok element ∧
      element.render = "<a> x</a>".toList ∧
      Element.read element.render = .ok (element.setText "x".toList) ∧
      Element.read element.render ≠ .ok element := by
  have again : Element.read "<a> x</a>".toList =
      .ok ⟨"a".toList, [], some "x".toList, []⟩ := by rfl
  refine ⟨by rfl, by rfl, again, fun same => ?_⟩
  have texts := congrArg Element.text (Except.ok.inj (again.symm.trans same))
  simp at texts

end Element

end AccessRules.Markup
