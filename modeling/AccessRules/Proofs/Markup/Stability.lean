import AccessRules.Proofs.Markup.Spelling
import AccessRules.Proofs.Rule.Extraction

/-!
# Elements that were read

Not every element that is read from a document is read back from its written form. Spaces at the
ends of a text are kept if a reference or a literal section gives them, and names and keys may hold
quotes and slashes, but none of these is protected where the element is written. The elements that
are read have readable names and keys, no blank texts and, if they have content, names that a
closing tag can hold. Among them, the stable ones are read back.
-/
namespace AccessRules.Markup

/-! ## Tags that were read -/

/-- One attribute: its key and what follows the key, its value and what follows the value. -/
theorem exists_of_readAttributesWithin {size fuel : Nat} {seen : List (Text × Text)}
    {first : Char} {text more : Text} {attributes : List (Text × Text)}
    (begins : text.dropWhile isSpace = first :: more)
    (success : readAttributesWithin size (fuel + 1) seen text = .ok attributes) :
    ∃ key written value rest others,
      key = first :: more.takeWhile (fun c => c != '=' && !isSpace c) ∧
      (more.dropWhile (fun c => c != '=' && !isSpace c)).dropWhile isSpace = '=' :: written ∧
      seen.lookup key = none ∧ readValue size written = .ok (value, rest) ∧
      readAttributesWithin size fuel ((key, first :: more) :: seen) rest = .ok others ∧
      attributes = (key, value) :: others := by
  rw [readAttributesWithin, begins] at success
  simp only at success
  split at success
  · rename_i written assigned
    split at success
    · contradiction
    rename_i fresh
    obtain ⟨⟨value, rest⟩, valued, success⟩ := bind_eq_ok.mp success
    obtain ⟨others, read, same⟩ := bind_eq_ok.mp success
    obtain rfl : (_, value) :: others = attributes := by simpa [pure, Except.pure] using same
    exact ⟨_, written, value, rest, others, rfl, assigned, fresh, valued, read, rfl⟩
  · contradiction

/-- The attributes that are read have keys that can stand in a tag, each given once. -/
theorem keys_of_readAttributesWithin {size fuel : Nat} {seen : List (Text × Text)} {text : Text}
    {attributes : List (Text × Text)}
    (success : readAttributesWithin size fuel seen text = .ok attributes) :
    (∀ entry ∈ attributes, IsKey entry.1 ∧ seen.lookup entry.1 = none) ∧
      (attributes.map Prod.fst).Nodup := by
  induction fuel generalizing seen text attributes with
  | zero =>
    obtain rfl : [] = attributes := by simpa [readAttributesWithin] using success
    simp
  | succ fuel ih =>
    cases begins : text.dropWhile isSpace with
    | nil =>
      obtain rfl : [] = attributes := by simpa [readAttributesWithin, begins] using success
      simp
    | cons first more =>
      obtain ⟨key, written, value, rest, others, named, -, fresh, -, read, rfl⟩ :=
        exists_of_readAttributesWithin begins success
      have solid : isSpace first = false := by
        have kind := List.head?_dropWhile_not isSpace text
        rwa [begins] at kind
      have inKey : ∀ c ∈ key.tail, c ≠ '=' ∧ isSpace c = false := fun c mem => by
        rw [named, List.tail_cons] at mem
        simpa using List.mem_takeWhile_imp mem
      have keyed : IsKey key := by
        refine ⟨by simp [named], fun c mem => ?_, fun mem => (inKey '=' mem).1 rfl⟩
        rw [named] at mem
        rcases List.mem_cons.mp mem with rfl | mem
        · exact solid
        · exact (inKey c (by rwa [named])).2
      obtain ⟨later, distinct⟩ := ih read
      have different : ∀ entry ∈ others, entry.1 ≠ key := fun entry mem same => by
        have found := (later entry mem).2
        simp [same] at found
      refine ⟨fun entry mem => ?_, ?_⟩
      · rcases List.mem_cons.mp mem with rfl | mem
        · exact ⟨keyed, fresh⟩
        · have found := (later entry mem).2
          rw [List.lookup_cons, beq_eq_false_iff_ne.mpr (different entry mem)] at found
          exact ⟨(later entry mem).1, found⟩
      · rw [List.map_cons, List.nodup_cons]
        refine ⟨fun mem => ?_, distinct⟩
        obtain ⟨entry, mem, same⟩ := List.mem_map.mp mem
        exact different entry mem same

/-- What is read from the content of a tag has a readable name and readable attributes. -/
theorem readable_of_ofTag {content : Text} {element : Element}
    (first : ∀ c ∈ content.head?, c ≠ '/' ∧ c ≠ '!' ∧ c ≠ '?')
    (success : Element.ofTag content = .ok element) :
    IsReadable element.name element.attributes ∧ element.text = none ∧ element.children = [] := by
  obtain ⟨attributes, read, same⟩ := bind_eq_ok.mp success
  obtain rfl : (⟨content.takeWhile fun c => !isSpace c, attributes, none, []⟩ : Element) =
    element := by simpa [pure, Except.pure] using same
  obtain ⟨keys, distinct⟩ := keys_of_readAttributesWithin read
  refine ⟨⟨fun c mem => ?_, fun c head => ?_, fun entry mem => (keys entry mem).1, distinct⟩,
    rfl, rfl⟩
  · simpa using List.mem_takeWhile_imp mem
  · cases content with
    | nil => simp at head
    | cons d content =>
      rw [List.takeWhile_cons] at head
      split at head
      · exact first c head
      · simp at head

/-! ## Elements that were read -/

/-- What is known of every element that was read. -/
inductive Element.Sound : Element → Prop where
  | mk {name : Text} {attributes : List (Text × Text)} {text : Option Text}
      {children : List Element} (readable : IsReadable name attributes)
      (visible : ∀ content ∈ text, content.trim ≠ [])
      (ended : text ≠ none ∨ children ≠ [] → quoteAfter? none name = some none)
      (inner : ∀ child ∈ children, child.Sound) : Sound ⟨name, attributes, text, children⟩

/-- What is known of an element while it is open. -/
structure Element.Begun (element : Element) : Prop where
  /-- Its name and attributes were read from a tag. -/
  readable : IsReadable element.name element.attributes
  /-- Its text is not blank. -/
  visible : ∀ content ∈ element.text, content.trim ≠ []
  /-- Its children were read. -/
  inner : ∀ child ∈ element.children, child.Sound

/-- What is known of a document while it is read. -/
structure Reading.Sound (reading : Reading) : Prop where
  /-- The open elements are begun. -/
  opened : ∀ element ∈ reading.opened, element.Begun
  /-- The root was read. -/
  root : ∀ element ∈ reading.root?, element.Sound

/-- A quote that is open is one of the two quotes. -/
theorem isQuote_of_quoteAfter? {text : Text} {quote? : Option Char} {quote : Char}
    (start : ∀ c ∈ quote?, c = '"' ∨ c = '\'')
    (opens : quoteAfter? quote? text = some (some quote)) : quote = '"' ∨ quote = '\'' := by
  induction text generalizing quote? with
  | nil =>
    rw [quoteAfter?, Option.some.injEq] at opens
    exact start quote opens
  | cons c text ih =>
    cases quote? with
    | none =>
      rw [quoteAfter?] at opens
      split at opens
      · simp at opens
      · refine ih (fun d mem => ?_) opens
        split at mem
        · rename_i kind
          obtain rfl : c = d := by simpa using mem
          exact kind
        · simp at mem
    | some open' =>
      rw [quoteAfter?] at opens
      refine ih (fun d mem => ?_) opens
      split at mem
      · simp at mem
      · obtain rfl : open' = d := by simpa using mem
        exact start _ rfl

/-- What is no quote closes none. -/
theorem quoteAfter?_of_append {text back : Text} (unquoted : ∀ c ∈ back, c ≠ '"' ∧ c ≠ '\'')
    (closed : quoteAfter? none (text ++ back) = some none) : quoteAfter? none text = some none := by
  rw [quoteAfter?_append, Option.bind_eq_some_iff] at closed
  obtain ⟨_ | quote, opens, stays⟩ := closed
  · exact opens
  · have kind : quote = '"' ∨ quote = '\'' := isQuote_of_quoteAfter? (by simp) opens
    have kept : quoteAfter? (some quote) back = some (some quote) := by
      clear stays
      induction back with
      | nil => rfl
      | cons c back ih =>
        have different : c ≠ quote := by
          rintro rfl
          have other := unquoted c (by simp)
          exact kind.elim other.1 other.2
        rw [quoteAfter?, if_neg different]
        exact ih fun d mem => unquoted d (by simp [mem])
    rw [kept] at stays
    simp at stays

/-- The name in a closing tag has every quote closed. -/
theorem quoteAfter?_closingName {content : Text} (closed : quoteAfter? none content = some none) :
    quoteAfter? none (closingName content) = some none := by
  rw [closingName]
  split
  · exact closed
  · obtain ⟨back, split, spaces⟩ := Text.exists_eq_dropEndWhile isSpace content
    rw [split] at closed
    refine quoteAfter?_of_append (fun c mem => ?_) closed
    constructor <;> rintro rfl <;> exact absurd (spaces _ mem) (by decide)

namespace Reading

/-- A sound element is put into a sound tree. -/
theorem Sound.attach {reading next : Reading} {element : Element} (sound : reading.Sound)
    (complete : element.Sound) (success : reading.attach element = .ok next) : next.Sound := by
  obtain ⟨opened, root?⟩ := reading
  rw [Reading.attach] at success
  split at success
  · rename_i parent outer nested
    obtain rfl : opened = parent :: outer := nested
    obtain rfl : (⟨parent.addChild element :: outer, root?⟩ : Reading) = next := by
      simpa using success
    have begun := sound.opened parent (by simp)
    refine ⟨fun other mem => ?_, sound.root⟩
    rcases List.mem_cons.mp mem with rfl | mem
    · refine ⟨begun.readable, begun.visible, fun child mem => ?_⟩
      rcases List.mem_append.mp mem with old | new
      · exact begun.inner child old
      · rwa [List.mem_singleton.mp new]
    · exact sound.opened other (by simp [mem])
  · rename_i outside _
    obtain rfl : (⟨opened, some element⟩ : Reading) = next := by simpa using success
    refine ⟨sound.opened, fun other mem => ?_⟩
    obtain rfl : element = other := by simpa using mem
    exact complete
  · contradiction

/-- Text is added to a sound tree. -/
theorem Sound.appendText {reading next : Reading} {text : Text} (sound : reading.Sound)
    (success : reading.appendText text = .ok next) : next.Sound := by
  obtain ⟨opened, root?⟩ := reading
  rw [Reading.appendText] at success
  split at success
  · obtain rfl : (⟨opened, root?⟩ : Reading) = next := by simpa using success
    exact sound
  rename_i visible
  split at success
  · rename_i current outer nested
    obtain rfl : opened = current :: outer := nested
    obtain rfl : (⟨current.appendText text :: outer, root?⟩ : Reading) = next := by
      simpa using success
    have begun := sound.opened current (by simp)
    refine ⟨fun other mem => ?_, sound.root⟩
    rcases List.mem_cons.mp mem with rfl | mem
    · refine ⟨begun.readable, fun content set => ?_, begun.inner⟩
      obtain rfl : current.text.getD [] ++ text = content := by
        simpa [Element.appendText] using set
      intro blank
      rw [Text.trim_eq_nil_iff] at visible blank
      exact visible fun c mem => blank c (by simp [mem])
    · exact sound.opened other (by simp [mem])
  · contradiction

/-- Each token keeps what is known of a document. -/
theorem Sound.step {size : Nat} {rest written : Text} {reading next : Reading} {token : Token}
    (sound : reading.Sound) (writes : token.Written written)
    (success : reading.step size rest token = .ok next) : next.Sound := by
  unfold Reading.step at success
  cases writes with
  | @text content gap =>
    simp only at success
    split at success
    · contradiction
    · exact sound.appendText success
  | literal content => exact sound.appendText success
  | @opening content closed first last =>
    simp only at success
    split at success
    · contradiction
    rename_i element tag
    obtain rfl : (⟨element :: reading.opened, reading.root?⟩ : Reading) = next := by
      simpa using success
    obtain ⟨readable, textless, childless⟩ := readable_of_ofTag first tag
    refine ⟨fun other mem => ?_, sound.root⟩
    rcases List.mem_cons.mp mem with rfl | mem
    · exact ⟨readable, by simp [textless], by simp [childless]⟩
    · exact sound.opened other mem
  | @empty content closed filled first =>
    simp only at success
    split at success
    · contradiction
    rename_i element tag
    obtain ⟨readable, textless, childless⟩ := readable_of_ofTag first tag
    obtain ⟨name, attributes, text, children⟩ := element
    obtain rfl : text = none := textless
    obtain rfl : children = [] := childless
    exact sound.attach (.mk readable (by simp) (by simp) (by simp)) success
  | @closing content closed =>
    simp only at success
    split at success
    · contradiction
    rename_i current outer nested
    split at success
    · rename_i same
      have begun := sound.opened current (by simp [nested])
      have complete : current.Sound := by
        obtain ⟨name, attributes, text, children⟩ := current
        refine .mk begun.readable begun.visible (fun _ => ?_) begun.inner
        obtain rfl : name = closingName content := same
        exact quoteAfter?_closingName closed
      have around : Reading.Sound ⟨outer, reading.root?⟩ :=
        ⟨fun other mem => sound.opened other (by simp [nested, mem]), sound.root⟩
      exact around.attach complete success
    · contradiction
  | aside filled =>
    obtain rfl : reading = next := by simpa using success
    exact sound

end Reading

/-- What is known of the root of a document. -/
theorem Element.sound_of_read {document : Text} {element : Element}
    (success : Element.read document = .ok element) : element.Sound := by
  have start : Reading.Sound {} := ⟨by simp, by simp⟩
  obtain ⟨last, sound, finished⟩ := Reading.finish_of_readRest start
    (fun next taken sound => by
      obtain ⟨front, written, -, writes⟩ := Token.written_of_next? next
      exact sound.step writes taken) success
  obtain ⟨opened, root?⟩ := last
  rw [Reading.finish] at finished
  split at finished
  · contradiction
  · contradiction
  · rename_i root _ closed
    obtain rfl : root = element := by simpa using finished
    exact sound.root root closed

/-! ## Stable elements -/

/-- An element whose written form keeps what it holds, at every depth: a tag ends where it was
written to end, a name is not taken for the end of a tag, and no space is lost from a text. -/
inductive Element.Stable : Element → Prop where
  | mk {name : Text} {attributes : List (Text × Text)} {text : Option Text}
      {children : List Element}
      (closed : quoteAfter? none (name ++ renderAttributes attributes) = some none)
      (filled : text = none ∧ children = [] → name ++ renderAttributes attributes ≠ [])
      (unslashed : text ≠ none ∨ children ≠ [] → attributes = [] → ∀ c ∈ name.getLast?, c ≠ '/')
      (first : ∀ content ∈ text, ∀ c ∈ content.head?, isSpace c = false)
      (last : ∀ content ∈ text, ∀ c ∈ content.getLast?, isSpace c = false)
      (inner : ∀ child ∈ children, child.Stable) : Stable ⟨name, attributes, text, children⟩

/-- A stable element that was read is read back from its written form. -/
theorem Element.Sound.restorable {element : Element} (sound : element.Sound)
    (stable : element.Stable) : element.Restorable := by
  induction sound with
  | @mk name attributes text children readable visible ended _ ih =>
    obtain ⟨closed, filled, unslashed, first, last, inner⟩ := stable
    exact .mk ⟨readable, closed⟩ filled ended unslashed
      (fun content set => ⟨visible content set, first content set, last content set⟩)
      fun child mem => ih child mem (inner child mem)

end AccessRules.Markup
