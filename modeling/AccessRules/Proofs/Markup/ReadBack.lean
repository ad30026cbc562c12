import AccessRules.Proofs.Markup.Progress
import AccessRules.Proofs.Markup.WrittenForm

/-!
# Values and tags read back

A written value or text is read back as it was, whatever its characters are. The attributes of a
tag are read back if each key could have been read as one, and no key is given twice.
-/
namespace AccessRules.Markup

/-! ## References -/

/-- A written character is resolved to the character. -/
theorem resolveRest_escapeChar (size : Nat) (c : Char) (rest : Text) :
    resolveRest size none (escapeChar c ++ rest) = (resolveRest size none rest).map (c :: ·) := by
  rcases escapeChar_cases c with
    ⟨rfl, written⟩ | ⟨rfl, written⟩ | ⟨rfl, written⟩ | ⟨rfl, written⟩ | ⟨rfl, written⟩ |
      ⟨other, written⟩
  case inr.inr.inr.inr.inr => simp [written, resolveRest, other.2.1]
  all_goals
    rw [written]
    rfl

/-- A written text is resolved to the text. -/
@[simp] theorem resolve_escape (text : Text) : resolve (escape text) = .ok text := by
  suffices found : ∀ size, resolveRest size none (escape text) = .ok text from found _
  intro size
  induction text with
  | nil => rfl
  | cons c text ih =>
    rw [escape, List.flatMap_cons, resolveRest_escapeChar]
    rw [escape] at ih
    rw [ih]
    rfl

/-- A written text has no quote and no opening angle bracket. -/
theorem not_mem_escape {c : Char} (markup : c = '"' ∨ c = '<') (text : Text) :
    c ∉ escape text := by
  intro mem
  obtain ⟨d, -, mem⟩ := List.mem_flatMap.mp mem
  rcases escapeChar_cases d with ⟨-, written⟩ | ⟨-, written⟩ | ⟨-, written⟩ | ⟨-, written⟩ |
    ⟨-, written⟩ | ⟨⟨less, -, quote⟩, written⟩ <;> rw [written] at mem
  case inr.inr.inr.inr.inr =>
    obtain rfl := List.mem_singleton.mp mem
    exact markup.elim quote less
  all_goals
    rcases markup with rfl | rfl <;> simp at mem

/-- A written text is empty only if the text is. -/
theorem escape_ne_nil {text : Text} (filled : text ≠ []) : escape text ≠ [] := by
  cases text with
  | nil => contradiction
  | cons c text =>
    obtain ⟨head, rest, written, -, -⟩ := escapeChar_head c
    simp [escape, written]

/-! ## Attributes -/

/-- A key that can stand in a tag: nothing in it is a space, and only its first character may be
an equals sign. -/
structure IsKey (key : Text) : Prop where
  /-- It has a character. -/
  filled : key ≠ []
  /-- It ends before the first space. -/
  solid : ∀ c ∈ key, isSpace c = false
  /-- It ends before the first equals sign that it does not start with. -/
  unassigned : '=' ∉ key.tail

/-- A written value in quotes is read back, and what follows it is left. -/
theorem readValue_escape (size : Nat) (value rest : Text) :
    readValue size ('"' :: escape value ++ '"' :: rest) = .ok (value, rest) := by
  have unspaced : List.dropWhile isSpace ('"' :: (escape value ++ '"' :: rest)) =
      '"' :: (escape value ++ '"' :: rest) := rfl
  have cut := Text.splitAt?_single (not_mem_escape (.inl rfl) value) rest
  simp [readValue, unspaced, cut]

/-- The first attribute is read back, and the others are read after it. -/
theorem readAttributesWithin_cons (size fuel : Nat) {seen : List (Text × Text)} {key : Text}
    (value rest : Text) (keyed : IsKey key) (fresh : seen.lookup key = none) :
    ∃ here, readAttributesWithin size (fuel + 1) seen
        (' ' :: key ++ '=' :: '"' :: escape value ++ '"' :: rest) =
      (readAttributesWithin size fuel ((key, here) :: seen) rest).map ((key, value) :: ·) := by
  obtain ⟨first, more, rfl⟩ := List.exists_cons_of_ne_nil keyed.filled
  have solid : isSpace first = false := keyed.solid first (by simp)
  have inKey : ∀ c ∈ more, (c != '=' && !isSpace c) = true := fun c mem => by
    have unequal : c ≠ '=' := fun equal => keyed.unassigned (equal ▸ mem)
    simp [unequal, keyed.solid c (by simp [mem])]
  obtain ⟨written, made⟩ : ∃ written : Text, written = '"' :: escape value ++ '"' :: rest :=
    ⟨_, rfl⟩
  have text : (' ' :: (first :: more) ++ '=' :: '"' :: escape value ++ '"' :: rest).dropWhile
      isSpace = first :: (more ++ '=' :: written) := by
    simp [made, solid, show isSpace ' ' = true from rfl]
  have taken : (more ++ '=' :: written).takeWhile (fun c => c != '=' && !isSpace c) = more := by
    rw [List.takeWhile_append_of_pos inKey]
    simp
  have dropped : (more ++ '=' :: written).dropWhile (fun c => c != '=' && !isSpace c) =
      '=' :: written := by
    rw [List.dropWhile_append_of_pos inKey]
    simp
  have unspaced : ('=' :: written).dropWhile isSpace = '=' :: written := rfl
  refine ⟨first :: (more ++ '=' :: written), ?_⟩
  have value : readValue size written = .ok (value, rest) := made ▸ readValue_escape size value rest
  rw [readAttributesWithin, text]
  simp only [taken, dropped, unspaced, fresh, value, bind, Except.bind]
  cases readAttributesWithin size fuel _ rest <;> rfl

/-- Attributes whose keys could be read, each given once, are read back. -/
theorem readAttributesWithin_renderAttributes {size fuel : Nat} {seen : List (Text × Text)}
    {attributes : List (Text × Text)} (keyed : ∀ entry ∈ attributes, IsKey entry.1)
    (distinct : (attributes.map Prod.fst).Nodup)
    (fresh : ∀ entry ∈ attributes, seen.lookup entry.1 = none) (enough : attributes.length ≤ fuel) :
    readAttributesWithin size fuel seen (renderAttributes attributes) = .ok attributes := by
  induction attributes generalizing fuel seen with
  | nil => cases fuel <;> rfl
  | cons first others ih =>
    obtain ⟨key, value⟩ := first
    obtain ⟨fuel, rfl⟩ := Nat.exists_eq_add_of_le' (Nat.le_trans (by simp) enough : 1 ≤ fuel)
    rw [List.map_cons, List.nodup_cons] at distinct
    obtain ⟨here, read⟩ := readAttributesWithin_cons size fuel value (renderAttributes others)
      (keyed (key, value) (by simp)) (fresh (key, value) (by simp))
    have unseen : ∀ entry ∈ others, ((key, here) :: seen).lookup entry.1 = none := by
      intro entry mem
      have unequal : entry.1 ≠ key := fun same =>
        distinct.1 (List.mem_map.mpr ⟨entry, mem, same⟩)
      rw [List.lookup_cons, beq_eq_false_iff_ne.mpr unequal]
      exact fresh entry (by simp [mem])
    rw [ih (fun entry mem => keyed entry (by simp [mem])) distinct.2 unseen
      (by simpa using enough)] at read
    simpa [renderAttributes, Except.map] using read

/-- Each attribute is written with at least one character. -/
theorem length_le_renderAttributes (attributes : List (Text × Text)) :
    attributes.length ≤ (renderAttributes attributes).length := by
  induction attributes with
  | nil => simp
  | cons first others ih =>
    simp only [renderAttributes, List.flatMap_cons, List.length_append, List.length_cons] at ih ⊢
    omega

/-- A name without spaces and such attributes are read back from the content of a tag. -/
theorem Element.ofTag_renderAttributes {name : Text} {attributes : List (Text × Text)}
    (solid : ∀ c ∈ name, isSpace c = false) (keyed : ∀ entry ∈ attributes, IsKey entry.1)
    (distinct : (attributes.map Prod.fst).Nodup) :
    Element.ofTag (name ++ renderAttributes attributes) = .ok ⟨name, attributes, none, []⟩ := by
  have named : ∀ c ∈ name, (!isSpace c) = true := fun c mem => by simp [solid c mem]
  have taken : (name ++ renderAttributes attributes).takeWhile (fun c => !isSpace c) = name := by
    rw [List.takeWhile_append_of_pos named]
    cases attributes <;> simp [renderAttributes, isSpace]
  have dropped : (name ++ renderAttributes attributes).dropWhile (fun c => !isSpace c) =
      renderAttributes attributes := by
    rw [List.dropWhile_append_of_pos named]
    cases attributes <;> simp [renderAttributes, isSpace]
  have enough : attributes.length ≤ (name ++ renderAttributes attributes).length :=
    (length_le_renderAttributes attributes).trans (by simp)
  have read : readAttributesWithin (Text.byteLength (name ++ renderAttributes attributes))
      (name ++ renderAttributes attributes).length [] (renderAttributes attributes) =
        .ok attributes :=
    readAttributesWithin_renderAttributes keyed distinct (fun _ _ => rfl) enough
  simp only [Element.ofTag, taken, dropped, read, bind, Except.bind]
  rfl

/-! ## Tokens -/

namespace Token

/-- A space before a token does not matter. -/
theorem next?_space {c : Char} (space : isSpace c = true) (text : Text) :
    next? (c :: text) = next? text := by
  rw [next?, next?, List.dropWhile_cons, if_pos space]

/-- At an angle bracket without a declaration or an instruction a tag is read. -/
theorem next?_tag {text : Text} (first : ∀ c ∈ text.head?, c ≠ '!' ∧ c ≠ '?') :
    next? ('<' :: text) = (readTag text).map some := by
  have unspaced : List.dropWhile isSpace ('<' :: text) = '<' :: text := rfl
  rw [next?, unspaced]
  split
  · contradiction
  · rename_i rest same
    obtain rfl := (List.cons.inj same).2
    exact absurd rfl (first '!' (by simp)).1
  · rename_i rest same
    obtain rfl := (List.cons.inj same).2
    exact absurd rfl (first '?' (by simp)).2
  · rename_i rest _ _ same
    rw [(List.cons.inj same).2]
  · rename_i unopened same
    exact absurd (List.cons.inj same).1.symm unopened

/-- A tag that starts with no slash is a whole element or opens one, as it ends. -/
theorem next?_element {content : Text} (closed : quoteAfter? none content = some none)
    (first : ∀ c ∈ content.head?, c ≠ '/' ∧ c ≠ '!' ∧ c ≠ '?') (rest : Text) :
    next? ('<' :: content ++ '>' :: rest) = .ok (some (if content.getLast? = some '/' then
      .empty content.dropLast else .opening content, rest)) := by
  have ends : tagEnd? none (content ++ '>' :: rest) = some (content, rest) :=
    tagEnd?_eq_some_iff.mpr ⟨closed, rfl⟩
  have unmarked : ∀ c ∈ (content ++ '>' :: rest).head?, c ≠ '!' ∧ c ≠ '?' := by
    intro c head
    cases content with
    | nil =>
      obtain rfl : '>' = c := by simpa using head
      decide
    | cons d content => exact (first c head).2
  rw [List.cons_append, next?_tag unmarked, readTag, ends]
  split
  · contradiction
  · rename_i name _ same
    obtain ⟨rfl, -⟩ := Prod.mk.inj (Option.some.inj same)
    exact absurd rfl (first '/' (by simp)).1
  · rename_i same
    obtain ⟨rfl, rfl⟩ := Prod.mk.inj (Option.some.inj same)
    split <;> rfl

/-- A tag that ends in no slash opens an element. -/
theorem next?_opening {content : Text} (closed : quoteAfter? none content = some none)
    (first : ∀ c ∈ content.head?, c ≠ '/' ∧ c ≠ '!' ∧ c ≠ '?')
    (last : ∀ c ∈ content.getLast?, c ≠ '/') (rest : Text) :
    next? ('<' :: content ++ '>' :: rest) = .ok (some (.opening content, rest)) := by
  have unslashed : content.getLast? ≠ some '/' := fun slash => last '/' slash rfl
  rw [next?_element closed first, if_neg unslashed]

/-- A tag that ends in a slash is a whole element. -/
theorem next?_empty {content : Text} (closed : quoteAfter? none content = some none)
    (filled : content ≠ []) (first : ∀ c ∈ content.head?, c ≠ '/' ∧ c ≠ '!' ∧ c ≠ '?')
    (rest : Text) :
    next? ('<' :: content ++ '/' :: '>' :: rest) = .ok (some (.empty content, rest)) := by
  have slashed : quoteAfter? none (content ++ ['/']) = some none := by
    rw [quoteAfter?_append, closed]
    rfl
  have head : (content ++ ['/']).head? = content.head? := List.head?_append_of_ne_nil _ filled
  have read := next?_element slashed (head ▸ first) rest
  rw [if_pos List.getLast?_concat, List.dropLast_concat] at read
  simpa using read

/-- A tag that starts with a slash closes an element. -/
theorem next?_closing {name : Text} (closed : quoteAfter? none name = some none) (rest : Text) :
    next? ('<' :: '/' :: name ++ '>' :: rest) = .ok (some (.closing (closingName name), rest)) := by
  have slashed : quoteAfter? none ('/' :: name) = some none := by simpa [quoteAfter?] using closed
  have ends : tagEnd? none ('/' :: (name ++ '>' :: rest)) = some ('/' :: name, rest) :=
    tagEnd?_eq_some_iff.mpr ⟨slashed, rfl⟩
  rw [List.cons_append, List.cons_append, next?_tag (by simp), readTag, ends]
  rfl

/-- A text goes up to the next angle bracket or to the end of the document, without the spaces
there. -/
theorem next?_text {content gap rest : Text} (filled : content ≠ []) (plain : '<' ∉ content)
    (first : ∀ c ∈ content.head?, isSpace c = false)
    (last : ∀ c ∈ content.getLast?, isSpace c = false) (spaces : ∀ c ∈ gap, isSpace c = true)
    (markup : ∀ c ∈ rest.head?, c = '<') :
    next? (content ++ gap ++ rest) = .ok (some (.text content, rest)) := by
  have stops : rest.takeWhile (· != '<') = [] ∧ rest.dropWhile (· != '<') = rest := by
    cases rest with
    | nil => simp
    | cons d rest => simp [markup d (by simp)]
  have kept := Text.dropEndWhile_append spaces last
  obtain ⟨c, more, rfl⟩ := List.exists_cons_of_ne_nil filled
  have solid : isSpace c = false := first c (by simp)
  have unopened : c ≠ '<' := fun mark => plain (by simp [mark])
  have passed : ∀ d ∈ more ++ gap, (d != '<') = true := by
    intro d mem
    rw [bne_iff_ne]
    rintro rfl
    rcases List.mem_append.mp mem with inside | after
    · exact plain (List.mem_cons_of_mem c inside)
    · exact absurd (spaces '<' after) (by decide)
  have unspaced : (c :: more ++ gap ++ rest).dropWhile isSpace = c :: (more ++ gap ++ rest) := by
    simp [solid]
  rw [next?, unspaced]
  split
  · contradiction
  · exact absurd (List.cons.inj ‹_›).1 unopened
  · exact absurd (List.cons.inj ‹_›).1 unopened
  · exact absurd (List.cons.inj ‹_›).1 unopened
  · rename_i same
    obtain ⟨rfl, rfl⟩ := List.cons.inj same
    rw [List.takeWhile_append_of_pos passed, List.dropWhile_append_of_pos passed, stops.1, stops.2,
      List.append_nil]
    exact congrArg (fun content => Except.ok (some (text content, rest))) kept

/-- A comment is an aside. -/
theorem next?_comment {content : Text} (free : '-' ∉ content) (rest : Text) :
    next? ("<!--".toList ++ content ++ "-->".toList ++ rest) = .ok (some (.aside, rest)) := by
  have cut : Text.splitAt? "-->".toList (content ++ "-->".toList ++ rest) =
      some (content, rest) := by
    rw [List.append_assoc]
    refine Text.search_append (fun before back same filled => ?_) (by simp) (by simp [Text.after?])
    obtain ⟨c, back, rfl⟩ := List.exists_cons_of_ne_nil filled
    have other : '-' ≠ c := fun hyphen => free (by simp [same, ← hyphen])
    simp [Text.after?, other]
  have read : readComment ('-' :: '-' :: (content ++ "-->".toList ++ rest)) =
      .ok (.aside, rest) := by
    have dropped : List.drop 2 ('-' :: '-' :: (content ++ "-->".toList ++ rest)) =
        content ++ "-->".toList ++ rest := rfl
    rw [readComment, dropped, cut]
    simp [Text.after?]
  have next : next? ('<' :: '!' :: '-' :: '-' :: (content ++ "-->".toList ++ rest)) =
      (readComment ('-' :: '-' :: (content ++ "-->".toList ++ rest))).map some := rfl
  rw [read] at next
  simpa [Except.map] using next

/-- A processing instruction is an aside. -/
theorem next?_instruction {content : Text} (begun : ∀ c ∈ content.head?, c ≠ '>')
    (free : ¬"?>".toList <:+: content) (rest : Text) :
    next? ("<?".toList ++ content ++ "?>".toList ++ rest) = .ok (some (.aside, rest)) := by
  have cut : Text.splitAt? "?>".toList ('?' :: content ++ ("?>".toList ++ rest)) =
      some ('?' :: content, rest) := by
    refine Text.search_append (fun before back same filled => ?_) (by simp) (by simp [Text.after?])
    rw [Option.eq_none_iff_forall_ne_some]
    intro after accepted
    have found := Text.after?_eq_some.mp accepted
    obtain ⟨c, back, rfl⟩ := List.exists_cons_of_ne_nil filled
    cases back with
    | nil => simp at found
    | cons d back =>
      obtain ⟨rfl, rfl, -⟩ : c = '?' ∧ d = '>' ∧ _ := by simpa using found
      cases before with
      | nil =>
        obtain rfl : content = '>' :: back := by simpa using same
        exact begun '>' (by simp) rfl
      | cons e before =>
        obtain ⟨-, split⟩ := List.cons.inj same
        exact free ⟨before, back, by simp [split]⟩
  have read : readInstruction ('?' :: (content ++ "?>".toList ++ rest)) = .ok (.aside, rest) := by
    have whole : '?' :: (content ++ "?>".toList ++ rest) =
        '?' :: content ++ ("?>".toList ++ rest) := by simp
    rw [readInstruction, whole, cut]
  have next : next? ('<' :: '?' :: (content ++ "?>".toList ++ rest)) =
      (readInstruction ('?' :: (content ++ "?>".toList ++ rest))).map some := rfl
  rw [read] at next
  simpa [Except.map] using next

end Token

end AccessRules.Markup
