import AccessRules.Markup.Document
import AccessRules.Proofs.Text.Search

/-!
# Reading goes on to the end

Each token takes at least one character of the document, so the bound on the number of tokens is
never reached and reading is determined by the tokens alone. A tag ends at the first angle bracket
outside of quotes, which is stated through the quote that is open after a part of the tag.
-/
namespace AccessRules.Markup

/-! ## Ends of tags -/

/-- The quote that is open after a part of a tag; none if the tag has ended before. -/
def quoteAfter? : (quote? : Option Char) → Text → Option (Option Char)
  | quote?, [] => some quote?
  | none, c :: rest =>
    if c = '>' then none
    else
      let quote? := if c = '"' ∨ c = '\'' then some c else none
      quoteAfter? quote? rest
  | some quote, c :: rest =>
    let quote? := if c = quote then none else some quote
    quoteAfter? quote? rest

/-- The open quote is carried on from one part of a tag to the next. -/
theorem quoteAfter?_append (quote? : Option Char) (left right : Text) :
    quoteAfter? quote? (left ++ right) =
      (quoteAfter? quote? left).bind (quoteAfter? · right) := by
  induction left generalizing quote? with
  | nil => simp [quoteAfter?]
  | cons c left ih =>
    cases quote? with
    | none =>
      simp only [List.cons_append, quoteAfter?]
      split
      · rfl
      · exact ih _
    | some quote => simpa only [List.cons_append, quoteAfter?] using ih _

/-- The content of a tag is what has no open quote before an angle bracket. -/
theorem tagEnd?_eq_some_iff {quote? : Option Char} {text content rest : Text} :
    tagEnd? quote? text = some (content, rest) ↔
      quoteAfter? quote? content = some none ∧ text = content ++ '>' :: rest := by
  induction text generalizing quote? content with
  | nil => cases quote? <;> simp [tagEnd?]
  | cons c text ih =>
    cases content with
    | nil =>
      cases quote? with
      | none =>
        by_cases ends : c = '>'
        · simp [tagEnd?, quoteAfter?, ends]
        · simp [tagEnd?, ends]
      | some quote => simp [tagEnd?, quoteAfter?]
    | cons d content =>
      cases quote? with
      | none =>
        by_cases ends : c = '>'
        · simp only [tagEnd?, ends, if_true, quoteAfter?]
          grind
        · simp only [tagEnd?, ends, if_false, Option.map_eq_some_iff, Prod.exists,
            Prod.mk.injEq, List.cons.injEq, quoteAfter?, List.cons_append]
          grind
      | some quote =>
        simp only [tagEnd?, Option.map_eq_some_iff, Prod.exists, Prod.mk.injEq, List.cons.injEq,
          quoteAfter?, List.cons_append]
        grind

/-! ## Written tokens -/

/-- What a token is read from, without the spaces before it. -/
inductive Token.Written : Token → Text → Prop where
  | text {content gap : Text} (filled : content ≠ []) (plain : '<' ∉ content)
      (first : ∀ c ∈ content.head?, isSpace c = false)
      (last : ∀ c ∈ content.getLast?, isSpace c = false) (spaces : gap.all isSpace) :
      Written (.text content) (content ++ gap)
  | literal (content : Text) :
      Written (.literal content) ("<![CDATA[".toList ++ content ++ "]]>".toList)
  | opening {content : Text} (closed : quoteAfter? none content = some none)
      (first : ∀ c ∈ content.head?, c ≠ '/' ∧ c ≠ '!' ∧ c ≠ '?')
      (last : ∀ c ∈ content.getLast?, c ≠ '/') :
      Written (.opening content) ('<' :: content ++ ['>'])
  | empty {content : Text} (closed : quoteAfter? none (content ++ ['/']) = some none)
      (filled : content ≠ []) (first : ∀ c ∈ content.head?, c ≠ '/' ∧ c ≠ '!' ∧ c ≠ '?') :
      Written (.empty content) ('<' :: content ++ ['/', '>'])
  | closing {content : Text} (closed : quoteAfter? none content = some none) :
      Written (.closing (closingName content)) ('<' :: '/' :: content ++ ['>'])
  | aside {written : Text} (filled : written ≠ []) : Written .aside written

/-- A token is written with at least one character. -/
theorem Token.Written.ne_nil {token : Token} {written : Text} (writes : token.Written written) :
    written ≠ [] := by
  cases writes with
  | text filled => simp [filled]
  | aside filled => exact filled
  | _ => simp

/-- A tag closes an element, is a whole element or opens one, as its content starts and ends. -/
theorem readTag_cases {text rest : Text} {token : Token}
    (success : readTag text = .ok (token, rest)) :
    ∃ content, quoteAfter? none content = some none ∧ text = content ++ '>' :: rest ∧
      ((∃ name, content = '/' :: name ∧ token = .closing (closingName name)) ∨
        content.head? ≠ some '/' ∧ ((∃ inside, content = inside ++ ['/'] ∧ token = .empty inside) ∨
          content.getLast? ≠ some '/' ∧ token = .opening content)) := by
  unfold readTag at success
  rcases found : tagEnd? none text with - | ⟨content, after⟩
  · simp [found] at success
  obtain ⟨closed, rfl⟩ := tagEnd?_eq_some_iff.mp found
  rw [found] at success
  split at success
  · contradiction
  · rename_i name rest' same
    simp only [Option.some.injEq, Prod.mk.injEq] at same
    simp only [Except.ok.injEq, Prod.mk.injEq] at success
    obtain ⟨⟨rfl, rfl⟩, rfl, rfl⟩ := same, success
    exact ⟨_, closed, rfl, .inl ⟨name, rfl, rfl⟩⟩
  · rename_i content' rest' opens same
    simp only [Option.some.injEq, Prod.mk.injEq] at same
    obtain ⟨rfl, rfl⟩ := same
    have unslashed : content.head? ≠ some '/' := fun slash => by
      obtain ⟨name, rfl⟩ := List.head?_eq_some_iff.mp slash
      exact opens name rfl
    split at success
    · rename_i ends
      simp only [Except.ok.injEq, Prod.mk.injEq] at success
      obtain ⟨rfl, rfl⟩ := success
      obtain ⟨inside, rfl⟩ := List.getLast?_eq_some_iff.mp ends
      rw [List.dropLast_concat]
      exact ⟨_, closed, rfl, .inr ⟨unslashed, .inl ⟨inside, rfl, rfl⟩⟩⟩
    · rename_i ends
      simp only [Except.ok.injEq, Prod.mk.injEq] at success
      obtain ⟨rfl, rfl⟩ := success
      exact ⟨_, closed, rfl, .inr ⟨unslashed, .inr ⟨ends, rfl⟩⟩⟩

/-- What is read from a tag was written as one. -/
theorem written_of_readTag {text rest : Text} {token : Token}
    (first : ∀ c ∈ text.head?, c ≠ '!' ∧ c ≠ '?') (success : readTag text = .ok (token, rest)) :
    ∃ written, '<' :: text = written ++ rest ∧ token.Written written := by
  obtain ⟨content, closed, rfl, kind⟩ := readTag_cases success
  have head (unslashed : content.head? ≠ some '/') :
      ∀ c ∈ content.head?, c ≠ '/' ∧ c ≠ '!' ∧ c ≠ '?' := by
    intro c mem
    refine ⟨fun slash => unslashed (slash ▸ mem), first c ?_⟩
    rw [List.head?_append, Option.mem_def.mp mem]
    rfl
  rcases kind with ⟨name, rfl, rfl⟩ | ⟨unslashed, ⟨inside, rfl, rfl⟩ | ⟨ends, rfl⟩⟩
  · exact ⟨'<' :: '/' :: name ++ ['>'], by simp, .closing (by simpa [quoteAfter?] using closed)⟩
  · cases inside with
    | nil => exact absurd rfl unslashed
    | cons c inside =>
      exact ⟨'<' :: c :: inside ++ ['/', '>'], by simp,
        .empty closed (by simp) fun d mem => head unslashed d mem⟩
  · exact ⟨'<' :: content ++ ['>'], by simp, .opening closed (head unslashed)
      fun c mem slash => ends (slash ▸ mem)⟩

/-- The declaration, its end and what follows it make up the text. -/
theorem eq_of_doctypeEnd? {nested : Nat} {text content rest : Text}
    (success : doctypeEnd? nested text = some (content, rest)) : text = content ++ '>' :: rest := by
  induction text generalizing nested content with
  | nil => simp [doctypeEnd?] at success
  | cons c text ih =>
    rw [doctypeEnd?] at success
    split at success
    · rename_i ends
      simp only [Option.some.injEq, Prod.mk.injEq] at success
      obtain ⟨rfl, rfl⟩ := success
      rw [ends.1, List.nil_append]
    · obtain ⟨⟨content, after⟩, further, same⟩ := Option.map_eq_some_iff.mp success
      simp only [Prod.mk.injEq] at same
      obtain ⟨rfl, rfl⟩ := same
      rw [ih further, List.cons_append]

/-- A token that an exclamation mark starts was written as one. -/
theorem written_of_readDeclaration {text rest : Text} {token : Token}
    (success : readLiteral text = .ok (token, rest) ∨ readComment text = .ok (token, rest) ∨
      readDoctype text = .ok (token, rest)) :
    ∃ written, '<' :: '!' :: text = written ++ rest ∧ token.Written written := by
  rcases success with literal | comment | doctype
  · unfold readLiteral at literal
    split at literal
    · contradiction
    rename_i inside after split
    split at literal
    · contradiction
    rename_i content opened
    simp only [Except.ok.injEq, Prod.mk.injEq] at literal
    obtain ⟨rfl, rfl⟩ := literal
    rw [Text.eq_of_splitAt? split, Text.after?_eq_some.mp opened]
    exact ⟨_, by simp, .literal content⟩
  · unfold readComment at comment
    split at comment
    · contradiction
    rename_i inside after split
    split at comment
    · contradiction
    simp only [Except.ok.injEq, Prod.mk.injEq] at comment
    obtain ⟨rfl, rfl⟩ := comment
    refine ⟨'<' :: '!' :: text.take 2 ++ inside ++ "-->".toList, ?_, .aside (by simp)⟩
    have cut := List.take_append_drop 2 text
    rw [Text.eq_of_splitAt? split] at cut
    exact (congrArg ('<' :: '!' :: ·) cut.symm).trans (by simp)
  · unfold readDoctype at doctype
    split at doctype
    · contradiction
    rename_i inside after ends
    split at doctype
    · contradiction
    split at doctype
    · contradiction
    simp only [Except.ok.injEq, Prod.mk.injEq] at doctype
    obtain ⟨rfl, rfl⟩ := doctype
    refine ⟨'<' :: '!' :: inside ++ ['>'], ?_, .aside (by simp)⟩
    rw [eq_of_doctypeEnd? ends]
    simp

/-- A processing instruction was written as one. -/
theorem written_of_readInstruction {text rest : Text} {token : Token}
    (success : readInstruction text = .ok (token, rest)) :
    ∃ written, '<' :: text = written ++ rest ∧ token.Written written := by
  unfold readInstruction at success
  split at success
  · contradiction
  · contradiction
  rename_i c inside after split
  simp only [Except.ok.injEq, Prod.mk.injEq] at success
  obtain ⟨rfl, rfl⟩ := success
  have whole : '<' :: text = '<' :: c :: inside ++ "?>".toList ++ after := by
    rw [Text.eq_of_splitAt? split]
    simp
  exact ⟨_, whole, .aside (by simp)⟩

/-- Text up to the next angle bracket was written as one, the spaces at its end included. -/
theorem written_of_text {c : Char} {after : Text} (solid : isSpace c = false)
    (unopened : c ≠ '<') : ∃ written, c :: after = written ++ after.dropWhile (· != '<') ∧
      (Token.text (Text.dropEndWhile isSpace (c :: after.takeWhile (· != '<')))).Written
        written := by
  obtain ⟨written, made⟩ : ∃ written : Text, written = c :: after.takeWhile (· != '<') :=
    ⟨_, rfl⟩
  rw [← made]
  have plain : '<' ∉ written := fun mem => by
    rw [made] at mem
    rcases List.mem_cons.mp mem with same | mem
    · exact unopened same.symm
    · simpa using List.mem_takeWhile_imp mem
  obtain ⟨gap, split, spaces⟩ := Text.exists_eq_dropEndWhile isSpace written
  have filled : written.dropEndWhile isSpace ≠ [] := fun none => by
    rw [none, List.nil_append] at split
    rw [spaces c (by rw [← split, made]; simp)] at solid
    contradiction
  refine ⟨written, by rw [made, List.cons_append, List.takeWhile_append_dropWhile], ?_⟩
  rw [show Token.Written _ written = Token.Written _ (written.dropEndWhile isSpace ++ gap) from
    congrArg _ split]
  refine .text filled (fun mem => plain (split ▸ List.mem_append_left gap mem))
    (fun d head => ?_) (fun d last => Text.not_of_getLast?_dropEndWhile last)
    (List.all_eq_true.mpr spaces)
  have start : d ∈ written.head? := by
    rw [split, List.head?_append, Option.mem_def.mp head]
    rfl
  rwa [show d = c by simpa [made, eq_comm] using start]

/-- The next token is written after some spaces, and what follows it is left. -/
theorem Token.written_of_next? {text rest : Text} {token : Token}
    (success : Token.next? text = .ok (some (token, rest))) :
    ∃ front written, text = front ++ written ++ rest ∧ token.Written written := by
  suffices found : ∃ written, text.dropWhile isSpace = written ++ rest ∧ token.Written written by
    obtain ⟨written, same, writes⟩ := found
    refine ⟨text.takeWhile isSpace, written, ?_, writes⟩
    rw [List.append_assoc, ← same, List.takeWhile_append_dropWhile]
  have some_eq {step : Step} {found : Token × Text} (given : step.map some = .ok (some found)) :
      step = .ok found := by
    cases step <;> simp_all [Except.map]
  unfold Token.next? at success
  split at success
  · simp at success
  · rename_i after same
    rw [same]
    split at success
    · exact written_of_readDeclaration (.inl (some_eq success))
    · exact written_of_readDeclaration (.inr (.inl (some_eq success)))
    · exact written_of_readDeclaration (.inr (.inr (some_eq success)))
    · exact written_of_readDeclaration (.inr (.inr (some_eq success)))
    · contradiction
  · rename_i after same
    rw [same]
    exact written_of_readInstruction (some_eq success)
  · rename_i after undeclared uninstructed same
    rw [same]
    refine written_of_readTag (fun c head => ?_) (some_eq success)
    obtain ⟨more, rfl⟩ := List.head?_eq_some_iff.mp head
    exact ⟨fun mark => undeclared more (mark ▸ rfl), fun mark => uninstructed more (mark ▸ rfl)⟩
  · rename_i c after unopened same
    simp only [Except.ok.injEq, Option.some.injEq, Prod.mk.injEq] at success
    obtain ⟨rfl, rfl⟩ := success
    rw [same]
    refine written_of_text ?_ fun mark => unopened (mark ▸ rfl)
    have kind := List.head?_dropWhile_not isSpace text
    rwa [same] at kind

/-- Reading a token leaves less of the document. -/
theorem Token.length_lt_of_next? {text rest : Text} {token : Token}
    (success : Token.next? text = .ok (some (token, rest))) : rest.length < text.length := by
  obtain ⟨front, written, rfl, writes⟩ := written_of_next? success
  have := List.length_pos_iff.mpr writes.ne_nil
  simp only [List.length_append]
  omega

/-! ## Reading to the end -/

namespace Reading

variable {size : Nat} {reading : Reading} {text rest : Text} {token : Token}

/-- Reads what is left of a document of `size` bytes to its end. -/
def readRest (size : Nat) (reading : Reading) (text : Text) : Except Error Element :=
  readWithin size (text.length + 1) reading text

/-- A bound above the length of the text is not reached. -/
theorem readWithin_eq_readRest {fuel : Nat} (enough : text.length < fuel) :
    readWithin size fuel reading text = readRest size reading text := by
  induction fuel using Nat.strong_induction_on generalizing reading text with
  | _ fuel ih =>
    obtain ⟨fuel, rfl⟩ := Nat.exists_eq_succ_of_ne_zero (Nat.ne_of_gt (Nat.zero_lt_of_lt enough))
    rw [readRest, readWithin, readWithin]
    rcases next : Token.next? text with ⟨fault, rest⟩ | - | ⟨token, rest⟩
    · rfl
    · rfl
    · have shorter := Token.length_lt_of_next? next
      simp only
      cases reading.step size rest token with
      | error fault => rfl
      | ok reading =>
        exact (ih fuel (Nat.lt_succ_self fuel) (by omega)).trans (ih _ enough shorter).symm

/-- At the end of the document the root is given, if there is one. -/
theorem readRest_of_end (ends : Token.next? text = .ok none) :
    readRest size reading text = reading.finish := by
  rw [readRest, readWithin, ends]

/-- Reading goes on after each token that is taken in. -/
theorem readRest_of_token (next : Token.next? text = .ok (some (token, rest))) :
    readRest size reading text =
      reading.step size rest token >>= fun reading => readRest size reading rest := by
  rw [readRest, readWithin, next]
  simp only
  cases reading.step size rest token with
  | error fault => rfl
  | ok reading => exact readWithin_eq_readRest (Token.length_lt_of_next? next)

/-- Texts with the same next token are read alike. -/
theorem readRest_congr {text text' : Text} (same : Token.next? text = Token.next? text') :
    readRest size reading text = readRest size reading text' := by
  rw [readRest, readRest, readWithin, readWithin, same]
  rcases next : Token.next? text' with ⟨fault, rest⟩ | - | ⟨token, rest⟩
  · rfl
  · rfl
  · simp only
    cases reading.step size rest token with
    | error fault => rfl
    | ok reading =>
      exact (readWithin_eq_readRest (Token.length_lt_of_next? (same.trans next))).trans
        (readWithin_eq_readRest (Token.length_lt_of_next? next)).symm

/-- A document that is read ends where it may, or goes on with a token that is taken in. -/
theorem readRest_eq_ok {root : Element} (success : readRest size reading text = .ok root) :
    reading.finish = .ok root ∨ ∃ token rest next, Token.next? text = .ok (some (token, rest)) ∧
      reading.step size rest token = .ok next ∧ readRest size next rest = .ok root := by
  rcases ends : Token.next? text with ⟨fault, rest⟩ | - | ⟨token, rest⟩
  · simp [readRest, readWithin, ends] at success
  · rw [readRest_of_end ends] at success
    exact .inl success
  · rw [readRest_of_token ends] at success
    cases taken : reading.step size rest token with
    | error fault => simp [taken, bind, Except.bind] at success
    | ok next =>
      rw [taken] at success
      exact .inr ⟨token, rest, next, rfl, taken, success⟩

/-- What every token preserves that is taken in holds where the document ends. -/
theorem finish_of_readRest {invariant : Reading → Prop} {root : Element}
    (holds : invariant reading)
    (preserved : ∀ {reading next : Reading} {text rest : Text} {token : Token},
      Token.next? text = .ok (some (token, rest)) → reading.step size rest token = .ok next →
      invariant reading → invariant next)
    (success : readRest size reading text = .ok root) :
    ∃ last : Reading, invariant last ∧ last.finish = .ok root := by
  induction length : text.length using Nat.strong_induction_on generalizing reading text with
  | _ length ih =>
    rcases readRest_eq_ok success with ends | ⟨token, rest, next, found, taken, further⟩
    · exact ⟨reading, holds, ends⟩
    · exact ih rest.length (length ▸ Token.length_lt_of_next? found)
        (preserved found taken holds) further rfl

/-- What holds where the document ends, and of what comes before each token that is taken in if of
what comes after it, holds from the start. -/
theorem holds_of_readRest {property : Reading → Prop} {root : Element}
    (ends : ∀ {last : Reading}, last.finish = .ok root → property last)
    (reflected : ∀ {reading next : Reading} {rest : Text} {token : Token},
      reading.step size rest token = .ok next → property next → property reading)
    (success : readRest size reading text = .ok root) : property reading := by
  induction length : text.length using Nat.strong_induction_on generalizing reading text with
  | _ length ih =>
    rcases readRest_eq_ok success with finished | ⟨token, rest, next, found, taken, further⟩
    · exact ends finished
    · exact reflected taken
        (ih rest.length (length ▸ Token.length_lt_of_next? found) further rfl)

end Reading

end AccessRules.Markup
