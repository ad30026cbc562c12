import AccessRules.Proofs.Grammar.Shape
import AccessRules.Proofs.Rule.SingleTokens

/-!
# Tokens alone and negated

A token by itself is read as its leaf, and behind the word for negation as the leaf negated. Every
keyword has an `o` or an `n`, so a trimmed text without these letters, and without the characters
that mean something in a rule, is a token.
-/
namespace AccessRules

open AccessRules.Bracket

/-! ## Texts without the letters of keywords -/

/-- The character means nothing in a rule, and it is none of the two letters of which every keyword
has one. -/
def IsOrdinary (c : Char) : Prop := c ∉ "()@\t\n\r".toList ∧ c.toLower ∉ "on".toList

/-- It can be decided whether a character is ordinary. -/
instance : DecidablePred IsOrdinary := fun _ => inferInstanceAs (Decidable (_ ∧ _))

namespace IsOrdinary

variable {text : Text}

/-- Ordinary characters do not spell a word that has one of the two letters. -/
theorem lower_ne (ordinary : ∀ c ∈ text, IsOrdinary c) {keyword : Text}
    (needs : 'o' ∈ keyword ∨ 'n' ∈ keyword) : text.lower ≠ keyword := by
  rintro rfl
  rcases needs with mem | mem
  · obtain ⟨c, inside, lowered⟩ := List.mem_map.mp mem
    exact (ordinary c inside).2 (by simp [lowered])
  · obtain ⟨c, inside, lowered⟩ := List.mem_map.mp mem
    exact (ordinary c inside).2 (by simp [lowered])

/-- Ordinary characters do not spell the keyword of a junction. -/
theorem lower_ne_keyword (ordinary : ∀ c ∈ text, IsOrdinary c) (junction : Junction) :
    text.lower ≠ junction.keyword :=
  lower_ne ordinary (by cases junction <;> decide)

/-- A trimmed text of ordinary characters is a token. -/
theorem isToken (filled : text ≠ []) (trimmed : text.IsTrimmed)
    (ordinary : ∀ c ∈ text, IsOrdinary c) : Expression.IsToken text where
  filled := filled
  trimmed := trimmed.trim_self
  plain c mem := by
    have other := (ordinary c mem).1
    refine ⟨?_, ?_, ?_, ?_, ?_⟩ <;>
    · rintro rfl
      exact other (by decide)
  unmarked := by
    apply Unmarked.find?_eq_none
    intro digits _ _ inside
    have marked : '@' ∈ text := inside.subset (by simp [Marker.ofDigits])
    exact (ordinary '@' marked).1 (by decide)
  unjoined part among :=
    lower_ne_keyword fun c mem => ordinary c (Text.mem_of_mem_words among c mem)
  affirmative part first := lower_ne
    (fun c mem => ordinary c (Text.mem_of_mem_words (List.mem_of_mem_head? first) c mem))
    (.inr (by decide))
  undangling junction := by
    constructor
    · refine Bool.eq_false_iff.mpr fun starts => ?_
      obtain ⟨word, rest, rfl, written, -⟩ := Junction.starts_iff.mp starts
      exact lower_ne_keyword (fun c mem => ordinary c (by simp [mem])) junction written
    · refine Bool.eq_false_iff.mpr fun finishes => ?_
      obtain ⟨front, word, rfl, written, -⟩ := Junction.finishes_iff.mp finishes
      exact lower_ne_keyword (fun c mem => ordinary c (by simp [mem])) junction written

end IsOrdinary

/-! ## Reading tokens -/

namespace Reader

open Expression

variable {Leaf : Type} {reader : Reader Leaf} {token : Text}

/-- A token by itself is read by the readers of tokens. -/
theorem read_of_isToken (valid : IsToken token)
    (long : token.byteLength ≤ reader.limits.maxLength) :
    reader.read token = reader.readToken token := by
  have free : ∀ c ∈ token, isBracket c = false := fun c mem => valid.isBracket c mem
  have plain : ∀ c ∈ token, IsPlain c := fun c mem => (valid.plain c mem).2.2
  exact read_of_atom valid.filled valid.trimmed free plain valid.unmarked
    (Remains.shape_token valid) long

/-- A negated token is read by the readers of tokens, and negated, if one level may be nested. -/
theorem read_of_negated_isToken (valid : IsToken token) (deep : 0 < reader.limits.maxDepth)
    (long : Text.byteLength ("not ".toList ++ token) ≤ reader.limits.maxLength) :
    reader.read ("not ".toList ++ token) =
      reader.readToken token >>= fun condition => .ok (.not condition) := by
  have bracketless : ∀ c ∈ token, isBracket c = false := fun c mem => valid.isBracket c mem
  have renders : Renders isSpace (.negation (.token token)) ("not ".toList ++ token) :=
    @Renders.negation isSpace (.token token) "not".toList [' '] token (by decide) (by simp)
      (List.forall_mem_singleton.mpr rfl) rfl (.token valid)
  have free : ∀ c ∈ "not ".toList ++ token, isBracket c = false := by
    intro c mem
    cases List.mem_append.mp mem with
    | inl front =>
      have word : ∀ c ∈ "not ".toList, isBracket c = false :=
        List.forall_iff_forall_mem.mp (by decide)
      exact word c front
    | inr inside => exact bracketless c inside
  have plain : ∀ c ∈ "not ".toList ++ token, IsPlain c := by
    intro c mem
    cases List.mem_append.mp mem with
    | inl front =>
      have word : ∀ c ∈ "not ".toList, IsPlain c := List.forall_iff_forall_mem.mp (by decide)
      exact word c front
    | inr inside => exact (valid.plain c inside).2.2
  have remains : Remains isSpace (fun _ _ => False) (.token token) token token := .token valid
  have shape : Shape.of ("not".toList ++ [' '] ++ token) = .negation token :=
    Remains.shape_negation separates_space (by decide) (List.forall_mem_singleton.mpr rfl) rfl
      remains
  change Shape.of ("not ".toList ++ token) = _ at shape
  have shorter : token.byteLength ≤ reader.limits.maxLength := by
    rw [Text.byteLength_append] at long
    omega
  have unmarked := unmarked_of_find? valid.unmarked
  obtain ⟨depth, same⟩ := Nat.exists_eq_add_of_le' deep
  rw [read_of_free renders.filled_and_trimmed.1 renders.filled_and_trimmed.2.trim_self free plain
    (renders.isClean separates_space).find?_eq_none long, readShape, shape]
  dsimp only
  rw [ClauseStore.expand_of_unmarked unmarked shorter, same]
  show (reader.readExpression (depth + 1) _ token >>= _) >>= _ = _
  rw [readExpression_of_free depth valid.filled valid.trimmed bracketless,
    readShape_of_atom valid.trimmed bracketless unmarked (Remains.shape_token valid) shorter]
  cases reader.readToken token <;> rfl

end Reader

end AccessRules
