import AccessRules.Proofs.Rule.KeywordBoundary
import AccessRules.Proofs.Text.Respacing
import Mathlib.Data.List.Infix

/-!
# Shapes of respaced rules

Groups, markers and keywords are found at the same places when blanks become spaces, since a group
and a marker have fixed characters around them and any blank may stand next to a keyword. Only the
word for negation asks for a space. So a rule in which no other blank follows that word has the same
shape as before, with its parts respaced.
-/
namespace AccessRules

open AccessRules.Bracket

/-! ## Groups and markers -/

/-- No character of a marker is blank, with decimal digits of any script. -/
theorem isBlank_of_mem_ofDigits {digits : Text} {c : Char}
    (decimal : ∀ d ∈ digits, Text.isDecimalDigit d = true) (mem : c ∈ Marker.ofDigits digits) :
    Text.isBlank c = false := by
  by_contra blank
  have digitless := isDecimalDigit_of_isBlank (Bool.not_eq_false _ ▸ blank)
  simp only [Marker.ofDigits, List.cons_append, List.mem_cons, List.mem_append,
    List.not_mem_nil, or_false] at mem
  rcases mem with rfl | rfl | mem | rfl | rfl
  · exact blank (by decide)
  · exact blank (by decide)
  · rw [decimal c mem] at digitless
    contradiction
  · exact blank (by decide)
  · exact blank (by decide)

namespace IsRespacing

variable {respace : Char → Char} (respacing : IsRespacing respace)
include respacing

/-- The same group is at the front. -/
theorem group?_map (text : Text) :
    group? (text.map respace) =
      (group? text).map (Prod.map (List.map respace) (List.map respace)) := by
  have bracket (c : Char) : isBracket (respace c) = isBracket c := by
    have opens : respace c = '(' ↔ c = '(' := respacing.eq_iff (by decide)
    have closes : respace c = ')' ↔ c = ')' := respacing.eq_iff (by decide)
    simp only [isBracket, opens, closes]
  cases found : group? text with
  | some answer =>
    obtain ⟨inner, rest⟩ := answer
    obtain ⟨rfl, free⟩ := group?_eq_some_iff.mp found
    refine group?_eq_some_iff.mpr ⟨?_, ?_⟩
    · have opens : respace '(' = '(' := respacing.eq_self (by decide)
      have closes : respace ')' = ')' := respacing.eq_self (by decide)
      simp [opens, closes]
    · simpa [bracket] using free
  | none =>
    rw [Option.map_none, Option.eq_none_iff_forall_ne_some]
    rintro ⟨inside, after⟩ success
    obtain ⟨split, free⟩ := group?_eq_some_iff.mp success
    obtain ⟨front, back, rfl, split, closing⟩ := List.map_eq_append_iff.mp split
    obtain ⟨c, inner, rfl, opens, rfl⟩ := List.map_eq_cons_iff.mp split
    obtain ⟨d, rest, rfl, closes, rfl⟩ := List.map_eq_cons_iff.mp closing
    obtain rfl := (respacing.eq_iff (by decide)).mp opens
    obtain rfl := (respacing.eq_iff (by decide)).mp closes
    have known : group? ('(' :: inner ++ ')' :: rest) = some (inner, rest) :=
      group?_eq_some_iff.mpr ⟨rfl, by simpa [bracket] using free⟩
    rw [found] at known
    contradiction

/-- The same brackets around the whole are taken off. -/
theorem unwrap_map (text : Text) : unwrap (text.map respace) = (unwrap text).map respace := by
  unfold unwrap
  rw [respacing.trim_map, respacing.group?_map]
  rcases group? text.trim with - | ⟨inner, - | ⟨c, rest⟩⟩
  · rfl
  · exact respacing.trim_map inner
  · rfl

/-- A text is cut at the same groups. -/
theorem groups_map (text : Text) :
    groups (text.map respace) = (groups text).map respace (List.map respace) :=
  Text.cut_map respacing.group?_map text

/-- The same marker is at the front. -/
theorem read?_map (text : Text) :
    Marker.read? (text.map respace) =
      (Marker.read? text).map (Prod.map id (List.map respace)) := by
  cases found : Marker.read? text with
  | some answer =>
    obtain ⟨digits, rest⟩ := answer
    obtain ⟨rfl, filled, decimal⟩ := Marker.read?_eq_some_iff.mp found
    rw [List.map_append, respacing.map_of_solid fun c => isBlank_of_mem_ofDigits decimal]
    exact Marker.read?_eq_some_iff.mpr ⟨rfl, filled, decimal⟩
  | none =>
    rw [Option.map_none, Option.eq_none_iff_forall_ne_some]
    rintro ⟨digits, after⟩ success
    obtain ⟨split, filled, decimal⟩ := Marker.read?_eq_some_iff.mp success
    obtain ⟨marker, rest, rfl, written, rfl⟩ := List.map_eq_append_iff.mp split
    obtain rfl := respacing.eq_of_solid (fun c => isBlank_of_mem_ofDigits decimal) written
    rw [Marker.read?_eq_some_iff.mpr ⟨rfl, filled, decimal⟩] at found
    contradiction

/-- A text is cut at the same markers. -/
theorem markers_map (text : Text) :
    Text.cut Marker.read? (text.map respace) =
      (Text.cut Marker.read? text).map respace id :=
  Text.cut_map respacing.read?_map text

/-- The same marker is found. -/
theorem find?_map (text : Text) : Marker.find? (text.map respace) = Marker.find? text := by
  rw [Marker.find?, Marker.find?, Text.search_map respacing.read?_map, Option.map_map]
  rfl

/-! ## Keywords -/

/-- The same word is at the front. -/
theorem afterWord?_map {word : Text} (letters : ∀ w ∈ word, w.isLower = true) (text : Text) :
    Text.afterWord? word (text.map respace) =
      (Text.afterWord? word text).map (List.map respace) := by
  induction word generalizing text with
  | nil => rfl
  | cons w word ih =>
    cases text with
    | nil => rfl
    | cons c text =>
      have letter : w.isLower = true := letters w List.mem_cons_self
      have same : w = (respace c).toLower ↔ w = c.toLower := by
        rcases respacing c with kept | ⟨space, blank⟩
        · rw [kept]
        · -- Neither a space nor another blank is written for a letter.
          rw [space]
          refine iff_of_false ?_ ?_
          · rintro rfl
            exact absurd letter (by decide)
          · rintro rfl
            rw [isBlank_of_isAlpha (isAlpha_of_isLower_toLower letter)] at blank
            contradiction
      rw [List.map_cons, Text.afterWord?, Text.afterWord?]
      simp only [same]
      split
      · exact ih (fun v mem => letters v (List.mem_cons_of_mem w mem)) text
      · rfl

/-- The same texts are a word, in whatever case. -/
theorem sameWord_map {word : Text} (letters : ∀ w ∈ word.lower, w.isLower = true) (text : Text) :
    Text.sameWord (text.map respace) word = Text.sameWord text word := by
  have whole (text : Text) : Text.sameWord text word = true ↔
      Text.afterWord? word.lower text = some [] := by
    rw [Text.sameWord, beq_iff_eq, Text.afterWord?_eq_some_iff]
    simp
  rw [Bool.eq_iff_iff, whole, whole, respacing.afterWord?_map letters]
  simp

/-- The same characters lead a keyword. -/
theorem leads_map (c : Char) : Junction.leads (respace c) = Junction.leads c := by
  have closes : respace c = ')' ↔ c = ')' := respacing.eq_iff (by decide)
  simp only [Junction.leads, closes, respacing.isBlank c]

/-- The same characters trail a keyword. -/
theorem trails_map (c : Char) : Junction.trails (respace c) = Junction.trails c := by
  have opens : respace c = '(' ↔ c = '(' := respacing.eq_iff (by decide)
  simp only [Junction.trails, opens, respacing.isBlank c]

variable (junction : Junction)

/-- A keyword is found after the same character. -/
theorem afterBoundary?_map (text : Text) :
    junction.afterBoundary? (text.map respace) =
      (junction.afterBoundary? text).map (List.map respace) := by
  have letters := junction.isLower_of_mem_keyword
  cases text with
  | nil => rfl
  | cons c text =>
    rw [List.map_cons, Junction.afterBoundary?, Junction.afterBoundary?, respacing.leads_map,
      respacing.afterWord?_map letters]
    split
    · rcases Text.afterWord? junction.keyword text with - | - | ⟨d, rest⟩
      · rfl
      · rfl
      · simp only [Option.map_some, List.map_cons, respacing.trails_map]
        split
        · rw [Text.dropWhile_map respacing.trails_map]
          rfl
        · rfl
    · rfl

/-- A text is split at the same keyword. -/
theorem split?_map (text : Text) :
    junction.split? (text.map respace) =
      (junction.split? text).map (Prod.map (List.map respace) (List.map respace)) := by
  rw [Junction.split?, Junction.split?, Text.search_map (respacing.afterBoundary?_map junction)]
  cases Text.search junction.afterBoundary? text with
  | none => rfl
  | some answer =>
    simp only [Option.map_some, Prod.map, Text.dropEndWhile_map respacing.leads_map]

/-- A text has the same segments. -/
theorem segments_map (text : Text) :
    junction.segments (text.map respace) = (junction.segments text).map (List.map respace) := by
  have within : ∀ (fuel : Nat) (text : Text), junction.segmentsWithin fuel (text.map respace) =
      (junction.segmentsWithin fuel text).map (List.map respace) := by
    intro fuel
    induction fuel with
    | zero => exact fun text => rfl
    | succ fuel ih =>
      intro text
      rw [Junction.segmentsWithin, Junction.segmentsWithin, respacing.split?_map]
      rcases junction.split? text with - | ⟨before, after⟩
      · rfl
      · exact congrArg (before.map respace :: ·) (ih after)
  rw [Junction.segments, Junction.segments, List.length_map, within]

/-- A text has the same operands. -/
theorem operands?_map (text : Text) :
    junction.operands? (text.map respace) =
      (junction.operands? text).map (List.map (List.map respace)) := by
  rw [Junction.operands?, Junction.operands?, respacing.segments_map]
  rcases junction.segments text with - | ⟨first, - | ⟨second, rest⟩⟩ <;> rfl

/-- The same texts begin with what is no part of a word. -/
theorem endsWord_map (text : Text) :
    Junction.endsWord (text.map respace) = Junction.endsWord text := by
  cases text with
  | nil => rfl
  | cons c text =>
    have kept : Text.isWordCharacter (respace c) = Text.isWordCharacter c :=
      respacing.kind_eq (fun _ => isWordCharacter_of_isBlank) c
    simp only [Junction.endsWord, List.map_cons, List.head?_cons, Option.all_some, kept]

/-- The same keywords dangle. -/
theorem dangling?_map (text : Text) :
    Junction.dangling? (text.map respace) = Junction.dangling? text := by
  have ends (word : Text) (letters : ∀ w ∈ word, w.isLower = true) (text : Text) :
      (Text.afterWord? word (text.map respace)).any Junction.endsWord =
        (Text.afterWord? word text).any Junction.endsWord := by
    rw [respacing.afterWord?_map letters, Option.any_map]
    congr 1
    exact funext respacing.endsWord_map
  have starts (junction : Junction) : junction.starts (text.trim.map respace) =
      junction.starts text.trim := ends _ junction.isLower_of_mem_keyword _
  have finishes (junction : Junction) : junction.finishes (text.trim.map respace) =
      junction.finishes text.trim := by
    rw [Junction.finishes, ← List.map_reverse]
    exact ends _ (fun w mem => junction.isLower_of_mem_keyword w (List.mem_reverse.mp mem)) _
  simp only [Junction.dangling?, respacing.trim_map, starts, finishes]

end IsRespacing

/-! ## Negations -/

/-- Every blank behind the letters of the word for negation is a gap. -/
def NegatesWith (gap : Char → Bool) (text : Text) : Prop :=
  ∀ (word : Text) (c : Char), word.lower = "not".toList → Text.isBlank c = true →
    word ++ [c] <:+: text → gap c = true

/-- Checks whether every blank behind the letters of the word for negation is a gap. -/
def negatesWith (gap : Char → Bool) (text : Text) : Bool :=
  text.tails.all fun tail => ((Text.afterWord? "not".toList tail).bind List.head?).all fun c =>
    !Text.isBlank c || gap c

/-- The check finds exactly the texts in which only gaps follow the word for negation. -/
theorem negatesWith_iff {gap : Char → Bool} {text : Text} :
    negatesWith gap text = true ↔ NegatesWith gap text := by
  simp only [negatesWith, List.all_eq_true, List.mem_tails, Option.all_eq_true,
    Option.bind_eq_some_iff, Bool.or_eq_true, Bool.not_eq_true', Text.afterWord?_eq_some_iff]
  constructor
  · rintro each word c written blank ⟨front, back, split⟩
    have ends : word ++ c :: back <:+ text := ⟨front, by simpa using split⟩
    have either := each _ ends c ⟨c :: back, ⟨word, rfl, written⟩, rfl⟩
    exact either.resolve_left (by simp [blank])
  · rintro negates _ ⟨front, split⟩ c ⟨rest, ⟨word, rfl, written⟩, first⟩
    obtain ⟨back, rfl⟩ := List.head?_eq_some_iff.mp first
    cases blank : Text.isBlank c with
    | false => exact .inl rfl
    | true => exact .inr (negates word c written blank ⟨front, back, by simpa using split⟩)

/-- It can be decided whether only gaps follow the word for negation. -/
instance (gap : Char → Bool) (text : Text) : Decidable (NegatesWith gap text) :=
  decidable_of_iff _ negatesWith_iff

/-- The shape with its parts changed. -/
def Shape.map (change : Text → Text) : Shape → Shape
  | .joined junction segments => .joined junction (segments.map change)
  | .dangling junction => .dangling junction
  | .negation operand => .negation (change operand)
  | .bareNegation => .bareNegation
  | .atom => .atom

/-- The word for negation is written before a space. -/
theorem Text.afterWord?_not (text : Text) :
    afterWord? "not ".toList text = (afterWord? "not".toList text).bind (after? [' ']) := by
  cases found : afterWord? "not".toList text with
  | none =>
    rw [Option.bind_none, Option.eq_none_iff_forall_ne_some]
    intro rest success
    obtain ⟨written, rfl, lowered⟩ := afterWord?_eq_some_iff.mp success
    obtain ⟨word, rfl, negates⟩ := eq_append_space_of_lower lowered
    rw [List.append_assoc, afterWord?_eq_some_iff.mpr ⟨word, rfl, negates⟩] at found
    contradiction
  | some rest =>
    obtain ⟨word, rfl, negates⟩ := afterWord?_eq_some_iff.mp found
    ext further
    rw [Option.bind_some, after?_eq_some, afterWord?_eq_some_iff]
    constructor
    · rintro ⟨written, same, lowered⟩
      obtain ⟨other, rfl, again⟩ := eq_append_space_of_lower lowered
      have length : word.length = other.length := by
        have lengths := congrArg List.length (negates.trans again.symm)
        simpa [lower] using lengths
      rw [List.append_assoc] at same
      exact (List.append_inj same length).2
    · rintro rfl
      refine ⟨word ++ [' '], by simp, ?_⟩
      rw [lower, List.map_append]
      exact congrArg (· ++ [' ']) negates

/-- A rule in which only gaps follow the word for negation has the same shape, if a gap that
becomes a space is one. -/
theorem IsRespacing.shape_map {respace : Char → Char} (respacing : IsRespacing respace)
    {gap : Char → Bool} {rule : Text} (negates : NegatesWith gap rule)
    (spaces : ∀ c, gap c = true → c = ' ') :
    Shape.of (rule.map respace) = (Shape.of rule).map (List.map respace) := by
  have negation : Text.afterWord? "not ".toList (rule.map respace) =
      (Text.afterWord? "not ".toList rule).map (List.map respace) := by
    have letters : ∀ w ∈ "not".toList, w.isLower = true := List.all_eq_true.mp (by decide)
    rw [Text.afterWord?_not, Text.afterWord?_not, respacing.afterWord?_map letters]
    cases found : Text.afterWord? "not".toList rule with
    | none => rfl
    | some rest =>
      obtain ⟨word, rfl, written⟩ := Text.afterWord?_eq_some_iff.mp found
      cases rest with
      | nil => rfl
      | cons c rest =>
        have same : ' ' = respace c ↔ ' ' = c := by
          rcases respacing c with kept | ⟨space, blank⟩
          · rw [kept]
          · have gap := negates word c written blank ⟨[], rest, by simp⟩
            rw [space, spaces c gap]
        simp only [Option.map_some, Option.bind_some, List.map_cons, Text.after?, same]
        split <;> rfl
  rw [Shape.of, Shape.of, respacing.operands?_map]
  cases Junction.or.operands? rule with
  | some segments => rfl
  | none =>
    rw [Option.map_none, respacing.operands?_map]
    cases Junction.and.operands? rule with
    | some segments => rfl
    | none =>
      rw [Option.map_none, respacing.dangling?_map]
      cases Junction.dangling? rule with
      | some junction => rfl
      | none =>
        rw [negation]
        cases Text.afterWord? "not ".toList rule with
        | some operand => rfl
        | none =>
          dsimp only [Option.map_none]
          rw [respacing.sameWord_map (List.all_eq_true.mp (by decide))]
          split <;> rfl

end AccessRules
