import AccessRules.Proofs.Rule.Storage
import AccessRules.Proofs.Rule.Twins

/-!
# Dividing a text at its keywords

An abridged text is split into segments at its keywords, and each segment abridges one part of the
full text. Twins are divided into the same parts, so how an abridged text is read depends on the
full text only: twins have the same shape.
-/
namespace AccessRules

open AccessRules.Bracket

/-- If no group is left of a balanced text, no bracket is. -/
theorem Abridges.free_of_parted {names : Text → Text → Prop} {full short : Text}
    (abridges : Abridges names full short) (parted : Parted short) (balanced : Balanced full) :
    ∀ c ∈ short, isBracket c = false :=
  parted.free_of_balanced (abridges.balanced_iff.mp balanced)

/-- What stands between boundaries is part of the text. -/
theorem Junction.Separates.infix_of_mem {junction : Junction} {text part : Text}
    {parts : List Text} (separates : junction.Separates text parts) (mem : part ∈ parts) :
    part <:+: text := by
  induction separates with
  | last text =>
    obtain rfl := List.mem_singleton.mp mem
    exact List.infix_rfl
  | cons boundary further ih =>
    rcases List.mem_cons.mp mem with rfl | later
    · rw [List.append_assoc]
      exact (List.prefix_append _ _).isInfix
    · exact (ih later).trans (List.suffix_append _ _).isInfix

/-- What holds of each part and stays true where texts are joined at a boundary holds of the whole
text. -/
theorem Junction.Separates.whole_of_parts {junction : Junction} {text : Text} {parts : List Text}
    {holds : Text → Prop} (separates : junction.Separates text parts)
    (join : ∀ {front lead word trail back : Text}, holds front →
      junction.IsBoundary lead word trail → holds back →
        holds (front ++ (lead ++ word ++ trail) ++ back))
    (each : ∀ part ∈ parts, holds part) : holds text := by
  induction separates with
  | last text => exact each text List.mem_cons_self
  | cons boundary further ih =>
    exact join (each _ List.mem_cons_self) boundary
      (ih fun part mem => each part (List.mem_cons_of_mem _ mem))

/-- The full text is divided at keywords into parts, and its abridgement at the same keywords into
segments, each of which abridges its part. -/
inductive Divides (names : Text → Text → Prop) (junction : Junction) :
    (full short : Text) → (parts segments : List Text) → Prop where
  | last {full short : Text} (abridges : Abridges names full short) :
      Divides names junction full short [full] [short]
  | cons {part segment lead word trail full short : Text} {parts segments : List Text}
      (first : Abridges names part segment) (boundary : junction.IsBoundary lead word trail)
      (further : Divides names junction full short parts segments) :
      Divides names junction (part ++ (lead ++ word ++ trail) ++ full)
        (segment ++ (lead ++ word ++ trail) ++ short) (part :: parts) (segment :: segments)

namespace Divides

variable {names others : Text → Text → Prop} {junction : Junction} {full short : Text}
  {parts segments : List Text}

/-- The whole text is abridged, not only its parts. -/
theorem abridges (divides : Divides names junction full short parts segments) :
    Abridges names full short := by
  induction divides with
  | last abridges => exact abridges
  | cons first boundary further ih => exact (first.append (.refl _ _)).append ih

/-- Each part is abridged to its segment. -/
theorem forall₂ (divides : Divides names junction full short parts segments) :
    List.Forall₂ (Abridges names) parts segments := by
  induction divides with
  | last abridges => exact .cons abridges .nil
  | cons first boundary further ih => exact .cons first ih

/-- Each segment is what is left of a part. -/
theorem exists_part {segment : Text} (divides : Divides names junction full short parts segments)
    (mem : segment ∈ segments) : ∃ part ∈ parts, Abridges names part segment := by
  induction divides with
  | last abridges =>
    obtain rfl := List.mem_singleton.mp mem
    exact ⟨_, List.mem_cons_self, abridges⟩
  | cons first boundary further ih =>
    rcases List.mem_cons.mp mem with rfl | later
    · exact ⟨_, List.mem_cons_self, first⟩
    · obtain ⟨part, inside, abridges⟩ := ih later
      exact ⟨part, List.mem_cons_of_mem _ inside, abridges⟩

/-- The text may be divided by other names if each part may be abridged by them. -/
theorem rename (divides : Divides names junction full short parts segments)
    (each : List.Forall₂ (Abridges others) parts segments) :
    Divides others junction full short parts segments := by
  induction divides with
  | last abridges =>
    cases each with
    | cons first rest => exact .last first
  | cons first boundary further ih =>
    cases each with
    | cons renamed rest => exact .cons renamed boundary (ih rest)

/-- The parts with the boundaries between them are the full text. -/
theorem separates (divides : Divides names junction full short parts segments) :
    junction.Separates full parts := by
  induction divides with
  | last abridges => exact .last _
  | cons first boundary further ih => exact .cons boundary ih

/-- If no bracket is left, each part is balanced. -/
theorem balanced (divides : Divides names junction full short parts segments)
    (free : ∀ c ∈ short, isBracket c = false) : ∀ part ∈ parts, Balanced part := by
  induction divides with
  | last abridges =>
    simpa using abridges.balanced_iff.mpr (balanced_of_free free)
  | cons first boundary further ih =>
    intro part mem
    rcases List.mem_cons.mp mem with rfl | later
    · exact first.balanced_iff.mpr (balanced_of_free fun c inside => free c (by simp [inside]))
    · exact ih (fun c inside => free c (by simp [inside])) part later

end Divides

/-! ## Clean texts -/

/-- A clean text is known from its abridgement if each name stands for one group. -/
theorem Abridges.eq_of_clean {names : Text → Text → Prop} {full other short : Text}
    (functional : ∀ digits body group, names digits body → names digits group → body = group)
    (abridges : Abridges names full short) (clean : IsClean full)
    (second : Abridges names other short) (clean_other : IsClean other) : full = other := by
  induction abridges generalizing other with
  | nil => exact (second.eq_of_unmarked List.not_mem_nil).symm
  | @char c full short further ih =>
    have rest : IsClean full := clean.part ⟨[c], [], by simp⟩
    generalize same : c :: short = text at second
    cases second with
    | nil => contradiction
    | @char d other text later =>
      obtain ⟨rfl, rfl⟩ := List.cons.inj same
      rw [ih rest later (clean_other.part ⟨[c], [], by simp⟩)]
    | @group digits body other text number group named later =>
      have whole := Abridges.char c further
      rw [same] at whole
      obtain ⟨again, last, split, named_again, remains⟩ := whole.split_marker clean.isIntact
        number.1 fun e mem => Text.isDecimalDigit_of_isDigit (number.2 e mem)
      obtain rfl := functional digits body again named named_again
      -- The full text starts with a group, which no other character than its bracket starts.
      obtain ⟨inner, rfl, -⟩ := group
      exact absurd ((List.cons.inj split).1 ▸ (List.cons.inj same).1) (by decide)
  | @group digits body full short number group named further ih =>
    obtain ⟨again, last, rfl, named_again, remains⟩ := second.split_marker clean_other.isIntact
      number.1 fun e mem => Text.isDecimalDigit_of_isDigit (number.2 e mem)
    obtain rfl := functional digits body again named named_again
    rw [ih (clean.part ⟨body, [], by simp⟩) remains (clean_other.part ⟨body, [], by simp⟩)]

/-- A clean text is divided into the same parts each time. -/
theorem Divides.parts_unique {names : Text → Text → Prop} {junction : Junction}
    {full short : Text} {parts others segments : List Text}
    (functional : ∀ digits body group, names digits body → names digits group → body = group)
    (clean : IsClean full) (first : Divides names junction full short parts segments)
    (second : Divides names junction full short others segments) : parts = others := by
  have same : ∀ {parts others segments : List Text}, (∀ part ∈ parts, IsClean part) →
      (∀ part ∈ others, IsClean part) → List.Forall₂ (Abridges names) parts segments →
      List.Forall₂ (Abridges names) others segments → parts = others := by
    intro parts others segments cleans clean_others left
    induction left generalizing others with
    | nil =>
      intro right
      cases right with
      | nil => rfl
    | cons abridges further ih =>
      intro right
      cases right with
      | cons again later =>
        rw [abridges.eq_of_clean functional (cleans _ (by simp)) again (clean_others _ (by simp)),
          ih (fun part mem => cleans part (by simp [mem]))
            (fun part mem => clean_others part (by simp [mem])) later]
  exact same (fun part mem => clean.part (first.separates.infix_of_mem mem))
    (fun part mem => clean.part (second.separates.infix_of_mem mem)) first.forall₂ second.forall₂

/-! ## Texts that are not split -/

namespace Junction

variable {junction : Junction} {text : Text}

/-- A text is split nowhere exactly if no boundary begins in it. -/
theorem split?_eq_none_iff :
    junction.split? text = none ↔
      ∀ front back, text = front ++ back → junction.afterBoundary? back = none := by
  rw [split?, Option.map_eq_none_iff, Text.search_eq_none_iff]
  constructor
  · intro refused front back same
    cases back with
    | nil => rfl
    | cons c back => exact refused front _ same (by simp)
  · exact fun refused front back same filled => refused front back same

/-- Where a boundary begins, one begins whatever follows. -/
theorem afterBoundary?_ne_none_append (rest : Text) (some : junction.afterBoundary? text ≠ none) :
    junction.afterBoundary? (text ++ rest) ≠ none := by
  obtain ⟨after, found⟩ := Option.ne_none_iff_exists'.mp some
  obtain ⟨c, word, trail, boundary, rfl⟩ := afterBoundary?_eq_some found
  have whole : c :: word ++ trail ++ after ++ rest = c :: (word ++ trail ++ (after ++ rest)) := by
    simp
  rw [whole, boundary.afterBoundary?]
  simp

/-- No part of a text that is split nowhere is split. -/
theorem split?_eq_none_of_part {part : Text} (none : junction.split? text = .none)
    (inside : part <:+: text) : junction.split? part = .none := by
  obtain ⟨before, after, rfl⟩ := inside
  rw [split?_eq_none_iff] at none ⊢
  rintro front back rfl
  by_contra some
  exact afterBoundary?_ne_none_append after some
    (none (before ++ front) (back ++ after) (by simp))

/-- A text is split nowhere exactly if no boundary is part of it. -/
theorem split?_eq_none_iff_boundary :
    junction.split? text = none ↔
      ∀ c word trail, junction.IsBoundary [c] word trail → ¬c :: (word ++ trail) <:+: text := by
  rw [split?_eq_none_iff]
  constructor
  · rintro refused c word trail boundary ⟨front, back, rfl⟩
    have found := boundary.afterBoundary? back
    rw [refused front _ (by simp)] at found
    contradiction
  · rintro absent front back rfl
    by_contra some
    obtain ⟨after, found⟩ := Option.ne_none_iff_exists'.mp some
    obtain ⟨c, word, trail, boundary, rfl⟩ := afterBoundary?_eq_some found
    exact absent c word trail boundary ⟨front, after, by simp⟩

/-- A character that is no letter, bracket or blank is in no boundary, so a text is split on one
side of it or nowhere. -/
theorem split?_append_cons {front back : Text} {c : Char} (letter : c.isAlpha = false)
    (bracket : isBracket c = false) (solid : Text.isBlank c = false)
    (left : junction.split? front = none) (right : junction.split? back = none) :
    junction.split? (front ++ c :: back) = none := by
  rw [split?_eq_none_iff_boundary] at left right ⊢
  intro d word trail boundary inside
  have lacks : c ∉ d :: (word ++ trail) := by
    intro mem
    rcases List.mem_cons.mp mem with rfl | mem
    · rcases leads_iff.mp (boundary.leading c List.mem_cons_self) with rfl | blank
      · exact absurd bracket (by decide)
      · rw [solid] at blank
        contradiction
    · rcases List.mem_append.mp mem with word | trail
      · rw [isAlpha_of_mem boundary.written c word] at letter
        contradiction
      · rcases trails_iff.mp (boundary.trailing c trail) with rfl | blank
        · exact absurd bracket (by decide)
        · rw [solid] at blank
          contradiction
  rcases infix_append_cons lacks inside with earlier | later
  · exact left d word trail boundary earlier
  · exact right d word trail boundary later

/-- A text that is split nowhere is its only segment. -/
theorem segments_of_unsplit (none : junction.split? text = .none) :
    junction.segments text = [text] := by
  unfold segments
  cases text with
  | nil => rfl
  | cons c text => simp [segmentsWithin, none]

/-- No segment is split again. -/
theorem split?_of_mem_segments {text segment : Text} (mem : segment ∈ junction.segments text) :
    junction.split? segment = none := by
  cases found : junction.split? text with
  | none =>
    rw [segments_of_unsplit found, List.mem_singleton] at mem
    rwa [mem]
  | some answer =>
    obtain ⟨before, after⟩ := answer
    have shorter := length_of_split? found
    rw [segments_of_split? found] at mem
    rcases List.mem_cons.mp mem with rfl | later
    · -- A boundary in the first segment would have been found before.
      obtain ⟨⟨front, rest⟩, success, same⟩ := Option.map_eq_some_iff.mp found
      obtain ⟨rfl, rfl⟩ := Prod.mk.inj same
      obtain ⟨more, split, -⟩ := Text.exists_eq_dropEndWhile leads front
      obtain ⟨back, rfl, -⟩ := Text.search_eq_some success
      rw [split?_eq_none_iff]
      intro left right same
      by_contra some
      have filled : right ≠ [] := fun empty => some (by rw [empty]; rfl)
      have whole : front = left ++ (right ++ more) := by rw [← List.append_assoc, ← same, ← split]
      have refused := Text.refused_of_search success whole (by simp [filled])
      rw [List.append_assoc] at refused
      exact afterBoundary?_ne_none_append _ some refused
    · exact split?_of_mem_segments later
termination_by text.length

/-- No segment of an operand is blank. -/
theorem IsOperand.trim_ne_nil {text segment : Text} (operand : IsOperand text)
    (mem : segment ∈ junction.segments text) : segment.trim ≠ [] := by
  cases found : junction.split? text with
  | none =>
    rw [segments_of_unsplit found, List.mem_singleton] at mem
    rw [mem, operand.trimmed.trim_self]
    exact operand.filled
  | some answer =>
    obtain ⟨before, after⟩ := answer
    have shorter := length_of_split? found
    obtain ⟨filled, further⟩ := operand.of_split? found
    rw [segments_of_split? found] at mem
    rcases List.mem_cons.mp mem with rfl | later
    · exact filled
    · exact further.trim_ne_nil later
termination_by text.length

/-- A junction has operands exactly if the text is split. -/
theorem operands?_eq_none_iff :
    junction.operands? text = none ↔ junction.split? text = none := by
  cases found : junction.split? text with
  | none => simp [operands?, segments_of_unsplit found]
  | some answer =>
    obtain ⟨before, after⟩ := answer
    have more : junction.segments after ≠ [] := by
      unfold segments
      cases after.length with
      | zero => simp [segmentsWithin]
      | succ fuel =>
        rw [segmentsWithin]
        split <;> simp
    rw [operands?, segments_of_split? found]
    cases rest : junction.segments after with
    | nil => contradiction
    | cons segment segments => simp

/-- The operands of a text that is split are its segments. -/
theorem operands?_of_split (some : junction.split? text ≠ none) :
    junction.operands? text = .some (junction.segments text) := by
  have joined := mt operands?_eq_none_iff.mp some
  unfold operands? at joined ⊢
  split
  · rename_i alone
    simp [alone] at joined
  · rfl

end Junction

/-- Twins are divided into the same parts. -/
theorem Twins.divides {names others : Text → Text → Prop} {full left right : Text}
    (twins : Twins names others full left right) (junction : Junction) :
    ∃ parts, Divides names junction full left parts (junction.segments left) ∧
      Divides others junction full right parts (junction.segments right) := by
  cases found : junction.split? left with
  | none =>
    have absent := twins.split?_eq_none found
    rw [Junction.segments_of_unsplit found, Junction.segments_of_unsplit absent]
    exact ⟨[full], .last twins.abridges, .last twins.symm.abridges⟩
  | some answer =>
    obtain ⟨before, after⟩ := answer
    have shorter := Junction.length_of_split? found
    obtain ⟨lead, word, trail, part, later, front, back, boundary, rfl, rfl, rfl, again, first,
      last⟩ := twins.split? found
    obtain ⟨parts, divides, divides_other⟩ := last.divides junction
    rw [Junction.segments_of_split? found, Junction.segments_of_split? again]
    exact ⟨part :: parts, .cons first.abridges boundary divides,
      .cons first.symm.abridges boundary divides_other⟩
termination_by left.length

/-- An abridged text is divided as its full text is. -/
theorem Abridges.divides {names : Text → Text → Prop} {full short : Text}
    (abridges : Abridges names full short) (junction : Junction) :
    ∃ parts, Divides names junction full short parts (junction.segments short) := by
  obtain ⟨parts, divides, -⟩ := (Twins.of_self abridges).divides junction
  exact ⟨parts, divides⟩

/-! ## Keywords at an edge -/

namespace Junction

variable {junction : Junction}

/-- A text starts with a keyword if the keyword is written at its beginning and no word goes on
after it. -/
theorem starts_iff {text : Text} :
    junction.starts text = true ↔
      ∃ word rest, text = word ++ rest ∧ word.lower = junction.keyword ∧
        ∀ c ∈ rest.head?, Text.isWordCharacter c = false := by
  have ends : ∀ rest : Text, endsWord rest = true ↔
      ∀ c ∈ rest.head?, Text.isWordCharacter c = false := fun rest => by
    rw [endsWord]
    cases rest.head? <;> simp
  rw [starts, Option.any_eq_true]
  constructor
  · rintro ⟨rest, found, first⟩
    obtain ⟨word, same, written⟩ := Text.afterWord?_eq_some_iff.mp found
    exact ⟨word, rest, same, written, (ends rest).mp first⟩
  · rintro ⟨word, rest, same, written, first⟩
    exact ⟨rest, Text.afterWord?_eq_some_iff.mpr ⟨word, same, written⟩, (ends rest).mpr first⟩

/-- A text finishes with a keyword if the keyword is written at its end and no word goes on
before it. -/
theorem finishes_iff {text : Text} :
    junction.finishes text = true ↔
      ∃ front word, text = front ++ word ∧ word.lower = junction.keyword ∧
        ∀ c ∈ front.getLast?, Text.isWordCharacter c = false := by
  have ends : ∀ front : Text, endsWord front.reverse = true ↔
      ∀ c ∈ front.getLast?, Text.isWordCharacter c = false := fun front => by
    rw [endsWord, List.head?_reverse]
    cases front.getLast? <;> simp
  constructor
  · intro finishes
    obtain ⟨rest, found, last⟩ := (Option.any_eq_true _ _).mp finishes
    obtain ⟨written, turned, lower⟩ := Text.afterWord?_eq_some_iff.mp found
    refine ⟨rest.reverse, written.reverse, ?_, ?_, (ends _).mp (by rwa [List.reverse_reverse])⟩
    · rw [← List.reverse_append, ← turned, List.reverse_reverse]
    · rw [Text.lower, List.map_reverse, ← Text.lower, lower, List.reverse_reverse]
  · rintro ⟨front, word, rfl, written, last⟩
    refine (Option.any_eq_true _ _).mpr ⟨front.reverse, ?_, (ends front).mpr last⟩
    refine Text.afterWord?_eq_some_iff.mpr ⟨word.reverse, List.reverse_append, ?_⟩
    rw [Text.lower, List.map_reverse, ← Text.lower, written]

/-- A keyword dangles in a trimmed text exactly if the text starts or finishes with one. -/
theorem dangling?_eq_none_iff {text : Text} (trimmed : text.IsTrimmed) :
    dangling? text = none ↔
      ∀ junction : Junction, junction.starts text = false ∧ junction.finishes text = false := by
  refine ⟨fun none junction => ?_, dangling?_eq_none trimmed⟩
  simp only [dangling?, trimmed.trim_self, Option.or_eq_none_iff, List.find?_eq_none,
    List.forall_mem_cons, Bool.not_eq_true, List.not_mem_nil, false_implies, implies_true,
    and_true] at none
  obtain ⟨⟨starts_or, starts_and⟩, finishes_or, finishes_and⟩ := none
  cases junction with
  | or => exact ⟨starts_or, finishes_or⟩
  | and => exact ⟨starts_and, finishes_and⟩

/-- Keywords hold no at signs. -/
theorem unmarked_keyword (junction : Junction) : '@' ∉ junction.keyword := by
  cases junction <;> decide

end Junction

namespace Twins

variable {names others : Text → Text → Prop} {full left right : Text} {junction : Junction}

/-- One starts with a keyword if the other does. -/
theorem starts (twins : Twins names others full left right)
    (starts : junction.starts left = true) : junction.starts right = true := by
  obtain ⟨rest, found, ends⟩ := (Option.any_eq_true _ _).mp starts
  obtain ⟨written, later, back, -, -, -, -, again, further⟩ :=
    twins.afterWord? junction.unmarked_keyword found
  refine (Option.any_eq_true _ _).mpr ⟨back, again, ?_⟩
  rwa [Junction.endsWord, ← further.head?_eq]

/-- One finishes with a keyword if the other does. -/
theorem finishes (twins : Twins names others full left right)
    (finishes : junction.finishes left = true) : junction.finishes right = true := by
  obtain ⟨front, word, rfl, written, last⟩ := Junction.finishes_iff.mp finishes
  obtain ⟨earlier, before, rfl, rfl, first⟩ :=
    twins.split_back fun c mem => isMark_of_isAlpha (Junction.isAlpha_of_mem written c mem)
  exact Junction.finishes_iff.mpr ⟨before, word, rfl, written, first.getLast?_eq ▸ last⟩

/-- A keyword dangles in neither or in both. -/
theorem dangling?_eq_none (twins : Twins names others full left right) (trimmed : full.IsTrimmed)
    (none : Junction.dangling? left = .none) : Junction.dangling? right = .none := by
  rw [Junction.dangling?_eq_none_iff (twins.abridges.isTrimmed trimmed)] at none
  rw [Junction.dangling?_eq_none_iff (twins.symm.abridges.isTrimmed trimmed)]
  intro junction
  constructor
  · by_contra starts
    have back := twins.symm.starts (by simpa using starts)
    rw [(none junction).1] at back
    contradiction
  · by_contra finishes
    have back := twins.symm.finishes (by simpa using finishes)
    rw [(none junction).2] at back
    contradiction

end Twins

/-! ## Shapes -/

namespace Shape

variable {rule operand : Text} {junction : Junction} {segments : List Text}

/-- A rule is joined by a junction if it is split at its keyword and not at one that is looked for
before. -/
theorem of_eq_joined_iff :
    Shape.of rule = .joined junction segments ↔
      junction.split? rule ≠ none ∧ (junction = .and → Junction.or.split? rule = none) ∧
        segments = junction.segments rule := by
  have unjoined : Junction.or.split? rule = none → Junction.and.split? rule = none →
      Shape.of rule ≠ .joined junction segments := by
    intro first second
    rw [Shape.of, Junction.operands?_eq_none_iff.mpr first,
      Junction.operands?_eq_none_iff.mpr second]
    dsimp only
    split
    · simp
    · split
      · simp
      · split <;> simp
  by_cases first : Junction.or.split? rule = none
  · by_cases second : Junction.and.split? rule = none
    · refine ⟨fun joined => absurd joined (unjoined first second), fun split => ?_⟩
      cases junction with
      | or => exact absurd first split.1
      | and => exact absurd second split.1
    · rw [Shape.of, Junction.operands?_eq_none_iff.mpr first, Junction.operands?_of_split second]
      constructor
      · intro same
        obtain ⟨rfl, rfl⟩ := Shape.joined.inj same
        exact ⟨second, fun _ => first, rfl⟩
      · rintro ⟨split, -, rfl⟩
        cases junction with
        | or => exact absurd first split
        | and => rfl
  · rw [Shape.of, Junction.operands?_of_split first]
    constructor
    · intro same
      obtain ⟨rfl, rfl⟩ := Shape.joined.inj same
      exact ⟨first, fun other => by contradiction, rfl⟩
    · rintro ⟨split, unsplit, rfl⟩
      cases junction with
      | or => rfl
      | and => exact absurd (unsplit rfl) first

/-- A rule is a negation if it is split nowhere, no keyword dangles in it and it begins with the
word for negation. -/
theorem of_eq_negation_iff :
    Shape.of rule = .negation operand ↔
      (∀ junction : Junction, junction.split? rule = none) ∧ Junction.dangling? rule = none ∧
        Text.afterWord? "not ".toList rule = some operand := by
  constructor
  · intro shape
    unfold Shape.of at shape
    repeat' split at shape
    all_goals try contradiction
    rename_i _ first _ second _ edges _ _ found
    obtain rfl := Shape.negation.inj shape
    refine ⟨fun junction => ?_, edges, found⟩
    cases junction with
    | or => exact Junction.operands?_eq_none_iff.mp first
    | and => exact Junction.operands?_eq_none_iff.mp second
  · rintro ⟨unsplit, edges, found⟩
    have first := Junction.operands?_eq_none_iff.mpr (unsplit .or)
    have second := Junction.operands?_eq_none_iff.mpr (unsplit .and)
    simp only [Shape.of, first, second, edges, found]

/-- A rule is an atom if it is split nowhere, no keyword dangles in it and it neither begins with
the word for negation nor is that word. -/
theorem of_eq_atom_iff :
    Shape.of rule = .atom ↔
      (∀ junction : Junction, junction.split? rule = none) ∧ Junction.dangling? rule = none ∧
        Text.afterWord? "not ".toList rule = none ∧
        Text.sameWord rule "not".toList = false := by
  constructor
  · intro shape
    unfold Shape.of at shape
    repeat' split at shape
    all_goals try contradiction
    rename_i _ first _ second _ edges _ affirms other
    refine ⟨fun junction => ?_, edges, affirms, by simpa using other⟩
    cases junction with
    | or => exact Junction.operands?_eq_none_iff.mp first
    | and => exact Junction.operands?_eq_none_iff.mp second
  · rintro ⟨unsplit, edges, affirms, other⟩
    have first := Junction.operands?_eq_none_iff.mpr (unsplit .or)
    have second := Junction.operands?_eq_none_iff.mpr (unsplit .and)
    simp only [Shape.of, first, second, edges, affirms, other, Bool.false_eq_true, ↓reduceIte]

/-- A negation without operand is the word for negation. -/
theorem lower_of_bareNegation (shape : Shape.of rule = .bareNegation) :
    Text.lower rule = "not".toList := by
  unfold Shape.of at shape
  repeat' split at shape
  all_goals try contradiction
  rename_i same
  rwa [Text.sameWord, beq_iff_eq] at same

/-- A marker is an atom. -/
theorem of_marker {digits : Text} (number : Marker.IsNumber digits) :
    Shape.of (Marker.ofDigits digits) = .atom := by
  have unsplit : ∀ junction : Junction, junction.operands? (Marker.ofDigits digits) = none := by
    intro junction
    have passed := junction.search_marker number []
    rw [List.append_nil] at passed
    rw [Junction.operands?_eq_none_iff, Junction.split?, passed]
    rfl
  have trimmed : Text.IsTrimmed (Marker.ofDigits digits) :=
    Text.isTrimmed_of_solid fun _ => Marker.isBlank_of_mem number
  have edges := Junction.dangling?_eq_none trimmed fun junction =>
    junction.undangling_marker digits
  have affirms : Text.afterWord? "not ".toList (Marker.ofDigits digits) = none := by
    simp [Text.afterWord?, Marker.ofDigits]
  have filled : Text.sameWord (Marker.ofDigits digits) "not".toList = false := by
    simp [Text.sameWord, Text.lower, Marker.ofDigits]
  simp only [Shape.of, unsplit, edges, affirms, filled, Bool.false_eq_true, ↓reduceIte]

end Shape

namespace Twins

variable {names others : Text → Text → Prop} {full left right : Text}

/-- Twins are joined by the same junction. -/
theorem shape_joined {junction : Junction} {segments : List Text}
    (twins : Twins names others full left right)
    (shape : Shape.of left = .joined junction segments) :
    Shape.of right = .joined junction (junction.segments right) := by
  rw [Shape.of_eq_joined_iff] at shape ⊢
  obtain ⟨split, first, -⟩ := shape
  refine ⟨fun none => split (twins.symm.split?_eq_none none), fun and => ?_, rfl⟩
  exact twins.split?_eq_none (first and)

/-- Twins negate the same operand. -/
theorem shape_negation {operand : Text} (twins : Twins names others full left right)
    (trimmed : full.IsTrimmed) (shape : Shape.of left = .negation operand) :
    ∃ word whole back, full = word ++ whole ∧ left = word ++ operand ∧ right = word ++ back ∧
      Shape.of right = .negation back ∧ Twins names others whole operand back := by
  obtain ⟨unsplit, edges, found⟩ := Shape.of_eq_negation_iff.mp shape
  obtain ⟨word, whole, back, rfl, rfl, rfl, -, again, further⟩ :=
    twins.afterWord? (by decide) found
  refine ⟨word, whole, back, rfl, rfl, rfl, Shape.of_eq_negation_iff.mpr ⟨fun junction => ?_,
    twins.dangling?_eq_none trimmed edges, again⟩, further⟩
  exact twins.split?_eq_none (unsplit junction)

end Twins

end AccessRules
