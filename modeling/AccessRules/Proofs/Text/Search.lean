import AccessRules.Text.Blank
import Mathlib.Data.List.Basic
import Mathlib.Data.List.TakeWhile

/-!
# Searching, cutting and trimming

Searches and cuts go through a text character by character, so what they find is stated as a
recursion on the text: at each place either the recogniser refuses and one character is passed
over, or it accepts and the text goes on after the find. The bound on the number of cuts is never
reached by a recogniser that takes at least one character.
-/
namespace AccessRules.Text

variable {α : Type}

/-! ## Places in a text -/

/-- A character of joined texts lies in the left one or in the right one. -/
theorem append_eq_append_cons {left right before after : Text} {c : Char}
    (same : left ++ right = before ++ c :: after) :
    (∃ between, left = before ++ c :: between ∧ after = between ++ right) ∨
      ∃ between, before = left ++ between ∧ right = between ++ c :: after := by
  rcases List.append_eq_append_iff.mp same with ⟨between, rfl, rfl⟩ | ⟨between, rfl, rest⟩
  · exact .inr ⟨between, rfl, rfl⟩
  · cases between with
    | nil => exact .inr ⟨[], by simp, by simpa using rest.symm⟩
    | cons d between =>
      simp only [List.cons_append, List.cons.injEq] at rest
      exact .inl ⟨between, by rw [rest.1], rest.2⟩

/-! ## Searching -/

/-- A search that succeeds stops at a place that the recogniser accepts. -/
theorem search_eq_some {recognise : Text → Option α} {text before : Text} {found : α}
    (success : search recognise text = some (before, found)) :
    ∃ rest, text = before ++ rest ∧ recognise rest = some found := by
  induction text generalizing before with
  | nil => simp [search] at success
  | cons c text ih =>
    unfold search at success
    split at success
    · rename_i accepted
      simp only [Option.some.injEq, Prod.mk.injEq] at success
      exact ⟨c :: text, by simp [← success.1], by rw [accepted, success.2]⟩
    · obtain ⟨⟨front, here⟩, further, same⟩ := Option.map_eq_some_iff.mp success
      simp only [Prod.mk.injEq] at same
      obtain ⟨rfl, rfl⟩ := same
      obtain ⟨rest, rfl, accepted⟩ := ih further
      exact ⟨rest, rfl, accepted⟩

/-- A search that succeeds has passed over refused places only. -/
theorem refused_of_search {recognise : Text → Option α} {before rest : Text} {found : α}
    (success : search recognise (before ++ rest) = some (before, found)) {front back : Text}
    (split : before = front ++ back) (filled : back ≠ []) : recognise (back ++ rest) = none := by
  induction before generalizing front with
  | nil => exact absurd (List.append_eq_nil_iff.mp split.symm).2 filled
  | cons c before ih =>
    rw [List.cons_append, search] at success
    cases here : recognise (c :: (before ++ rest)) with
    | some answer => simp [here] at success
    | none =>
      rw [here] at success
      obtain ⟨⟨passed, answer⟩, further, same⟩ := Option.map_eq_some_iff.mp success
      simp only [Prod.mk.injEq, List.cons.injEq, true_and] at same
      obtain ⟨rfl, rfl⟩ := same
      cases front with
      | nil =>
        obtain rfl : c :: passed = back := split
        exact here
      | cons d front => exact ih further (List.cons.inj split).2

/-- A search fails exactly where no place is accepted. -/
theorem search_eq_none_iff {recognise : Text → Option α} {text : Text} :
    search recognise text = none ↔
      ∀ front back, text = front ++ back → back ≠ [] → recognise back = none := by
  induction text with
  | nil =>
    refine ⟨fun _ front back same filled => absurd ?_ filled, fun _ => rfl⟩
    exact (List.append_eq_nil_iff.mp same.symm).2
  | cons c text ih =>
    have step : search recognise (c :: text) = none ↔
        recognise (c :: text) = none ∧ search recognise text = none := by
      rw [search]
      split <;> simp_all
    rw [step, ih]
    constructor
    · rintro ⟨here, further⟩ front back same filled
      cases front with
      | nil => rwa [← show c :: text = back from same]
      | cons d front => exact further front back (List.cons.inj same).2 filled
    · intro refused
      exact ⟨refused [] _ rfl (by simp), fun front back same filled =>
        refused (c :: front) back (by simp [same]) filled⟩

/-- A search goes on over refused places up to the first accepted one. -/
theorem search_append {recognise : Text → Option α} {before rest : Text} {found : α}
    (refused : ∀ front back, before = front ++ back → back ≠ [] → recognise (back ++ rest) = none)
    (filled : rest ≠ []) (accepted : recognise rest = some found) :
    search recognise (before ++ rest) = some (before, found) := by
  induction before with
  | nil =>
    cases rest with
    | nil => contradiction
    | cons c rest => simp [search, accepted]
  | cons c before ih =>
    have here := refused [] (c :: before) rfl (by simp)
    have further := ih fun front back same => refused (c :: front) back (by simp [same])
    rw [List.cons_append] at here ⊢
    simp [search, here, further]

/-- What stands before a separator and what follows it make up the text. -/
theorem eq_of_splitAt? {separator text before rest : Text}
    (success : splitAt? separator text = some (before, rest)) :
    text = before ++ separator ++ rest := by
  obtain ⟨found, rfl, accepted⟩ := search_eq_some success
  rw [after?_eq_some.mp accepted, List.append_assoc]

/-- A text is cut at the first occurrence of a character. -/
theorem splitAt?_single {c : Char} {front : Text} (free : c ∉ front) (back : Text) :
    splitAt? [c] (front ++ c :: back) = some (front, back) := by
  refine search_append (fun before rest same filled => ?_) (by simp) (by simp [after?])
  cases rest with
  | nil => contradiction
  | cons d rest =>
    have other : c ≠ d := fun equal => free (by simp [same, ← equal])
    simp [after?, other]

/-- A character that a text does not have does not cut it. -/
theorem splitAt?_eq_none {c : Char} {text : Text} (free : c ∉ text) : splitAt? [c] text = none := by
  refine search_eq_none_iff.mpr fun front back same filled => ?_
  cases back with
  | nil => contradiction
  | cons d back =>
    have other : c ≠ d := fun equal => free (by simp [same, ← equal])
    simp [after?, other]

/-- A separator of one character is not found before the place where the text is split. -/
theorem not_mem_of_splitAt? {c : Char} {text before rest : Text}
    (success : splitAt? [c] text = some (before, rest)) : c ∉ before := by
  intro mem
  obtain ⟨front, back, split, free⟩ := List.eq_append_cons_of_mem mem
  have whole : text = front ++ c :: (back ++ c :: rest) := by
    rw [eq_of_splitAt? success, split]
    simp
  rw [whole, splitAt?_single free] at success
  obtain ⟨rfl, -⟩ := Prod.mk.inj (Option.some.inj success)
  exact free mem

/-! ## Cutting -/

/-- A recogniser takes at least one character. -/
def Shortens (recognise : Text → Option (α × Text)) : Prop :=
  ∀ text found rest, recognise text = some (found, rest) → rest.length < text.length

/-- What a cut is: a refused place is passed over, an accepted one is a find. -/
inductive IsCut (recognise : Text → Option (α × Text)) : Text → Cut α → Prop where
  | nil : IsCut recognise [] ⟨[], []⟩
  | skip {c : Char} {text : Text} {cut : Cut α} (refused : recognise (c :: text) = none)
      (further : IsCut recognise text cut) :
      IsCut recognise (c :: text) ⟨c :: cut.lead, cut.finds⟩
  | find {text rest : Text} {found : α} {cut : Cut α}
      (accepted : recognise text = some (found, rest)) (further : IsCut recognise rest cut) :
      IsCut recognise text ⟨[], (found, cut.lead) :: cut.finds⟩

/-- Enough fuel for the length of the text makes a cut. -/
theorem isCut_cutWithin {recognise : Text → Option (α × Text)} (shortens : Shortens recognise)
    {fuel : Nat} {text : Text} (enough : text.length ≤ fuel) :
    IsCut recognise text (cutWithin recognise fuel text) := by
  induction fuel generalizing text with
  | zero =>
    obtain rfl := List.length_eq_zero_iff.mp (Nat.le_zero.mp enough)
    exact .nil
  | succ fuel ih =>
    induction text with
    | nil => exact .nil
    | cons c text inner =>
      rcases accepted : recognise (c :: text) with - | ⟨found, rest⟩
      · have rest := IsCut.skip accepted (inner (Nat.le_of_succ_le enough))
        have same : cutWithin recognise (fuel + 1) (c :: text) =
            ⟨c :: (cutWithin recognise (fuel + 1) text).lead,
              (cutWithin recognise (fuel + 1) text).finds⟩ := by
          simp only [cutWithin, search, accepted]
          cases search recognise text <;> rfl
        rwa [same]
      · have shorter := shortens _ _ _ accepted
        simp only [List.length_cons] at shorter enough
        have rest : IsCut recognise rest _ := ih (by omega)
        simpa only [cutWithin, search, accepted] using IsCut.find accepted rest

/-- Cutting makes a cut. -/
theorem isCut_cut {recognise : Text → Option (α × Text)} (shortens : Shortens recognise)
    (text : Text) : IsCut recognise text (cut recognise text) :=
  isCut_cutWithin shortens (Nat.le_refl _)

namespace IsCut

variable {recognise : Text → Option (α × Text)} {text : Text} {cut : Cut α}

/-- No place is accepted exactly if there is no find. -/
theorem finds_eq_nil_iff (cuts : IsCut recognise text cut) (blind : recognise [] = none) :
    cut.finds = [] ↔ ∀ front back, text = front ++ back → recognise back = none := by
  induction cuts with
  | nil =>
    refine ⟨fun _ front back same => ?_, fun _ => rfl⟩
    rwa [(List.append_eq_nil_iff.mp same.symm).2]
  | @skip c text cut refused further ih =>
    rw [ih]
    constructor
    · intro rest front back same
      cases front with
      | nil => rwa [← show c :: text = back from same]
      | cons d front => exact rest front back (List.cons.inj same).2
    · exact fun all front back same => all (c :: front) back (by simp [same])
  | @find text rest found cut accepted further ih =>
    refine ⟨fun none => by simp at none, fun all => ?_⟩
    have refused := all [] text rfl
    simp [refused] at accepted

/-- A cut without finds leaves the text as it is. -/
theorem lead_of_finds_eq_nil (cuts : IsCut recognise text cut) (none : cut.finds = []) :
    cut.lead = text := by
  induction cuts with
  | nil => rfl
  | skip refused further ih => rw [ih none]
  | find accepted further ih => simp at none

end IsCut

/-! ## Beginnings and ends -/

/-- What follows a word is found by taking the word away, in whatever case it is written. -/
theorem afterWord?_eq_some_iff {word text rest : Text} :
    afterWord? word text = some rest ↔
      ∃ written, text = written ++ rest ∧ written.lower = word := by
  induction word generalizing text with
  | nil => simp [afterWord?, lower, eq_comm]
  | cons w word ih =>
    cases text with
    | nil => simp [afterWord?, lower]
    | cons c text =>
      rw [afterWord?]
      split
      · rename_i same
        rw [ih]
        constructor
        · rintro ⟨written, rfl, rfl⟩
          exact ⟨c :: written, rfl, by simp [lower, same]⟩
        · rintro ⟨written, joined, lowered⟩
          cases written with
          | nil => simp [lower] at lowered
          | cons d written =>
            simp only [lower, List.map_cons, List.cons.injEq] at lowered
            exact ⟨written, (List.cons.inj joined).2, lowered.2⟩
      · rename_i different
        refine ⟨fun absurd => by simp at absurd, ?_⟩
        rintro ⟨written, joined, lowered⟩
        cases written with
        | nil => simp [lower] at lowered
        | cons d written =>
          simp only [lower, List.map_cons, List.cons.injEq] at lowered
          rw [(List.cons.inj joined).1, lowered.1] at different
          contradiction

/-- Only characters of the kind are dropped at the end. -/
theorem exists_eq_dropEndWhile (p : Char → Bool) (text : Text) :
    ∃ back, text = text.dropEndWhile p ++ back ∧ ∀ c ∈ back, p c = true := by
  refine ⟨(text.reverse.takeWhile p).reverse, ?_, fun c mem => ?_⟩
  · rw [dropEndWhile, ← List.reverse_append, List.takeWhile_append_dropWhile,
      List.reverse_reverse]
  · exact List.mem_takeWhile_imp (List.mem_reverse.mp mem)

/-- Characters of the kind at the end are dropped up to the last other one. -/
theorem dropEndWhile_append {p : Char → Bool} {text back : Text}
    (kind : ∀ c ∈ back, p c = true) (last : ∀ c ∈ text.getLast?, p c = false) :
    dropEndWhile p (text ++ back) = text := by
  have dropped : (text ++ back).reverse.dropWhile p = text.reverse := by
    rw [List.reverse_append, List.dropWhile_append_of_pos (by simpa using kind)]
    cases ends : text.reverse with
    | nil => rfl
    | cons c front =>
      have final : c ∈ text.getLast? := by
        rw [← List.head?_reverse, ends]
        simp
      simp [last c final]
  rw [dropEndWhile, dropped, List.reverse_reverse]

/-- What ends in no character of the kind is kept as it is. -/
theorem dropEndWhile_eq_self {p : Char → Bool} {text : Text}
    (last : ∀ c ∈ text.getLast?, p c = false) : dropEndWhile p text = text := by
  have kept : dropEndWhile p (text ++ []) = text := dropEndWhile_append (by simp) last
  rwa [List.append_nil] at kept

/-- A text whose end was dropped does not end in a character of the kind. -/
theorem not_of_getLast?_dropEndWhile {p : Char → Bool} {text : Text} {c : Char}
    (last : c ∈ (dropEndWhile p text).getLast?) : p c = false := by
  have kind := List.head?_dropWhile_not p text.reverse
  rw [dropEndWhile, List.getLast?_reverse] at last
  rwa [Option.mem_def.mp last] at kind

/-- A text is what is left when it is trimmed, between blanks. -/
theorem exists_eq_trim (text : Text) :
    ∃ front back, text = front ++ text.trim ++ back ∧ (∀ c ∈ front, isBlank c = true) ∧
      ∀ c ∈ back, isBlank c = true := by
  obtain ⟨back, split, blank⟩ := exists_eq_dropEndWhile isBlank text.trimStart
  refine ⟨text.takeWhile isBlank, back, ?_, fun c => List.mem_takeWhile_imp, blank⟩
  rw [List.append_assoc, show text.trim ++ back = text.trimStart from split.symm, trimStart,
    List.takeWhile_append_dropWhile]

/-- A trimmed text is part of the text. -/
theorem trim_isInfix (text : Text) : text.trim <:+: text := by
  obtain ⟨front, back, split, -, -⟩ := text.exists_eq_trim
  exact ⟨front, back, split.symm⟩

/-- Trimming adds no bytes. -/
theorem byteLength_trim_le (text : Text) : text.trim.byteLength ≤ text.byteLength := by
  obtain ⟨front, back, split, -, -⟩ := text.exists_eq_trim
  have bytes := congrArg byteLength split
  simp only [byteLength_append] at bytes
  omega

/-- No blank is at an end of the text. -/
structure IsTrimmed (text : Text) : Prop where
  /-- None is the first character. -/
  first : ∀ c ∈ text.head?, isBlank c = false
  /-- None is the last character. -/
  last : ∀ c ∈ text.getLast?, isBlank c = false

/-- A text without blanks has none at its ends. -/
theorem isTrimmed_of_solid {text : Text} (solid : ∀ c ∈ text, isBlank c = false) :
    text.IsTrimmed :=
  ⟨fun c head => solid c (List.mem_of_head? head),
    fun c last => solid c (List.mem_of_getLast? last)⟩

/-- Trimming leaves no blank at an end. -/
theorem isTrimmed_trim (text : Text) : text.trim.IsTrimmed := by
  have start : ∀ c ∈ text.trimStart.head?, isBlank c = false := fun c head => by
    have kind := List.head?_dropWhile_not isBlank text
    rw [show (List.dropWhile isBlank text).head? = some c from head] at kind
    exact kind
  constructor
  · intro c head
    obtain ⟨back, split, -⟩ := exists_eq_dropEndWhile isBlank text.trimStart
    have same : (dropEndWhile isBlank text.trimStart).head? = some c := head
    apply start c
    rw [split, List.head?_append, same]
    rfl
  · exact fun c last => not_of_getLast?_dropEndWhile last

/-- Blanks around a text without blanks at its ends are trimmed, and no more. -/
theorem IsTrimmed.trim_eq {front text back : Text} (trimmed : text.IsTrimmed)
    (before : ∀ c ∈ front, isBlank c = true) (after : ∀ c ∈ back, isBlank c = true) :
    trim (front ++ text ++ back) = text := by
  rw [trim, trimStart, trimEnd, List.append_assoc, List.dropWhile_append_of_pos before]
  cases text with
  | nil => simp [List.dropWhile_eq_nil_iff.mpr after, dropEndWhile]
  | cons c text =>
    have start : isBlank c = false := trimmed.first c (by simp)
    simp only [List.cons_append, List.dropWhile_cons, start, Bool.false_eq_true, ↓reduceIte]
    exact dropEndWhile_append after trimmed.last

/-- A text without blanks at its ends is trimmed to itself. -/
theorem IsTrimmed.trim_self {text : Text} (trimmed : text.IsTrimmed) : text.trim = text := by
  have none : ∀ c ∈ ([] : Text), isBlank c = true := fun c mem => absurd mem List.not_mem_nil
  simpa using trimmed.trim_eq none none

/-- What has no blanks at its ends and is part of a text is part of the trimmed text. -/
theorem IsTrimmed.isInfix_trim {part text : Text} (trimmed : part.IsTrimmed) (filled : part ≠ [])
    (inside : part <:+: text) : part <:+: text.trim := by
  obtain ⟨front, back, split, before, after⟩ := text.exists_eq_trim
  obtain ⟨left, right, rfl⟩ := inside
  generalize Text.trim _ = middle at split ⊢
  rw [List.append_assoc, List.append_assoc] at split
  have later : ∃ left, left ++ (part ++ right) = middle ++ back := by
    rcases List.append_eq_append_iff.mp split with ⟨between, rfl, rest⟩ | ⟨between, -, rest⟩
    · cases between with
      | nil => exact ⟨[], rest⟩
      | cons c between =>
        obtain ⟨d, others, rfl⟩ := List.exists_cons_of_ne_nil filled
        obtain ⟨rfl, -⟩ := List.cons.inj rest
        have blank := before d (by simp)
        rw [trimmed.first d rfl] at blank
        contradiction
    · exact ⟨between, rest.symm⟩
  obtain ⟨left, rest⟩ := later
  rw [← List.append_assoc] at rest
  rcases List.append_eq_append_iff.mp rest with ⟨between, rfl, -⟩ | ⟨between, whole, rfl⟩
  · exact ⟨left, between, rfl⟩
  · rcases List.eq_nil_or_concat between with rfl | ⟨between, c, rfl⟩
    · rw [List.append_nil] at whole
      exact whole ▸ (List.suffix_append left part).isInfix
    · have ends : part.getLast? = some c := by
        rw [← List.getLast?_append_of_ne_nil left filled, whole]
        simp
      have blank := after c (by simp)
      rw [trimmed.last c ends] at blank
      contradiction

/-- Blanks are trimmed to nothing. -/
theorem trim_of_blank {text : Text} (blank : ∀ c ∈ text, isBlank c = true) : text.trim = [] := by
  have none : IsTrimmed [] := ⟨by simp, by simp⟩
  have ends := none.trim_eq blank (fun c mem => absurd mem List.not_mem_nil : ∀ c ∈ [], _)
  simpa using ends

/-- A text is trimmed to nothing exactly if it is blank. -/
theorem trim_eq_nil_iff {text : Text} : text.trim = [] ↔ ∀ c ∈ text, isBlank c = true := by
  refine ⟨fun none c mem => ?_, trim_of_blank⟩
  obtain ⟨front, back, split, before, after⟩ := text.exists_eq_trim
  rw [split, none, List.append_nil] at mem
  exact (List.mem_append.mp mem).elim (before c) (after c)

/-- Whatever stands between two texts, their outer ends are the ends of the whole. -/
theorem IsTrimmed.append {front back : Text} (first : front.IsTrimmed) (begun : front ≠ [])
    (last : back.IsTrimmed) (ended : back ≠ []) (between : Text) :
    (front ++ between ++ back).IsTrimmed := by
  constructor
  · intro c head
    rw [List.append_assoc, List.head?_append_of_ne_nil _ begun] at head
    exact first.first c head
  · intro c final
    rw [List.getLast?_append_of_ne_nil _ ended] at final
    exact last.last c final

/-- A text that begins and ends with characters that are no blanks has none at its ends. -/
theorem isTrimmed_between {first last : Char} (begins : isBlank first = false)
    (ends : isBlank last = false) (text : Text) : IsTrimmed (first :: text ++ [last]) := by
  have front : IsTrimmed [first] := isTrimmed_of_solid (List.forall_mem_singleton.mpr begins)
  have back : IsTrimmed [last] := isTrimmed_of_solid (List.forall_mem_singleton.mpr ends)
  exact front.append (List.cons_ne_nil _ _) back (List.cons_ne_nil _ _) text

end AccessRules.Text
