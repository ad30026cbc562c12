import AccessRules.Proofs.Text.Search
import AccessRules.Text.DecimalDigit
import AccessRules.Text.WordCharacter
import Mathlib.Data.List.Forall2

/-!
# Other blanks

Some blanks of a text become spaces. What only asks whether a character is blank, and compares it
with characters that are not, goes the same way through the text and through what becomes of it:
the same places are found, and what is left there is respaced.
-/
namespace AccessRules

/-! ## Blanks in tables of characters -/

namespace Text

/-- The ranges of blanks that are not ASCII. -/
def wideBlanks : CodePoints :=
  [(0x85, 0x85), (0xA0, 0xA0), (0x1680, 0x1680), (0x2000, 0x200A), (0x2028, 0x2029),
   (0x202F, 0x202F), (0x205F, 0x205F), (0x3000, 0x3000)]

/-- A blank that is not ASCII lies in one of these ranges. -/
theorem mem_wideBlanks {c : Char} (blank : isBlank c = true) (wide : ¬c.toNat < 0x80) :
    ∃ range ∈ wideBlanks, range.1 ≤ c.toNat ∧ c.toNat ≤ range.2 := by
  simp only [isBlank, Bool.or_eq_true, Bool.and_eq_true, beq_iff_eq, decide_eq_true_eq] at blank
  simp only [wideBlanks, List.mem_cons, List.not_mem_nil, or_false, exists_eq_or_imp,
    exists_eq_left]
  omega

/-- No blank is of a kind that is given by a test for ASCII and a table for all else, if the test
fails for blanks and the ranges of the table lie apart from them. -/
theorem not_kind_of_isBlank {test : Char → Bool} {ranges : CodePoints} {c : Char}
    (small : ∀ code < 0x80, isBlank (Char.ofNat code) = true → test (Char.ofNat code) = false)
    (apart : ∀ range ∈ ranges, ∀ blanks ∈ wideBlanks, range.2 < blanks.1 ∨ blanks.2 < range.1)
    (blank : isBlank c = true) :
    (if c.toNat < 0x80 then test c else ranges.has c) = false := by
  split
  · rename_i ascii
    have fails := small c.toNat ascii
    rw [Char.ofNat_toNat] at fails
    exact fails blank
  · rename_i wide
    by_contra inside
    obtain ⟨range, mem, low, high⟩ := CodePoints.has_iff.mp (Bool.not_eq_false _ ▸ inside)
    obtain ⟨blanks, among, start, stop⟩ := mem_wideBlanks blank wide
    have far := apart range mem blanks among
    omega

end Text

/-- Blanks are no decimal digits. -/
theorem isDecimalDigit_of_isBlank {c : Char} (blank : Text.isBlank c = true) :
    Text.isDecimalDigit c = false :=
  Text.not_kind_of_isBlank (by decide +kernel) (by decide +kernel) blank

/-- Blanks are no word characters. -/
theorem isWordCharacter_of_isBlank {c : Char} (blank : Text.isBlank c = true) :
    Text.isWordCharacter c = false :=
  @Text.not_kind_of_isBlank (fun c => c.isAlphanum || c == '_') Text.wordCharacters c
    (by decide +kernel) (by decide +kernel) blank

/-! ## Characters -/

/-- Some blanks become spaces, and all else stays. -/
def IsRespacing (respace : Char → Char) : Prop :=
  ∀ c, respace c = c ∨ respace c = ' ' ∧ Text.isBlank c = true

/-- Every blank becomes a space. -/
def uniformSpace (c : Char) : Char := if Text.isBlank c then ' ' else c

/-- Making all blanks spaces is a respacing. -/
theorem isRespacing_uniformSpace : IsRespacing uniformSpace := by
  intro c
  unfold uniformSpace
  split
  · rename_i blank
    exact .inr ⟨rfl, blank⟩
  · exact .inl rfl

namespace IsRespacing

variable {respace : Char → Char} (respacing : IsRespacing respace)
include respacing

/-- Blanks stay blanks, and nothing else becomes one. -/
theorem isBlank (c : Char) : Text.isBlank (respace c) = Text.isBlank c := by
  rcases respacing c with same | ⟨space, blank⟩
  · rw [same]
  · rw [space, blank]
    decide

/-- What is not blank stays as it is. -/
theorem eq_self {c : Char} (solid : Text.isBlank c = false) : respace c = c := by
  rcases respacing c with same | ⟨-, blank⟩
  · exact same
  · rw [solid] at blank
    contradiction

/-- Only a character that is not blank becomes one that is not. -/
theorem eq_iff {c solid : Char} (other : Text.isBlank solid = false) :
    respace c = solid ↔ c = solid := by
  constructor
  · intro same
    have kept : Text.isBlank c = false := by rw [← respacing.isBlank c, same, other]
    rw [← same, respacing.eq_self kept]
  · rintro rfl
    exact respacing.eq_self other

/-- A kind of characters that has no blanks is kept. -/
theorem kind_eq {kind : Char → Bool} (solid : ∀ c, Text.isBlank c = true → kind c = false)
    (c : Char) : kind (respace c) = kind c := by
  cases blank : Text.isBlank c with
  | false => rw [respacing.eq_self blank]
  | true => rw [solid c blank, solid _ ((respacing.isBlank c).trans blank)]

/-- A character takes no more bytes than before. -/
theorem utf8Size_le (c : Char) : (respace c).utf8Size ≤ c.utf8Size := by
  rcases respacing c with same | ⟨space, -⟩
  · rw [same]
  · rw [space]
    exact c.utf8Size_pos

/-! ## Texts -/

/-- A text takes no more bytes than before. -/
theorem byteLength_le (text : Text) : Text.byteLength (text.map respace) ≤ text.byteLength := by
  induction text with
  | nil => exact Nat.le_refl 0
  | cons c text ih => exact Nat.add_le_add (respacing.utf8Size_le c) ih

/-- A text without blanks stays as it is. -/
theorem map_of_solid {text : Text} (solid : ∀ c ∈ text, Text.isBlank c = false) :
    text.map respace = text := by
  have kept : ∀ c ∈ text, respace c = id c := fun c mem => respacing.eq_self (solid c mem)
  rw [List.map_congr_left kept, List.map_id]

/-- Only a text without blanks becomes one. -/
theorem eq_of_solid {text solid : Text} (free : ∀ c ∈ solid, Text.isBlank c = false)
    (same : text.map respace = solid) : text = solid := by
  rw [← same, respacing.map_of_solid]
  intro c mem
  rw [← respacing.isBlank c]
  exact free _ (same ▸ List.mem_map_of_mem mem)

/-- A character that is not blank is in a text exactly if it is in what becomes of it. -/
theorem mem_iff {text : Text} {solid : Char} (other : Text.isBlank solid = false) :
    solid ∈ text.map respace ↔ solid ∈ text := by
  simp only [List.mem_map, respacing.eq_iff other, exists_eq_right]

/-- A text has the same characters that are not blank. -/
theorem contains_eq {solid : Char} (other : Text.isBlank solid = false) (text : Text) :
    (text.map respace).contains solid = text.contains solid := by
  rw [Bool.eq_iff_iff, List.contains_iff_mem, List.contains_iff_mem, respacing.mem_iff other]

/-- A character that is not blank is counted as before. -/
theorem count_eq {solid : Char} (other : Text.isBlank solid = false) (text : Text) :
    (text.map respace).count solid = text.count solid := by
  rw [List.count, List.countP_map]
  refine List.countP_congr fun c _ => ?_
  simp [respacing.eq_iff other]

/-- Trimming and respacing can be exchanged. -/
theorem trim_map (text : Text) : Text.trim (text.map respace) = text.trim.map respace := by
  have blank : ∀ {blanks : Text}, (∀ c ∈ blanks, Text.isBlank c = true) →
      ∀ c ∈ blanks.map respace, Text.isBlank c = true := by
    intro blanks each
    simpa [respacing.isBlank] using each
  have trimmed : Text.IsTrimmed (text.trim.map respace) := by
    constructor
    · simpa [respacing.isBlank] using text.isTrimmed_trim.first
    · simpa [respacing.isBlank] using text.isTrimmed_trim.last
  obtain ⟨front, back, split, before, after⟩ := text.exists_eq_trim
  conv_lhs => rw [split, List.map_append, List.map_append]
  exact trimmed.trim_eq (blank before) (blank after)

end IsRespacing

/-! ## Texts that differ in blanks -/

/-- Characters become the same exactly if they are, or if both are blank. -/
theorem uniformSpace_eq_iff {c d : Char} :
    uniformSpace c = uniformSpace d ↔ c = d ∨ Text.isBlank c = true ∧ Text.isBlank d = true := by
  have respacing := isRespacing_uniformSpace
  constructor
  · intro same
    have blanks : Text.isBlank c = Text.isBlank d := by
      rw [← respacing.isBlank c, same, respacing.isBlank d]
    cases blank : Text.isBlank c with
    | true => exact .inr ⟨rfl, blanks ▸ blank⟩
    | false =>
      rw [respacing.eq_self blank, respacing.eq_self (blanks ▸ blank)] at same
      exact .inl same
  · rintro (rfl | ⟨first, second⟩)
    · rfl
    · rw [uniformSpace, uniformSpace, if_pos first, if_pos second]

/-- The texts have blanks at the same places, and all else is the same. -/
def Text.SameSolids (text other : Text) : Prop :=
  List.Forall₂ (fun c d => c = d ∨ isBlank c = true ∧ isBlank d = true) text other

/-- Texts differ in their blanks only exactly if they are the same with spaces for blanks. -/
theorem Text.sameSolids_iff {text other : Text} :
    text.SameSolids other ↔ text.map uniformSpace = other.map uniformSpace := by
  rw [← List.forall₂_eq_eq_eq, List.forall₂_map_left_iff, List.forall₂_map_right_iff]
  simp only [uniformSpace_eq_iff]
  exact Iff.rfl

/-- Whether texts differ in their blanks only is decided by comparing them. -/
instance (text other : Text) : Decidable (text.SameSolids other) :=
  decidable_of_iff _ Text.sameSolids_iff.symm

/-! ## Searching and cutting -/

namespace Text

variable {α : Type} {change : Char → Char} {find : α → α}

/-- The same beginning is dropped if the change keeps the kind. -/
theorem dropWhile_map {kind : Char → Bool} (kept : ∀ c, kind (change c) = kind c) (text : Text) :
    List.dropWhile kind (text.map change) = (List.dropWhile kind text).map change := by
  rw [List.dropWhile_map, show kind ∘ change = kind from funext kept]

/-- The same ending is dropped if the change keeps the kind. -/
theorem dropEndWhile_map {kind : Char → Bool} (kept : ∀ c, kind (change c) = kind c)
    (text : Text) : dropEndWhile kind (text.map change) = (dropEndWhile kind text).map change := by
  rw [dropEndWhile, dropEndWhile, ← List.map_reverse, dropWhile_map kept, List.map_reverse]

/-- A search stops at the same place if the recogniser accepts the same texts. -/
theorem search_map {recognise : Text → Option α}
    (same : ∀ text, recognise (text.map change) = (recognise text).map find) (text : Text) :
    search recognise (text.map change) =
      (search recognise text).map (Prod.map (List.map change) find) := by
  induction text with
  | nil => rfl
  | cons c text ih =>
    have here := same (c :: text)
    rw [List.map_cons] at here ⊢
    rw [search, search, here, ih]
    cases recognise (c :: text) with
    | some found => rfl
    | none => simp [Function.comp_def]

/-- The cut after a change of its texts. -/
def Cut.map (change : Char → Char) (find : α → α) (cut : Cut α) : Cut α :=
  ⟨cut.lead.map change, cut.finds.map (Prod.map find (List.map change))⟩

/-- A change adds no finds and takes none away. -/
theorem Cut.isEmpty_map (cut : Cut α) :
    (cut.map change find).finds.isEmpty = cut.finds.isEmpty := List.isEmpty_map

/-- A text is cut at the same places if the recogniser accepts the same texts. -/
theorem cut_map {recognise : Text → Option (α × Text)}
    (same : ∀ text, recognise (text.map change) =
      (recognise text).map (Prod.map find (List.map change))) (text : Text) :
    cut recognise (text.map change) = (cut recognise text).map change find := by
  have within : ∀ (fuel : Nat) (text : Text), cutWithin recognise fuel (text.map change) =
      (cutWithin recognise fuel text).map change find := by
    intro fuel
    induction fuel with
    | zero => exact fun text => rfl
    | succ fuel ih =>
      intro text
      rw [cutWithin, cutWithin, search_map same]
      cases search recognise text with
      | none => rfl
      | some answer =>
        obtain ⟨lead, found, rest⟩ := answer
        simp [Cut.map, ih]
  rw [cut, cut, List.length_map, within]

end Text

end AccessRules
