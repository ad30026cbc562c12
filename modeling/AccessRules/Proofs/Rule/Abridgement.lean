import AccessRules.Proofs.Rule.Balance
import AccessRules.Proofs.Text.Number
import AccessRules.Rule.Marker

/-!
# Abridged texts

An abridged text has markers in the place of some bracket groups of the full text. A cut through
the full text outside its groups is a cut through the abridged one, and a cut through the abridged
text outside its markers is one through the full text, so what stands outside groups can be looked
for in either. Brackets without a partner stand outside all groups.
-/
namespace AccessRules

open AccessRules.Bracket

/-- The character may be part of a marker. -/
def Marker.isMark (c : Char) : Bool := c = '@' || c = '<' || c = '>' || c.isDigit

/-- The text is a number in decimal digits. -/
def Marker.IsNumber (digits : Text) : Prop := digits ≠ [] ∧ ∀ c ∈ digits, c.isDigit = true

/-- Markers consist of marks. -/
theorem Marker.isMark_of_mem {digits : Text} {c : Char} (number : IsNumber digits)
    (mem : c ∈ ofDigits digits) : isMark c = true := by
  simp only [ofDigits, List.cons_append, List.mem_cons, List.mem_append, List.not_mem_nil,
    or_false] at mem
  rcases mem with rfl | rfl | digit | rfl | rfl
  · rfl
  · rfl
  · simp [isMark, number.2 c digit]
  · rfl
  · rfl

/-- Brackets are no marks. -/
theorem Marker.isMark_of_isBracket {c : Char} (bracket : isBracket c = true) :
    isMark c = false := by
  rcases eq_of_isBracket bracket with rfl | rfl <;> rfl

/-- Markers hold no brackets. -/
theorem Marker.isBracket_of_mem {digits : Text} {c : Char} (number : IsNumber digits)
    (mem : c ∈ ofDigits digits) : isBracket c = false := by
  have mark := isMark_of_mem number mem
  by_cases bracket : isBracket c = true
  · rw [isMark_of_isBracket bracket] at mark
    contradiction
  · simpa using bracket

/-- A marker ends in an at sign. -/
theorem Marker.getLast?_ofDigits (digits : Text) : (ofDigits digits).getLast? = some '@' := by
  have split : ofDigits digits = ('@' :: '<' :: digits ++ ['>']) ++ ['@'] := by simp [ofDigits]
  rw [split, List.getLast?_concat]

/-- A marker is read where it is written, with decimal digits of any script. -/
theorem Marker.read?_eq_some_iff {text digits rest : Text} :
    read? text = some (digits, rest) ↔
      text = ofDigits digits ++ rest ∧ digits ≠ [] ∧
        ∀ c ∈ digits, Text.isDecimalDigit c = true := by
  constructor
  · intro found
    unfold read? at found
    split at found
    · rename_i text
      split at found
      · rename_i first more after front back
        simp only [Option.some.injEq, Prod.mk.injEq] at found
        obtain ⟨rfl, rfl⟩ := found
        refine ⟨?_, by simp, fun c mem => List.mem_takeWhile_imp (front ▸ mem)⟩
        have split : text.takeWhile Text.isDecimalDigit ++ text.dropWhile Text.isDecimalDigit =
            text := List.takeWhile_append_dropWhile
        rw [front, back] at split
        simp [ofDigits, ← split]
      · contradiction
    · contradiction
  · rintro ⟨rfl, filled, decimal⟩
    have closes : Text.isDecimalDigit '>' = false := by decide
    have front : (digits ++ '>' :: '@' :: rest).takeWhile Text.isDecimalDigit = digits := by
      simp [List.takeWhile_append_of_pos decimal, closes]
    have back : (digits ++ '>' :: '@' :: rest).dropWhile Text.isDecimalDigit =
        '>' :: '@' :: rest := by
      simp [List.dropWhile_append_of_pos decimal, closes]
    have written : ofDigits digits ++ rest = '@' :: '<' :: (digits ++ '>' :: '@' :: rest) := by
      simp [ofDigits]
    rw [written, read?, front, back]
    cases digits with
    | nil => contradiction
    | cons first digits => rfl

/-- The marker of a number is read whatever follows it. -/
theorem Marker.IsNumber.read? {digits : Text} (number : IsNumber digits) (rest : Text) :
    Marker.read? (ofDigits digits ++ rest) = some (digits, rest) :=
  read?_eq_some_iff.mpr
    ⟨rfl, number.1, fun c mem => Text.isDecimalDigit_of_isDigit (number.2 c mem)⟩

/-- Reading a marker takes at least one character. -/
theorem Marker.shortens_read? : Text.Shortens read? := by
  intro text digits rest found
  obtain ⟨rfl, -, -⟩ := read?_eq_some_iff.mp found
  simp only [ofDigits, List.length_append, List.length_cons]
  omega

/-- The marker of a stored clause is a number between marks. -/
theorem Marker.isNumber_decimal (index : Nat) : IsNumber (Text.decimal index) :=
  ⟨Nat.toDigits_ne_nil, fun _ => Text.isDigit_of_mem_decimal⟩

/-- Groups of the full text are replaced by markers whose digits name them. -/
inductive Abridges (names : Text → Text → Prop) : (full short : Text) → Prop where
  | nil : Abridges names [] []
  | char (c : Char) {full short : Text} (further : Abridges names full short) :
      Abridges names (c :: full) (c :: short)
  | group {digits body full short : Text} (number : Marker.IsNumber digits)
      (group : IsGroup body) (named : names digits body) (further : Abridges names full short) :
      Abridges names (body ++ full) (Marker.ofDigits digits ++ short)

namespace Abridges

variable {names others : Text → Text → Prop} {full short : Text}

/-- Nothing need be replaced. -/
theorem refl (names : Text → Text → Prop) (text : Text) : Abridges names text text := by
  induction text with
  | nil => exact .nil
  | cons c text ih => exact .char c ih

/-- A group is replaced by its marker. -/
theorem single {digits body : Text} (number : Marker.IsNumber digits) (group : IsGroup body)
    (named : names digits body) : Abridges names body (Marker.ofDigits digits) := by
  simpa using Abridges.group number group named .nil

/-- More names allow more markers. -/
theorem mono (abridges : Abridges names full short)
    (more : ∀ digits body, names digits body → others digits body) :
    Abridges others full short := by
  induction abridges with
  | nil => exact .nil
  | char c further ih => exact .char c ih
  | group number group named further ih => exact .group number group (more _ _ named) ih

/-- Texts are abridged part by part. -/
theorem append {later abridged : Text} (abridges : Abridges names full short)
    (rest : Abridges names later abridged) :
    Abridges names (full ++ later) (short ++ abridged) := by
  induction abridges with
  | nil => exact rest
  | char c further ih => exact .char c ih
  | group number group named further ih =>
    rw [List.append_assoc, List.append_assoc]
    exact .group number group named ih

/-! ## What both texts have in common -/

/-- Brackets without a partner are those of the full text. -/
theorem unmatched_eq (abridges : Abridges names full short) :
    unopened full = unopened short ∧ unclosed full = unclosed short := by
  induction abridges with
  | nil => exact ⟨rfl, rfl⟩
  | char c further ih => simp only [unopened, unclosed, ih, and_self]
  | @group digits body full short number group named further ih =>
    have free : Balanced (Marker.ofDigits digits) :=
      balanced_of_free fun c => Marker.isBracket_of_mem number
    rw [group.balanced.unopened_append, group.balanced.unclosed_append, free.unopened_append,
      free.unclosed_append]
    exact ih

/-- An abridged text is balanced exactly if the full one is. -/
theorem balanced_iff (abridges : Abridges names full short) : Balanced full ↔ Balanced short := by
  rw [Bracket.balanced_iff, Bracket.balanced_iff, abridges.unmatched_eq.1, abridges.unmatched_eq.2]

/-- A text that opens no bracket is abridged by itself only. -/
theorem eq_of_unbracketed (abridges : Abridges names full short) (free : '(' ∉ full) :
    short = full := by
  induction abridges with
  | nil => rfl
  | char c further ih => rw [ih fun mem => free (List.mem_cons_of_mem c mem)]
  | group number group named further ih =>
    obtain ⟨inner, rfl, -⟩ := group
    simp at free

/-- A text that closes no bracket is abridged by itself only. -/
theorem eq_of_unclosing (abridges : Abridges names full short) (free : ')' ∉ full) :
    short = full := by
  induction abridges with
  | nil => rfl
  | char c further ih => rw [ih fun mem => free (List.mem_cons_of_mem c mem)]
  | group number group named further ih =>
    obtain ⟨inner, rfl, -⟩ := group
    simp at free

/-- One character is no group. -/
theorem eq_of_char {c : Char} (abridges : Abridges names [c] short) : short = [c] := by
  by_cases opens : c = '('
  · rw [opens] at abridges ⊢
    exact abridges.eq_of_unclosing (by decide)
  · exact abridges.eq_of_unbracketed (by simpa using Ne.symm opens)

/-- A text without markers abridges itself only. -/
theorem eq_of_unmarked (abridges : Abridges names full short) (free : '@' ∉ short) :
    full = short := by
  induction abridges with
  | nil => rfl
  | char c further ih => rw [ih fun mem => free (List.mem_cons_of_mem c mem)]
  | group number group named further ih => simp [Marker.ofDigits] at free

/-- What is no mark is kept from the full text. -/
theorem mem_full {c : Char} (abridges : Abridges names full short) (mem : c ∈ short)
    (other : Marker.isMark c = false) : c ∈ full := by
  induction abridges with
  | nil => exact mem
  | char d further ih =>
    rcases List.mem_cons.mp mem with rfl | later
    · exact List.mem_cons_self
    · exact List.mem_cons_of_mem d (ih later)
  | group number group named further ih =>
    rcases List.mem_append.mp mem with inside | later
    · rw [Marker.isMark_of_mem number inside] at other
      contradiction
    · exact List.mem_append_right _ (ih later)

/-! ## Cutting both texts at one place -/

/-- A cut through the full text where no group is open cuts the abridged text. -/
theorem split_full {left right : Text} (abridges : Abridges names (left ++ right) short)
    (settled : unclosed left = 0 ∨ unopened right = 0) :
    ∃ front back, short = front ++ back ∧ Abridges names left front ∧
      Abridges names right back := by
  generalize whole : left ++ right = full at abridges
  induction abridges generalizing left with
  | nil =>
    obtain ⟨rfl, rfl⟩ := List.append_eq_nil_iff.mp whole
    exact ⟨[], [], rfl, .nil, .nil⟩
  | @char c full short further ih =>
    cases left with
    | nil =>
      obtain rfl : right = c :: full := whole
      exact ⟨[], c :: short, rfl, .nil, .char c further⟩
    | cons d left =>
      obtain ⟨rfl, rest⟩ := List.cons.inj whole
      have fewer : unclosed left ≤ unclosed (d :: left) := unclosed_le_append [d] left
      obtain ⟨front, back, rfl, first, second⟩ := ih (settled.imp (by omega) id) rest
      exact ⟨d :: front, back, rfl, .char d first, second⟩
  | @group digits body full short number group named further ih =>
    rcases List.append_eq_append_iff.mp whole with ⟨between, same, rest⟩ | ⟨between, rfl, rest⟩
    · -- The cut lies in the group, so it lies at one of its ends.
      subst same
      by_cases begun : left = []
      · subst begun
        obtain rfl : right = between ++ full := rest
        exact ⟨[], _, rfl, .nil, .group number group named further⟩
      by_cases unfinished : between = []
      · subst unfinished
        rw [List.append_nil] at group named
        rw [List.nil_append] at rest
        exact ⟨_, _, rfl, .single number group named, rest ▸ further⟩
      · obtain ⟨opens, closes⟩ := group.open_of_append begun unfinished
        rw [rest, unopened_append] at settled
        omega
    · have fewer : unclosed between ≤ unclosed (body ++ between) := unclosed_le_append _ _
      obtain ⟨front, back, rfl, first, second⟩ := ih (settled.imp (by omega) id) rest.symm
      exact ⟨_, back, (List.append_assoc _ _ _).symm, .group number group named first, second⟩

/-- A cut through the abridged text where no marker goes on cuts the full text. -/
theorem split_short {front back : Text} (abridges : Abridges names full (front ++ back))
    (settled : (∀ c ∈ front.getLast?, Marker.isMark c = false) ∨
      ∀ c ∈ back.head?, Marker.isMark c = false) :
    ∃ left right, full = left ++ right ∧ Abridges names left front ∧
      Abridges names right back := by
  generalize whole : front ++ back = short at abridges
  induction abridges generalizing front with
  | nil =>
    obtain ⟨rfl, rfl⟩ := List.append_eq_nil_iff.mp whole
    exact ⟨[], [], rfl, .nil, .nil⟩
  | @char c full short further ih =>
    cases front with
    | nil =>
      obtain rfl : back = c :: short := whole
      exact ⟨[], c :: full, rfl, .nil, .char c further⟩
    | cons d front =>
      obtain ⟨rfl, rest⟩ := List.cons.inj whole
      have kept : (∀ c ∈ front.getLast?, Marker.isMark c = false) ∨
          ∀ c ∈ back.head?, Marker.isMark c = false := by
        refine settled.imp (fun last c mem => last c ?_) id
        rw [List.getLast?_cons, Option.mem_def.mp mem]
        rfl
      obtain ⟨left, right, rfl, first, second⟩ := ih kept rest
      exact ⟨d :: left, right, rfl, .char d first, second⟩
  | @group digits body full short number group named further ih =>
    rcases List.append_eq_append_iff.mp whole with ⟨between, same, rest⟩ | ⟨between, rfl, rest⟩
    · by_cases begun : front = []
      · subst begun
        obtain rfl : back = Marker.ofDigits digits ++ short := whole
        exact ⟨[], _, rfl, .nil, .group number group named further⟩
      by_cases unfinished : between = []
      · subst unfinished
        rw [List.append_nil] at same
        rw [List.nil_append] at rest
        exact ⟨_, _, rfl, same ▸ .single number group named, rest ▸ further⟩
      · -- The cut lies in the marker, which consists of marks.
        have mark : ∀ c ∈ front ++ between, Marker.isMark c = true := by
          rw [← same]
          exact fun c => Marker.isMark_of_mem number
        rcases settled with last | first
        · have final := List.getLast_mem begun
          have unmarked := last _ (List.getLast?_eq_some_getLast begun)
          rw [mark _ (List.mem_append_left _ final)] at unmarked
          contradiction
        · cases between with
          | nil => contradiction
          | cons d between =>
            have unmarked := first d (by simp [rest])
            rw [mark d (by simp)] at unmarked
            contradiction
    · have kept : (∀ c ∈ between.getLast?, Marker.isMark c = false) ∨
          ∀ c ∈ back.head?, Marker.isMark c = false := by
        refine settled.imp (fun last c mem => last c ?_) id
        rw [List.getLast?_append, Option.mem_def.mp mem]
        rfl
      obtain ⟨left, right, rfl, first, second⟩ := ih kept rest.symm
      exact ⟨_, right, (List.append_assoc _ _ _).symm, .group number group named first, second⟩

/-- A character outside all groups is kept. -/
theorem split_full_char {left right : Text} {c : Char}
    (abridges : Abridges names (left ++ c :: right) short)
    (before : unclosed left = 0 ∨ unopened (c :: right) = 0)
    (after : unclosed [c] = 0 ∨ unopened right = 0) :
    ∃ front back, short = front ++ c :: back ∧ Abridges names left front ∧
      Abridges names right back := by
  obtain ⟨front, rest, rfl, first, further⟩ := abridges.split_full before
  rw [← List.singleton_append] at further
  obtain ⟨middle, back, rfl, single, second⟩ := further.split_full after
  obtain rfl := single.eq_of_char
  exact ⟨front, back, rfl, first, second⟩

/-- A character that is no mark stands for itself. -/
theorem split_short_char {front back : Text} {c : Char}
    (abridges : Abridges names full (front ++ c :: back)) (other : Marker.isMark c = false) :
    ∃ left right, full = left ++ c :: right ∧ Abridges names left front ∧
      Abridges names right back := by
  obtain ⟨left, rest, rfl, first, further⟩ := abridges.split_short (.inr (by simpa using other))
  rw [← List.singleton_append] at further
  obtain ⟨middle, right, rfl, single, second⟩ := further.split_short (.inl (by simpa using other))
  have unmarked : '@' ∉ [c] := fun mem => by
    rw [← List.mem_singleton.mp mem] at other
    exact absurd other (by decide)
  obtain rfl := single.eq_of_unmarked unmarked
  exact ⟨left, right, rfl, first, second⟩

/-- Brackets of the abridged text are brackets of the full one. -/
theorem split_bracketed {inner : Text} (abridges : Abridges names full ('(' :: inner ++ [')'])) :
    ∃ whole, full = '(' :: whole ++ [')'] ∧ Abridges names whole inner := by
  have opening : Abridges names full ([] ++ '(' :: (inner ++ [')'])) := abridges
  obtain ⟨left, rest, rfl, first, further⟩ := opening.split_short_char rfl
  obtain ⟨whole, right, rfl, inside, last⟩ := further.split_short_char rfl
  obtain rfl := first.eq_of_unmarked List.not_mem_nil
  obtain rfl := last.eq_of_unmarked List.not_mem_nil
  exact ⟨whole, rfl, inside⟩

/-- What is abridged to a group is a group. -/
theorem isGroup (abridges : Abridges names full short) (group : IsGroup short) :
    IsGroup full := by
  obtain ⟨inner, rfl, balanced⟩ := group
  obtain ⟨whole, rfl, inside⟩ := abridges.split_bracketed
  exact ⟨whole, rfl, inside.balanced_iff.mpr balanced⟩

end Abridges

end AccessRules
