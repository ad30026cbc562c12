import AccessRules.Calendar.Date
import AccessRules.Proofs.Text.Number
import Mathlib.Algebra.Ring.Nat

/-!
# Dates read back

The written form of a date is read as the date: zeros in front do not count, and a year with a sign
may have more digits than one without.
-/
namespace AccessRules.Date

open Text

/-! ## Numbers with zeros in front -/

/-- Zeros in front do not count. -/
theorem ofDigits_replicate (count : Nat) (digits : Text) :
    ofDigits (List.replicate count '0' ++ digits) = ofDigits digits := by
  induction count with
  | zero => rfl
  | succ count ih =>
    rw [List.replicate_succ, List.cons_append]
    exact ih

/-- A padded number denotes the number. -/
theorem ofDigits_padded (width number : Nat) : ofDigits (padded width number) = number := by
  rw [padded, ofDigits_replicate, ofDigits_decimal]

/-- A padded number consists of digits. -/
theorem isDigit_of_mem_padded {width number : Nat} {c : Char} (mem : c ∈ padded width number) :
    c.isDigit = true := by
  rcases List.mem_append.mp mem with zero | digit
  · rw [(List.mem_replicate.mp zero).2]
    decide
  · exact isDigit_of_mem_decimal digit

/-- A padded number has digits. -/
theorem padded_ne_nil (width number : Nat) : padded width number ≠ [] :=
  List.append_ne_nil_of_right_ne_nil _ Nat.toDigits_ne_nil

/-- A number that fits its width has as many digits. -/
theorem length_padded {width number : Nat} (positive : 0 < width) (fits : number < 10 ^ width) :
    (padded width number).length = width := by
  have short : (decimal number).length ≤ width :=
    (Nat.length_toDigits_le_iff (by decide) positive).mpr fits
  rw [padded, List.length_append, List.length_replicate]
  omega

/-- A padded number begins with a digit. -/
theorem exists_padded (width number : Nat) :
    ∃ c digits, padded width number = c :: digits ∧ c.isDigit = true := by
  obtain ⟨c, digits, written⟩ := List.exists_cons_of_ne_nil (padded_ne_nil width number)
  exact ⟨c, digits, written, isDigit_of_mem_padded (written ▸ List.mem_cons_self)⟩

/-! ## Reading -/

/-- A padded number is read back, if it has as many digits as may be read. -/
theorem readNumber_padded {most : Option Nat} {width number : Nat} {rest : Text}
    (room : ∀ bound ∈ most, (padded width number).length ≤ bound)
    (ends : ∀ c ∈ rest.head?, c.isDigit = false) (small : number < 0x8000000000000000) :
    readNumber most (padded width number ++ rest) = .ok (number, rest) := by
  obtain ⟨c, digits, written, digit⟩ := exists_padded width number
  have kind : ∀ d ∈ padded width number, d.isDigit = true := fun d => isDigit_of_mem_padded
  have run := takeWhile_append_of_ends kind ends
  have value := ofDigits_padded width number
  have fits : ¬0x8000000000000000 ≤ number := by omega
  rw [written] at room run value ⊢
  rw [List.cons_append] at run ⊢
  rw [readNumber]
  cases most with
  | none =>
    simp only [digit, run, value, fits, Bool.not_true, Bool.false_eq_true, ↓reduceIte]
    simp
  | some bound =>
    have whole : (c :: digits).take bound = c :: digits := List.take_of_length_le (room bound rfl)
    simp only [digit, run, whole, value, fits, Bool.not_true, Bool.false_eq_true, ↓reduceIte]
    simp

/-- The first character of a number is no blank and no sign. -/
theorem start_of_padded {width number : Nat} (rest : Text) :
    ∃ c text, padded width number ++ rest = c :: text ∧ isBlank c = false ∧ c ≠ '-' ∧ c ≠ '+' := by
  obtain ⟨c, digits, written, digit⟩ := exists_padded width number
  refine ⟨c, digits ++ rest, by rw [written, List.cons_append], isBlank_of_isDigit digit, ?_, ?_⟩
  · rintro rfl
    exact absurd digit (by decide)
  · rintro rfl
    exact absurd digit (by decide)

/-- A text that begins with no blank has none to drop. -/
theorem trimStart_of_solid {c : Char} {text : Text} (solid : isBlank c = false) :
    trimStart (c :: text) = c :: text := by
  simp [trimStart, solid]

/-- A number that gives a year in range is read as that year. -/
theorem bind_in_range {first : Except DateFault (Nat × Text)} {value : Nat} {rest : Text}
    {year : Int} (sign : Nat → Int) (inRange : Int → Prop) [DecidablePred inRange]
    (found : first = .ok (value, rest)) (same : sign value = year) (inside : inRange year) :
    (do
      let (value, rest) ← first
      let (year, rest) ← (pure (sign value, rest) : Except DateFault (Int × Text))
      if inRange year then return (year, rest) else .error .outOfRange) = .ok (year, rest) := by
  subst same
  rw [found]
  exact if_pos inside

/-- A year is read back. -/
theorem readYear_renderYear {year : Int} {rest : Text} (early : -262143 ≤ year)
    (late : year ≤ 262142) (ends : ∀ c ∈ rest.head?, c.isDigit = false) :
    readYear (renderYear year ++ rest) = .ok (year, rest) := by
  let inRange : Int → Prop := fun year => -0x80000000 ≤ year ∧ year < 0x80000000
  have inside : inRange year := by constructor <;> omega
  have any : ∀ bound ∈ (none : Option Nat), (padded 4 year.natAbs).length ≤ bound := by simp
  have magnitude : year.natAbs < 0x8000000000000000 := by omega
  have signed := readNumber_padded any ends magnitude
  unfold renderYear
  split_ifs with plain before
  · have room : ∀ bound ∈ some 4, (padded 4 year.toNat).length ≤ bound := by
      rintro bound ⟨⟩
      exact Nat.le_of_eq (length_padded (by decide) (by omega))
    have small : year.toNat < 0x8000000000000000 := by omega
    have reading := readNumber_padded room ends small
    obtain ⟨c, text, written, solid, minus, plus⟩ := start_of_padded rest
    rw [written] at reading ⊢
    rw [readYear, trimStart_of_solid solid]
    split
    · rename_i same
      exact absurd (List.cons.inj same).1 minus
    · rename_i same
      exact absurd (List.cons.inj same).1 plus
    · exact bind_in_range (fun value => (value : Int)) inRange reading (by omega) inside
  · rw [List.cons_append, readYear, trimStart_of_solid (by decide)]
    exact bind_in_range (fun value => -(value : Int)) inRange signed (by omega) inside
  · rw [List.cons_append, readYear, trimStart_of_solid (by decide)]
    exact bind_in_range (fun value => (value : Int)) inRange signed (by omega) inside

/-- A month or a day is read back. -/
theorem readPart_padded {bound value : Nat} {rest : Text} (positive : 1 ≤ value)
    (fits : value ≤ bound) (small : bound < 100) (ends : ∀ c ∈ rest.head?, c.isDigit = false) :
    readPart bound (padded 2 value ++ rest) = .ok (value, rest) := by
  have room : ∀ most ∈ some 2, (padded 2 value).length ≤ most := by
    rintro most ⟨⟩
    exact Nat.le_of_eq (length_padded (by decide) (by omega))
  have reading := readNumber_padded room ends (by omega)
  obtain ⟨c, text, written, solid, -⟩ := start_of_padded rest
  rw [written] at reading ⊢
  rw [readPart, trimStart_of_solid solid, reading]
  simp only [bind, Except.bind, positive, fits, and_self, ↓reduceIte]
  rfl

/-- The months of the calendar. -/
theorem month_of_isDate {year : Int} {month day : Nat} (isDate : IsDate year month day) :
    1 ≤ month ∧ month ≤ 12 ∧ day ≤ 31 := by
  obtain ⟨-, -, positive, inside⟩ := isDate
  unfold daysInMonth at inside
  split at inside
  all_goals first | omega | (split_ifs at inside <;> omega)

/-- A date is read back from its written form. -/
theorem read_render (date : Date) : read date.render = .ok date := by
  obtain ⟨year, month, day, valid⟩ := date
  have range : -262143 ≤ year ∧ year ≤ 262142 ∧ 1 ≤ day ∧ day ≤ daysInMonth year month := valid
  obtain ⟨early, late, positive, -⟩ := range
  obtain ⟨begun, ended, short⟩ := month_of_isDate valid
  have hyphen : ∀ text : Text, ∀ c ∈ ('-' :: text).head?, c.isDigit = false := by
    intro text c head
    obtain rfl : '-' = c := by simpa using head
    decide
  have none : ∀ c ∈ ([] : Text).head?, c.isDigit = false := by simp
  have first := readYear_renderYear early late
    (hyphen (padded 2 month ++ '-' :: padded 2 day))
  have second := readPart_padded begun ended (by decide) (hyphen (padded 2 day))
  have third := readPart_padded positive short (by decide) none
  have known : ofParts? year month day = some ⟨year, month, day, valid⟩ := dif_pos valid
  rw [List.append_nil] at third
  simp only [read, render, List.append_assoc, List.cons_append, first, second, third, readHyphen,
    bind, Except.bind, known, ↓reduceIte]
  rfl

/-- A written date has digits, hyphens and the sign of its year. -/
theorem isWritten_of_mem_render {date : Date} {c : Char} (mem : c ∈ date.render) :
    c.isDigit = true ∨ c = '-' ∨ c = '+' := by
  have number : ∀ {width number : Nat}, c ∈ padded width number → c.isDigit = true :=
    isDigit_of_mem_padded
  have year : c ∈ renderYear date.year → c.isDigit = true ∨ c = '-' ∨ c = '+' := by
    intro inside
    unfold renderYear at inside
    split_ifs at inside with plain before
    · exact .inl (number inside)
    · rcases List.mem_cons.mp inside with rfl | later
      · exact .inr (.inl rfl)
      · exact .inl (number later)
    · rcases List.mem_cons.mp inside with rfl | later
      · exact .inr (.inr rfl)
      · exact .inl (number later)
  simp only [render, List.mem_append, List.mem_cons] at mem
  rcases mem with (inside | rfl | inside) | rfl | inside
  · exact year inside
  · exact .inr (.inl rfl)
  · exact .inl (number inside)
  · exact .inr (.inl rfl)
  · exact .inl (number inside)

/-- A written date has no blanks. -/
theorem isBlank_of_mem_render {date : Date} {c : Char} (mem : c ∈ date.render) :
    isBlank c = false := by
  rcases isWritten_of_mem_render mem with digit | rfl | rfl
  · exact isBlank_of_isDigit digit
  · decide
  · decide

/-- A date begins with a digit or the sign of its year. -/
theorem head?_render_ne_quote (date : Date) : date.render.head? ≠ some '"' := by
  have number : ∀ {width number : Nat} {rest : Text},
      (padded width number ++ rest).head? ≠ some '"' := by
    intro width number rest quote
    obtain ⟨c, digits, written, digit⟩ := exists_padded width number
    rw [written] at quote
    obtain rfl := Option.some.inj quote
    exact absurd digit (by decide)
  rw [render, List.append_assoc, renderYear]
  split_ifs
  · exact number
  · exact fun quote => absurd (Option.some.inj quote) (by decide)
  · exact fun quote => absurd (Option.some.inj quote) (by decide)

end AccessRules.Date
