import AccessRules.Text.Blank
import Mathlib.Data.List.Basic

/-!
# Written numbers

The digits of a number denote it, in decimal and in hexadecimal form. A reader that takes digits as
long as there are some finds the whole form if no digit follows it.
-/
namespace AccessRules.Text

/-! ## Runs of characters -/

/-- A run of characters of a kind is taken up to the first character of another kind. -/
theorem takeWhile_append_of_ends {p : Char → Bool} {front rest : Text}
    (kind : ∀ c ∈ front, p c = true) (ends : ∀ c ∈ rest.head?, p c = false) :
    (front ++ rest).takeWhile p = front := by
  rw [List.takeWhile_append_of_pos kind]
  cases rest with
  | nil => simp
  | cons c rest => simp [ends c (by simp)]

/-- A run of characters of a kind is dropped up to the first character of another kind. -/
theorem dropWhile_append_of_ends {p : Char → Bool} {front rest : Text}
    (kind : ∀ c ∈ front, p c = true) (ends : ∀ c ∈ rest.head?, p c = false) :
    (front ++ rest).dropWhile p = rest := by
  rw [List.dropWhile_append_of_pos kind]
  cases rest with
  | nil => rfl
  | cons c rest => simp [ends c (by simp)]

/-! ## Decimal form -/

/-- The decimal form consists of digits. -/
theorem isDigit_of_mem_decimal {number : Nat} {c : Char} (mem : c ∈ decimal number) :
    c.isDigit = true :=
  Nat.isDigit_of_mem_toDigits (by decide) (by decide) mem

/-- The code points of digits. -/
theorem toNat_of_isDigit {c : Char} (digit : c.isDigit = true) : 48 ≤ c.toNat ∧ c.toNat ≤ 57 := by
  simpa [Char.isDigit, UInt32.le_iff_toNat_le] using digit

/-- A digit is no blank. -/
theorem isBlank_of_isDigit {c : Char} (digit : c.isDigit = true) : isBlank c = false := by
  have code := toNat_of_isDigit digit
  by_contra blank
  simp only [isBlank, Bool.or_eq_true, Bool.and_eq_true, beq_iff_eq, decide_eq_true_eq,
    Bool.not_eq_false] at blank
  omega

/-- The decimal form of a number denotes it. -/
theorem ofDigits_decimal (number : Nat) : ofDigits (decimal number) = number := by
  rw [ofDigits, ← Nat.ofDigitChars_eq_foldl, decimal]
  exact Nat.ofDigitChars_toDigits (by decide) (by decide)

/-- Only the decimal form of zero starts with a zero. -/
theorem head?_decimal {number : Nat} (zero : (decimal number).head? = some '0') : number = 0 := by
  induction number using Nat.strongRecOn with
  | ind number ih =>
    rw [decimal, Nat.toDigits_eq_if (by decide)] at zero
    split at zero
    · rename_i small
      have none : ∀ digit < 10, Nat.digitChar digit = '0' → digit = 0 := by decide
      exact none number small (by simpa using zero)
    · rename_i large
      rw [List.head?_append_of_ne_nil _ Nat.toDigits_ne_nil] at zero
      have smaller := ih (number / 10) (by omega) zero
      omega

/-! ## Hexadecimal form -/

/-- A hexadecimal digit has its value. -/
theorem digitValue?_digitChar {digit : Nat} (small : digit < 16) :
    digitValue? 16 (Nat.digitChar digit) = some digit := by
  have all : ∀ digit < 16, digitValue? 16 (Nat.digitChar digit) = some digit := by decide
  exact all digit small

/-- The hexadecimal form consists of digits. -/
theorem exists_digitChar {number : Nat} {c : Char} (mem : c ∈ Nat.toDigits 16 number) :
    ∃ digit < 16, c = Nat.digitChar digit := by
  induction number using Nat.strongRecOn with
  | ind number ih =>
    rw [Nat.toDigits_eq_if (by decide)] at mem
    split at mem
    · rename_i small
      exact ⟨number, small, List.mem_singleton.mp mem⟩
    · rename_i large
      rcases List.mem_append.mp mem with earlier | last
      · exact ih (number / 16) (by omega) earlier
      · exact ⟨number % 16, Nat.mod_lt _ (by decide), List.mem_singleton.mp last⟩

/-- The hexadecimal form of a number denotes it. -/
theorem foldl_toDigits (number : Nat) :
    ((Nat.toDigits 16 number).filterMap (digitValue? 16)).foldl
      (fun value digit => 16 * value + digit) 0 = number := by
  induction number using Nat.strongRecOn with
  | ind number ih =>
    rw [Nat.toDigits_eq_if (by decide)]
    split
    · rename_i small
      simp [digitValue?_digitChar small]
    · rename_i large
      have last : digitValue? 16 (Nat.digitChar (number % 16)) = some (number % 16) :=
        digitValue?_digitChar (Nat.mod_lt _ (by decide))
      rw [List.filterMap_append, List.foldl_append, ih (number / 16) (by omega)]
      simp only [List.filterMap_cons, last, List.filterMap_nil, List.foldl_cons, List.foldl_nil]
      omega

end AccessRules.Text
