/-!
# Text

Rules, tokens and markup are read as lists of characters, so every rule of reading is a recursion
on its input. Lengths and positions that a message shows count the bytes of the UTF-8 form.
Keywords ignore the case of ASCII letters and of no others.
-/
namespace AccessRules

/-- Text is its characters in order. -/
abbrev Text := List Char

namespace Text

/-- Bytes of the UTF-8 form. -/
def byteLength : Text → Nat
  | [] => 0
  | c :: text => c.utf8Size + byteLength text

/-- No characters take no bytes. -/
@[simp] theorem byteLength_nil : byteLength [] = 0 := rfl

/-- A character adds its own bytes. -/
@[simp] theorem byteLength_cons (c : Char) (text : Text) :
    byteLength (c :: text) = c.utf8Size + text.byteLength := rfl

/-- The bytes of joined texts add up. -/
@[simp] theorem byteLength_append (left right : Text) :
    byteLength (left ++ right) = left.byteLength + right.byteLength := by
  induction left with
  | nil => simp
  | cons c left ih => simp [ih, Nat.add_assoc]

/-- The decimal form of a number, without leading zeros. -/
def decimal (number : Nat) : Text := Nat.toDigits 10 number

/-- The number that a list of ASCII digits denotes. -/
def ofDigits (digits : Text) : Nat :=
  digits.foldl (fun number digit => 10 * number + (digit.toNat - '0'.toNat)) 0

/-- The value of a digit, below a radix of at most sixteen. -/
def digitValue? (radix : Nat) (c : Char) : Option Nat :=
  let value? :=
    if c.isDigit then some (c.toNat - '0'.toNat)
    else if 'a' ≤ c ∧ c ≤ 'f' then some (c.toNat - 'a'.toNat + 10)
    else if 'A' ≤ c ∧ c ≤ 'F' then some (c.toNat - 'A'.toNat + 10)
    else none
  value?.filter (· < radix)

/-- ASCII letters in lower case, all else unchanged. -/
def lower (text : Text) : Text := text.map Char.toLower

/-- Equality that ignores the case of ASCII letters. -/
def sameWord (left right : Text) : Bool := left.lower == right.lower

/-- The text after an exact beginning. -/
def after? : (beginning text : Text) → Option Text
  | [], text => some text
  | _ :: _, [] => none
  | b :: beginning, c :: text => if b = c then after? beginning text else none

/-- The text after a beginning written in lower case, whatever the case of its letters. -/
def afterWord? : (word text : Text) → Option Text
  | [], text => some text
  | _ :: _, [] => none
  | w :: word, c :: text => if w = c.toLower then afterWord? word text else none

/-- What follows a beginning is found by taking the beginning away. -/
theorem after?_eq_some {beginning text rest : Text} :
    after? beginning text = some rest ↔ text = beginning ++ rest := by
  induction beginning generalizing text with
  | nil => simp [after?]
  | cons b beginning ih =>
    cases text with
    | nil => simp [after?]
    | cons c text =>
      by_cases same : b = c
      · simp [after?, same, ih]
      · simp [after?, same, Ne.symm same]

/-- Drops the longest ending whose characters all satisfy `p`. -/
def dropEndWhile (p : Char → Bool) (text : Text) : Text := (text.reverse.dropWhile p).reverse

/-- The text before the first place where `recognise` accepts what is left, and its answer. -/
def search {α : Type} (recognise : Text → Option α) : Text → Option (Text × α)
  | [] => none
  | c :: rest =>
    match recognise (c :: rest) with
    | some found => some ([], found)
    | none => (search recognise rest).map fun (before, found) => (c :: before, found)

/-- Text cut at places of interest: what leads, then each find with the text that follows it. -/
structure Cut (α : Type) where
  /-- The text before the first find. -/
  lead : Text
  /-- The finds in order, each with the text up to the next one. -/
  finds : List (α × Text)

/-- Cuts at most `fuel` times, at the leftmost place each time. -/
def cutWithin {α : Type} (recognise : Text → Option (α × Text)) : (fuel : Nat) → Text → Cut α
  | 0, text => ⟨text, []⟩
  | fuel + 1, text =>
    match search recognise text with
    | none => ⟨text, []⟩
    | some (lead, found, rest) =>
      let more := cutWithin recognise fuel rest
      ⟨lead, (found, more.lead) :: more.finds⟩

/-- Cuts at every place that `recognise` accepts, from left to right and without overlap. A find
takes at least one character, so the length of the text bounds the number of finds. -/
def cut {α : Type} (recognise : Text → Option (α × Text)) (text : Text) : Cut α :=
  cutWithin recognise text.length text

/-- The text before and after the first occurrence of `separator`. -/
def splitAt? (separator text : Text) : Option (Text × Text) := search (after? separator) text

end Text

end AccessRules
