import AccessRules.Text.Basic

/-!
# Blanks

Blanks are the characters of the Unicode property White_Space. Rules and tokens are trimmed of
them, and they separate operators from operands.
-/
namespace AccessRules.Text

/-- The character is white space: the ASCII controls from tab to carriage return, the space,
next line, the no-break space, and the spaces and separators of the other scripts. -/
def isBlank (c : Char) : Bool :=
  let point := c.toNat
  point == 0x20 || (0x09 ≤ point && point ≤ 0x0D) || point == 0x85 || point == 0xA0 ||
    point == 0x1680 || (0x2000 ≤ point && point ≤ 0x200A) || point == 0x2028 ||
    point == 0x2029 || point == 0x202F || point == 0x205F || point == 0x3000

/-- Every ASCII white space character is a blank. -/
theorem isBlank_of_isWhitespace {c : Char} (white : c.isWhitespace = true) :
    isBlank c = true := by
  simp only [Char.isWhitespace, Bool.or_eq_true, decide_eq_true_eq, or_assoc] at white
  rcases white with rfl | rfl | rfl | rfl <;> decide

/-- Drops leading blanks. -/
def trimStart (text : Text) : Text := text.dropWhile isBlank

/-- Drops trailing blanks. -/
def trimEnd (text : Text) : Text := text.dropEndWhile isBlank

/-- Drops blanks at both ends. -/
def trim (text : Text) : Text := text.trimStart.trimEnd

end AccessRules.Text
