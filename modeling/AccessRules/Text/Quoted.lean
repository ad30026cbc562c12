import AccessRules.Text.Basic
import AccessRules.Text.Invisible

/-!
# Quoted text

Messages and diagnostic forms show text between double quotes. Quotes, backslashes, the common
controls and characters without a glyph are written by escapes, so the shown form is one line.
-/
namespace AccessRules.Text

/-- One character inside quotes. -/
def quotedChar (c : Char) : Text :=
  if c = '\x00' then ['\\', '0']
  else if c = '\t' then ['\\', 't']
  else if c = '\r' then ['\\', 'r']
  else if c = '\n' then ['\\', 'n']
  else if c = '"' || c = '\\' then ['\\', c]
  else if isInvisible c then "\\u\x7b".toList ++ Nat.toDigits 16 c.toNat ++ ['\x7d']
  else [c]

/-- Text between double quotes. -/
def quoted (text : Text) : Text := '"' :: text.flatMap quotedChar ++ ['"']

end AccessRules.Text
