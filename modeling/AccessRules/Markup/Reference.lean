import AccessRules.Markup.Fault

/-!
# References

In texts and values an ampersand starts a reference, which ends at the next semicolon: one of the
five predefined entities, or the number of a character. Reading is one pass over the characters
that remembers, inside a reference, the characters of its name.
-/
namespace AccessRules.Markup

/-- Reads digits into a number of 32 bits, from left to right. -/
def readCode (radix : Nat) : (code : Nat) → Text → Except ReferenceFault Nat
  | code, [] => .ok code
  | code, c :: digits =>
    match Text.digitValue? radix c with
    | none => .error .invalidDigit
    | some digit =>
      let code := code * radix + digit
      if code < 2 ^ 32 then readCode radix code digits else .error .tooLarge

/-- The character with a given number. -/
def characterOf (radix : Nat) (digits : Text) : Except ReferenceFault Char :=
  match digits with
  | [] => .error .noDigits
  | c :: _ =>
    if c = '+' ∨ c = '-' then .error .sign
    else do
      let code ← readCode radix 0 digits
      if code = 0 then .error .null
      else if code.isValidChar then .ok (Char.ofNat code)
      else .error (.noCharacter code)

/-- The character that a reference stands for; `rest` is what follows its name in a text of `size`
bytes. -/
def referenced (size : Nat) (rest name : Text) : Except ReferenceFault Char :=
  match name with
  | ['l', 't'] => .ok '<'
  | ['g', 't'] => .ok '>'
  | ['a', 'm', 'p'] => .ok '&'
  | ['a', 'p', 'o', 's'] => .ok '\''
  | ['q', 'u', 'o', 't'] => .ok '"'
  | '#' :: 'x' :: digits => characterOf 16 digits
  | '#' :: digits => characterOf 10 digits
  | name =>
    let stop := size - rest.byteLength
    .error (.unknownEntity (stop - name.byteLength) stop name)

/-- The fault of a reference whose name, before `rest` in a text of `size` bytes, has no end. -/
def unterminated (size : Nat) (rest name : Text) : ReferenceFault :=
  .unterminated (size - rest.byteLength - name.byteLength - 1) size

/-- Resolves the references of what is left of a text of `size` bytes. Inside a reference the
characters of its name so far are given, the last one first. -/
def resolveRest (size : Nat) : (name? : Option Text) → Text → Except ReferenceFault Text
  | none, [] => .ok []
  | none, c :: rest =>
    if c = '&' then resolveRest size (some []) rest
    else (resolveRest size none rest).map (c :: ·)
  | some name, [] => .error (unterminated size [] name)
  | some name, c :: rest =>
    if c = ';' then do
      let first ← referenced size (c :: rest) name.reverse
      (resolveRest size none rest).map (first :: ·)
    else if c = '&' then .error (unterminated size (c :: rest) name)
    else resolveRest size (some (c :: name)) rest

/-- The text that a written text or value stands for. -/
def resolve (text : Text) : Except ReferenceFault Text := resolveRest text.byteLength none text

end AccessRules.Markup
