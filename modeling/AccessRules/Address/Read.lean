import AccessRules.Address.Basic

/-!
# Reading addresses

Version four is four octets of up to three digits without leading zeros. Version six is eight
groups of up to four hexadecimal digits; two colons stand for one zero group or more, once, and
the last two groups may be written as an address of version four.
-/
namespace AccessRules.Address

/-- Reads an octet from the front of the text. -/
def readOctet (text : Text) : Option (Nat × Text) :=
  let digits := text.takeWhile Char.isDigit
  let value := Text.ofDigits digits
  if digits = [] ∨ 3 < digits.length ∨ (digits.head? = some '0' ∧ 1 < digits.length) ∨
      255 < value then none
  else some (value, text.dropWhile Char.isDigit)

/-- Reads octets from the front of the text, each but the first after a point. -/
def readOctets : (count : Nat) → (isFirst : Bool) → Text → Option (List Nat × Text)
  | 0, _, text => some ([], text)
  | count + 1, isFirst, text => do
    let text ← if isFirst then some text else Text.after? ['.'] text
    let (octet, rest) ← readOctet text
    let (others, rest) ← readOctets count false rest
    return (octet :: others, rest)

/-- Reads an address of version four from the front of the text. -/
def readV4 (text : Text) : Option (BitVec 32 × Text) :=
  (readOctets 4 true text).map fun (octets, rest) => (.ofNat 32 (ofParts 8 octets), rest)

/-- Reads a group from the front of the text. -/
def readGroup (text : Text) : Option (Nat × Text) :=
  let isHex := fun c => (Text.digitValue? 16 c).isSome
  let digits := text.takeWhile isHex
  if digits = [] ∨ 4 < digits.length then none
  else
    let value := (digits.filterMap (Text.digitValue? 16)).foldl (fun n digit => 16 * n + digit) 0
    some (value, text.dropWhile isHex)

/-- Reads groups from the front of the text, at most `room` of them and as many as there are, each
but the first after a colon. An address of version four fills two groups and ends the reading, as
the answer says. -/
def readGroups : (room : Nat) → (isFirst : Bool) → Text → List Nat × Bool × Text
  | 0, _, text => ([], false, text)
  | room + 1, isFirst, text =>
    match if isFirst then some text else Text.after? [':'] text with
    | none => ([], false, text)
    | some body =>
      match if room = 0 then none else readV4 body with
      | some (bits, rest) => (parts 16 2 bits.toNat, true, rest)
      | none =>
        match readGroup body with
        | none => ([], false, text)
        | some (group, rest) =>
          let (others, dotted, rest) := readGroups room false rest
          (group :: others, dotted, rest)

/-- Reads an address of version six from the front of the text. -/
def readV6 (text : Text) : Option (BitVec 128 × Text) :=
  let (front, dotted, rest) := readGroups 8 true text
  if front.length = 8 then some (.ofNat 128 (ofParts 16 front), rest)
  else if dotted then none
  else do
    let rest ← Text.after? [':', ':'] rest
    let (back, _, rest) := readGroups (7 - front.length) true rest
    let zeros := List.replicate (8 - front.length - back.length) 0
    return (.ofNat 128 (ofParts 16 (front ++ zeros ++ back)), rest)

/-- Reads an address of version four that is the whole text. -/
def ofV4? (text : Text) : Option (BitVec 32) :=
  match readV4 text with
  | some (bits, []) => some bits
  | _ => none

/-- Reads an address of version six that is the whole text. -/
def ofV6? (text : Text) : Option (BitVec 128) :=
  match readV6 text with
  | some (bits, []) => some bits
  | _ => none

/-- Reads an address. -/
def read? (text : Text) : Option Address :=
  match ofV4? text with
  | some bits => some (.v4 bits)
  | none => (ofV6? text).map .v6

end AccessRules.Address
