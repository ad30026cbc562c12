import AccessRules.Address.Read
import AccessRules.Address.Render
import AccessRules.Text.Blank
import AccessRules.Text.Quoted

/-!
# Networks

A network is an address with the number of leading bits that count. A client is inside if it has
those bits; a mapped client counts as the address of version four that it stands for. A network is
written as its address, a slash and that number; for version four the number may be given as a
mask, whose leading bits are ones and the others zeros.
-/
namespace AccessRules

/-- An address with the number of its leading bits that count. -/
structure Network where
  /-- An address inside. -/
  address : Address
  /-- How many leading bits count. -/
  prefixLength : Nat
  /-- No more bits count than there are. -/
  fits : prefixLength ≤ address.width
deriving DecidableEq

/-- Why text is no network. -/
inductive NetworkFault where
  /-- The text before the slash is no address. -/
  | invalidAddress (written : Text)
  /-- The text after the slash is neither a number nor a mask for the address. -/
  | invalidMask (written : Text)
  /-- The mask has a zero before a one. -/
  | gappedMask (mask : BitVec 32)
  /-- More bits are asked for than the address has. -/
  | tooLong (prefixLength : Nat) (address : Address)
deriving DecidableEq

/-- The message of text that is no network. -/
def NetworkFault.message : NetworkFault → String
  | invalidAddress written => "invalid IP address " ++ String.ofList written.quoted
  | invalidMask written => "invalid network mask " ++ String.ofList written.quoted
  | gappedMask mask =>
    "netmask " ++ String.ofList (Address.renderV4 mask) ++ " is not contiguous"
  | tooLong prefixLength address =>
    s!"prefix /{prefixLength} is too long for " ++ String.ofList address.render

namespace Network

/-- The network of an address with a number of leading bits, if the address has as many. -/
def ofPrefix? (address : Address) (prefixLength : Nat) : Option Network :=
  if fits : prefixLength ≤ address.width then some ⟨address, prefixLength, fits⟩ else none

/-- The word with its bits moved towards the leading one, if by fewer places than it has bits. -/
def shiftLeft? {width : Nat} (word : BitVec width) (places : Nat) : Option (BitVec width) :=
  if places < width then some (word <<< places) else none

/-- Nothing is left of a word that is moved by as many places as it has bits, or by more. -/
theorem getD_shiftLeft? {width : Nat} (word : BitVec width) (places : Nat) :
    (shiftLeft? word places).getD 0 = word <<< places := by
  unfold shiftLeft?
  split
  · rfl
  · rename_i all
    exact (BitVec.shiftLeft_eq_zero (Nat.not_lt.mp all)).symm

/-- The word whose leading bits are ones and the others zeros. -/
def mask (width prefixLength : Nat) : BitVec width :=
  (shiftLeft? (BitVec.allOnes width) (width - prefixLength)).getD 0

/-- The network contains the client. -/
def contains (network : Network) (client : Address) : Bool :=
  match network.address, client.unmapped with
  | .v4 inside, .v4 bits =>
    inside &&& mask 32 network.prefixLength == bits &&& mask 32 network.prefixLength
  | .v6 inside, .v6 bits =>
    inside &&& mask 128 network.prefixLength == bits &&& mask 128 network.prefixLength
  | _, _ => false

/-- How many ones lead the word: the place of the first zero, if it has one. -/
def leadingOnes {width : Nat} (word : BitVec width) : Nat :=
  (List.range width).findIdx fun place => !word.getMsbD place

/-- The number of leading ones of a mask without gaps: nothing is left when they are moved out. -/
def prefixOfMask? (bits : BitVec 32) : Option Nat :=
  let ones := leadingOnes bits
  if (shiftLeft? bits ones).getD 0 = 0 then some ones else none

/-- A number below 256, with at most one plus sign. -/
def readByte? (text : Text) : Option Nat :=
  let digits := (Text.after? ['+'] text).getD text
  let value := Text.ofDigits digits
  if digits = [] ∨ !digits.all Char.isDigit ∨ 255 < value then none else some value

/-- The number of leading bits that the text after the slash asks for. -/
def readMask (address : Address) (written : Text) : Except NetworkFault Nat :=
  match readByte? written with
  | some prefixLength => .ok prefixLength
  | none =>
    match address, Address.ofV4? written with
    | .v4 _, some bits =>
      match prefixOfMask? bits with
      | some prefixLength => .ok prefixLength
      | none => .error (.gappedMask bits)
    | _, _ => .error (.invalidMask written)

/-- Reads a network. Without a slash all bits of the address count. -/
def read (text : Text) : Except NetworkFault Network :=
  let (written, mask?) : Text × Option Text :=
    match Text.splitAt? ['/'] text with
    | some (address, mask) => (address.trim, some mask.trim)
    | none => (text.trim, none)
  match Address.read? written with
  | none => .error (.invalidAddress written)
  | some address => do
    let prefixLength ←
      match mask? with
      | none => .ok address.width
      | some mask => readMask address mask
    match ofPrefix? address prefixLength with
    | some network => return network
    | none => .error (.tooLong prefixLength address)

/-- The written form with the number of leading bits. -/
def renderFull (network : Network) : Text :=
  network.address.render ++ '/' :: Text.decimal network.prefixLength

/-- The written form; the number is left out where all bits count. -/
def render (network : Network) : Text :=
  if network.prefixLength = network.address.width then network.address.render
  else network.renderFull

end Network

end AccessRules
