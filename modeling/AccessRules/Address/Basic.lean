import AccessRules.Text.Basic

/-!
# Addresses

An address is a word of bits: 32 for version four of the protocol, 128 for version six. Written
forms cut it into parts of equal size, the highest first: octets or groups of sixteen bits. The
first 96 bits of a mapped address say that the last 32 are an address of version four.
-/
namespace AccessRules

/-- An address of a host. -/
inductive Address where
  /-- Version four. -/
  | v4 (bits : BitVec 32)
  /-- Version six. -/
  | v6 (bits : BitVec 128)
deriving DecidableEq

namespace Address

/-- Bits of the address. -/
def width : Address → Nat
  | v4 _ => 32
  | v6 _ => 128

/-- A number cut into `count` parts of `size` bits, the highest first. -/
def parts (size : Nat) : (count : Nat) → (number : Nat) → List Nat
  | 0, _ => []
  | count + 1, number => number >>> (size * count) % 1 <<< size :: parts size count number

/-- The number whose parts of `size` bits are given, the highest first. -/
def ofParts (size : Nat) (parts : List Nat) : Nat :=
  parts.foldl (fun number part => number <<< size + part) 0

/-- As many parts as asked for. -/
theorem length_parts (size count number : Nat) : (parts size count number).length = count := by
  induction count with
  | zero => rfl
  | succ count ih => simp [parts, ih]

/-- The four octets of an address of version four. -/
def octets (bits : BitVec 32) : List Nat := parts 8 4 bits.toNat

/-- The eight groups of an address of version six. -/
def groups (bits : BitVec 128) : List Nat := parts 16 8 bits.toNat

/-- The address of version four that a mapped address stands for. -/
def mapped? (bits : BitVec 128) : Option (BitVec 32) :=
  if bits.extractLsb' 32 96 = 0xFFFF then some (bits.extractLsb' 0 32) else none

/-- The address with a mapped one replaced by what it stands for. -/
def unmapped : Address → Address
  | v4 bits => v4 bits
  | v6 bits =>
    match mapped? bits with
    | some inner => v4 inner
    | none => v6 bits

end Address

end AccessRules
