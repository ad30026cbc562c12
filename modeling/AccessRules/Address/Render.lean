import AccessRules.Address.Basic

/-!
# Written addresses

Version four is written as four decimal octets. Version six is written as groups of hexadecimal
digits; the first of the longest runs of two or more zero groups is left out, and a mapped address
ends in the octets of the address it stands for.
-/
namespace AccessRules.Address

/-- Octets with points between them. -/
def renderV4 (bits : BitVec 32) : Text := ['.'].intercalate ((octets bits).map Text.decimal)

/-- Groups with colons between them. -/
def renderGroups (groups : List Nat) : Text := [':'].intercalate (groups.map (Nat.toDigits 16))

/-- The place and the length of the first longest run of zeros. -/
def longestZeros : List Nat → Nat × Nat
  | [] => (0, 0)
  | group :: rest =>
    let here := ((group :: rest).takeWhile (· == 0)).length
    let (start, length) := longestZeros rest
    if length ≤ here then (0, here) else (start + 1, length)

/-- An address of version six. -/
def renderV6 (bits : BitVec 128) : Text :=
  match mapped? bits with
  | some inner => "::ffff:".toList ++ renderV4 inner
  | none =>
    let groups := groups bits
    let (start, length) := longestZeros groups
    if 2 ≤ length then
      renderGroups (groups.take start) ++ ':' :: ':' :: renderGroups (groups.drop (start + length))
    else renderGroups groups

/-- The written form of an address. -/
def render : Address → Text
  | v4 bits => renderV4 bits
  | v6 bits => renderV6 bits

end AccessRules.Address
