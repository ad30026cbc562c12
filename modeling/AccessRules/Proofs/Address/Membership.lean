import AccessRules.Address.Network

/-!
# Clients inside networks

The mask of a network keeps the leading bits of a word, so two words agree under it exactly if they
agree in those bits. A client at a mapped address counts as the address of version four that it
stands for, the address of a network does not. So a network contains its own address unless that is
mapped, and one that fixes the bits that make its address a mapped one contains nobody.
-/
namespace AccessRules

namespace Address

/-- The address stands for one of version four. -/
def isMapped : Address → Bool
  | v4 _ => false
  | v6 bits => (mapped? bits).isSome

/-- An address that stands for no other is not replaced. -/
theorem unmapped_of_not_isMapped {address : Address} (plain : address.isMapped = false) :
    address.unmapped = address := by
  cases address with
  | v4 bits => rfl
  | v6 bits =>
    have none : mapped? bits = none := by simpa [isMapped] using plain
    rw [unmapped, none]

/-- A mapped address is replaced by one of version four. -/
theorem unmapped_of_isMapped {address : Address} (mapped : address.isMapped = true) :
    ∃ inner, address.unmapped = .v4 inner := by
  cases address with
  | v4 bits => contradiction
  | v6 bits =>
    obtain ⟨inner, found⟩ := Option.isSome_iff_exists.mp mapped
    exact ⟨inner, by rw [unmapped, found]⟩

/-- Whether an address of version six is mapped is read off its first 96 bits. -/
theorem isMapped_v6_congr {left right : BitVec 128}
    (same : ∀ i, 32 ≤ i → left.getLsbD i = right.getLsbD i) :
    (v6 left).isMapped = (v6 right).isMapped := by
  have front : left.extractLsb' 32 96 = right.extractLsb' 32 96 := by
    apply BitVec.eq_of_getLsbD_eq
    intro i bound
    rw [BitVec.getLsbD_extractLsb', BitVec.getLsbD_extractLsb', same (32 + i) (by omega)]
  show (mapped? left).isSome = (mapped? right).isSome
  unfold mapped?
  rw [front]
  split <;> rfl

end Address

namespace Network

/-- The ones of a mask are its leading bits. -/
theorem getLsbD_mask (width prefixLength i : Nat) :
    (mask width prefixLength).getLsbD i =
      (decide (i < width) && decide (width - prefixLength ≤ i)) := by
  rw [mask, getD_shiftLeft?, BitVec.getLsbD_shiftLeft, BitVec.getLsbD_allOnes]
  by_cases inside : i < width
  · by_cases low : i < width - prefixLength
    · have short : ¬width - prefixLength ≤ i := by omega
      simp [low, short]
    · have long : width - prefixLength ≤ i := by omega
      have bound : i - (width - prefixLength) < width := by omega
      simp [inside, low, long, bound]
  · simp [inside]

/-- Two words agree under a mask exactly if their leading bits are the same. -/
theorem and_mask_eq_iff {width prefixLength : Nat} {left right : BitVec width} :
    left &&& mask width prefixLength = right &&& mask width prefixLength ↔
      ∀ i, width - prefixLength ≤ i → left.getLsbD i = right.getLsbD i := by
  constructor
  · intro same i leading
    by_cases inside : i < width
    · have bit := congrArg (fun word => word.getLsbD i) same
      simp only [BitVec.getLsbD_and, getLsbD_mask, inside, leading, decide_true,
        Bool.and_true] at bit
      exact bit
    · rw [BitVec.getLsbD_of_ge _ _ (by omega), BitVec.getLsbD_of_ge _ _ (by omega)]
  · intro same
    apply BitVec.eq_of_getLsbD_eq
    intro i inside
    rw [BitVec.getLsbD_and, BitVec.getLsbD_and, getLsbD_mask]
    by_cases leading : width - prefixLength ≤ i
    · rw [same i leading]
    · simp [leading]

/-- A network contains its own address exactly if that stands for no other. -/
theorem contains_address (network : Network) :
    network.contains network.address = !network.address.isMapped := by
  obtain ⟨address, prefixLength, fits⟩ := network
  unfold contains
  cases mapped : address.isMapped with
  | false =>
    rw [Address.unmapped_of_not_isMapped mapped]
    cases address <;> simp
  | true =>
    obtain ⟨inner, stands⟩ := Address.unmapped_of_isMapped mapped
    rw [stands]
    cases address with
    | v4 bits => contradiction
    | v6 bits => rfl

/-- A network contains nobody if its address is mapped and all the bits count that make it so. -/
theorem contains_eq_false_of_isMapped {network : Network}
    (mapped : network.address.isMapped = true) (long : 96 ≤ network.prefixLength)
    (client : Address) : network.contains client = false := by
  obtain ⟨address, prefixLength, fits⟩ := network
  cases address with
  | v4 bits => contradiction
  | v6 inside =>
    cases replaced : client.unmapped with
    | v4 bits => simp only [contains, replaced]
    | v6 bits =>
      refine Bool.eq_false_iff.mpr fun contained => ?_
      have same : inside &&& mask 128 prefixLength = bits &&& mask 128 prefixLength := by
        simpa [contains, replaced] using contained
      have leading : 96 ≤ prefixLength := long
      have both : (Address.v6 bits).isMapped = true := by
        rw [← mapped]
        exact (Address.isMapped_v6_congr fun i high =>
          and_mask_eq_iff.mp same i (by omega)).symm
      -- What replaces a client is not mapped itself.
      cases known : client.isMapped with
      | false =>
        rw [Address.unmapped_of_not_isMapped known] at replaced
        rw [replaced, both] at known
        contradiction
      | true =>
        obtain ⟨inner, stands⟩ := Address.unmapped_of_isMapped known
        rw [stands] at replaced
        contradiction

end Network

end AccessRules
