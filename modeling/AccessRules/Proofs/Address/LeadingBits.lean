import AccessRules.Proofs.Address.Membership

/-!
# Leading bits

A network contains the clients of its version that share its leading bits, as many as count. So the
bits of its address behind these do not matter, and with more bits that count it contains fewer
clients. The places by which its mask is moved are a difference of words, and it never wraps.
-/
namespace AccessRules

namespace Address

/-- Both addresses are of one version, and the leading bits are the same, as many as given. -/
def SharesPrefix (count : Nat) : Address → Address → Prop
  | v4 left, v4 right => ∀ i < count, left.getMsbD i = right.getMsbD i
  | v6 left, v6 right => ∀ i < count, left.getMsbD i = right.getMsbD i
  | _, _ => False

/-- It can be decided whether leading bits are the same. -/
instance (count : Nat) : DecidableRel (SharesPrefix count)
  | v4 left, v4 right =>
    inferInstanceAs (Decidable (∀ i < count, left.getMsbD i = right.getMsbD i))
  | v6 left, v6 right =>
    inferInstanceAs (Decidable (∀ i < count, left.getMsbD i = right.getMsbD i))
  | v4 _, v6 _ => inferInstanceAs (Decidable False)
  | v6 _, v4 _ => inferInstanceAs (Decidable False)

namespace SharesPrefix

variable {count fewer : Nat} {left middle right : Address}

/-- Leading bits are shared by both. -/
theorem symm (shares : SharesPrefix count left right) : SharesPrefix count right left := by
  cases left <;> cases right <;> first | contradiction | exact fun i below => (shares i below).symm

/-- Leading bits that are shared one after another are shared. -/
theorem trans (first : SharesPrefix count left middle) (second : SharesPrefix count middle right) :
    SharesPrefix count left right := by
  cases left <;> cases middle <;> cases right <;>
    first | contradiction | exact fun i below => (first i below).trans (second i below)

/-- Addresses that share leading bits share fewer of them. -/
theorem weaken (shares : SharesPrefix count left right) (less : fewer ≤ count) :
    SharesPrefix fewer left right := by
  cases left <;> cases right <;>
    first | contradiction | exact fun i below => shares i (Nat.lt_of_lt_of_le below less)

/-- Addresses that share leading bits have as many bits. -/
theorem width_eq (shares : SharesPrefix count left right) : left.width = right.width := by
  cases left <;> cases right <;> first | contradiction | rfl

end SharesPrefix

end Address

namespace Network

/-! ## Masks -/

/-- The ones of a mask are as many leading bits as asked for. -/
theorem getMsbD_mask {width prefixLength : Nat} (fits : prefixLength ≤ width) (i : Nat) :
    (mask width prefixLength).getMsbD i = decide (i < prefixLength) := by
  rw [mask, getD_shiftLeft?, BitVec.getMsbD_shiftLeft, BitVec.getMsbD_allOnes, decide_eq_decide]
  omega

/-- Two words agree under a mask exactly if they begin with the same bits. -/
theorem and_mask_eq_iff_getMsbD {width prefixLength : Nat} (fits : prefixLength ≤ width)
    {left right : BitVec width} :
    left &&& mask width prefixLength = right &&& mask width prefixLength ↔
      ∀ i < prefixLength, left.getMsbD i = right.getMsbD i := by
  rw [and_mask_eq_iff]
  constructor
  · intro same i leading
    rw [BitVec.getMsbD_eq_getLsbD, BitVec.getMsbD_eq_getLsbD, same (width - 1 - i) (by omega)]
  · intro same i leading
    rw [BitVec.getLsbD_eq_getMsbD, BitVec.getLsbD_eq_getMsbD]
    by_cases inside : i < width
    · rw [same (width - 1 - i) (by omega)]
    · simp [inside]

/-- The mask as it is computed on words: the places are the difference of two words of 32 bits, of
which the second one is a byte. None if the difference wraps around. -/
def wordMask? (width : Nat) (prefixLength : BitVec 8) : Option (BitVec width) :=
  let most := BitVec.ofNat 32 width
  let length := prefixLength.setWidth 32
  if most.usubOverflow length then none
  else some ((shiftLeft? (BitVec.allOnes width) (most - length).toNat).getD 0)

/-- The mask of a network is computed on words without wrapping around. -/
theorem wordMask?_eq (network : Network) :
    wordMask? network.address.width (.ofNat 8 network.prefixLength) =
      some (mask network.address.width network.prefixLength) := by
  obtain ⟨address, prefixLength, fits⟩ := network
  have small : address.width ≤ 128 := by cases address <;> simp [Address.width]
  have length : ((BitVec.ofNat 8 prefixLength).setWidth 32).toNat = prefixLength := by
    rw [BitVec.toNat_setWidth, BitVec.toNat_ofNat, Nat.mod_eq_of_lt (by omega),
      Nat.mod_eq_of_lt (by omega)]
  have most : (BitVec.ofNat 32 address.width).toNat = address.width :=
    BitVec.toNat_ofNat .. ▸ Nat.mod_eq_of_lt (by omega)
  have fitting : ¬(BitVec.ofNat 32 address.width).usubOverflow
      ((BitVec.ofNat 8 prefixLength).setWidth 32) = true := by
    rw [BitVec.usubOverflow_eq, decide_eq_true_eq, BitVec.lt_def, length, most]
    exact Nat.not_lt.mpr fits
  rw [wordMask?]
  dsimp only
  rw [if_neg fitting, BitVec.toNat_sub_of_not_usubOverflow fitting, length, most, mask]

/-! ## Clients -/

/-- A network contains the clients that share its leading bits. -/
theorem contains_iff (network : Network) (client : Address) :
    network.contains client = true ↔
      network.address.SharesPrefix network.prefixLength client.unmapped := by
  obtain ⟨address, prefixLength, fits⟩ := network
  unfold contains
  generalize client.unmapped = other
  cases address <;> cases other <;>
    simp only [Address.SharesPrefix, beq_iff_eq, Bool.false_eq_true] <;>
    exact and_mask_eq_iff_getMsbD fits

/-- The network of an address has that address and the number of leading bits asked for. -/
theorem of_ofPrefix? {address : Address} {prefixLength : Nat} {network : Network}
    (made : ofPrefix? address prefixLength = some network) :
    network.address = address ∧ network.prefixLength = prefixLength := by
  unfold ofPrefix? at made
  split at made
  · obtain rfl := Option.some.inj made
    exact ⟨rfl, rfl⟩
  · contradiction

/-- Membership in a network is equality of leading bits, and its mask is computed without wrapping
around. An address with the same leading bits makes a network with the same clients, and if more
bits of the address count, no client is added. -/
theorem contains_iff_sharesPrefix {address : Address} {prefixLength : Nat} {network : Network}
    (made : ofPrefix? address prefixLength = some network) :
    (∀ client, network.contains client = true ↔
        address.SharesPrefix prefixLength client.unmapped) ∧
      wordMask? address.width (.ofNat 8 prefixLength) = some (mask address.width prefixLength) ∧
      (∀ i, (mask address.width prefixLength).getMsbD i = decide (i < prefixLength)) ∧
      (∀ other, address.SharesPrefix prefixLength other →
        ∃ changed, ofPrefix? other prefixLength = some changed ∧
          ∀ client, changed.contains client = network.contains client) ∧
      ∀ longer narrowed, prefixLength ≤ longer → ofPrefix? address longer = some narrowed →
        ∀ client, narrowed.contains client = true → network.contains client = true := by
  obtain ⟨rfl, rfl⟩ := of_ofPrefix? made
  refine ⟨network.contains_iff, network.wordMask?_eq, getMsbD_mask network.fits,
    fun other shares => ?_, fun longer narrowed more known client inside => ?_⟩
  · have fits : network.prefixLength ≤ other.width := shares.width_eq ▸ network.fits
    refine ⟨⟨other, network.prefixLength, fits⟩, dif_pos fits, fun client => ?_⟩
    rw [Bool.eq_iff_iff, contains_iff, contains_iff]
    exact ⟨shares.trans, shares.symm.trans⟩
  · obtain ⟨same, rfl⟩ := of_ofPrefix? known
    have shares := (narrowed.contains_iff client).mp inside
    rw [same] at shares
    exact (network.contains_iff client).mpr (shares.weaken more)

/-- A network of version four with twelve leading bits: a mapped client that shares them is inside,
the address may be changed behind them, and with sixteen of its bits the client is outside. -/
theorem contains_twelve_bits :
    let address : Address := .v4 0xac100000
    let network : Network := ⟨address, 12, by decide⟩
    let client : Address := .v6 0xffffac1fffff
    ofPrefix? address 12 = some network ∧ network.contains client = true ∧
      (∃ changed, ofPrefix? (.v4 0xac1a0b0c) 12 = some changed ∧
        changed.contains client = network.contains client) ∧
      ∃ narrowed, ofPrefix? address 16 = some narrowed ∧ narrowed.contains client = false ∧
        (narrowed.contains (.v4 0xac10ffff) = true → network.contains (.v4 0xac10ffff) = true) := by
  intro address network client
  have made : ofPrefix? address 12 = some network := by decide
  obtain ⟨inside, -, -, changes, narrows⟩ := contains_iff_sharesPrefix made
  have shared : address.SharesPrefix 12 client.unmapped := by decide
  have other : address.SharesPrefix 12 (.v4 0xac1a0b0c) := by decide
  obtain ⟨changed, known, same⟩ := changes _ other
  refine ⟨made, (inside client).mpr shared, ⟨changed, known, same client⟩, ?_⟩
  have longer : ofPrefix? address 16 = some ⟨address, 16, by decide⟩ := by decide
  exact ⟨_, longer, by decide, narrows 16 _ (by decide) longer _⟩

end Network

end AccessRules
