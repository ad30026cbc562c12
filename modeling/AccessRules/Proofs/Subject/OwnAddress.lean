import AccessRules.Proofs.Address.Membership
import AccessRules.Proofs.Grammar.PlainTokens
import AccessRules.Proofs.Subject.TextForm

/-!
# Rules that name an address

A written network is a token, so the rule of a network and its negation are read as that. They
admit and refuse a client at the very address of the network, unless that address is a mapped one:
then it is the other way round, since only the client is taken for what its address stands for.
-/
namespace AccessRules

namespace Address

/-- What may be written in a network is ordinary. -/
theorem IsWritten.isOrdinary {c : Char} (written : IsWritten c ∨ c = '/') : IsOrdinary c := by
  -- The hexadecimal digits are among the first characters, so they can be gone through.
  have digits : ∀ code < 103, (Text.digitValue? 16 (Char.ofNat code)).isSome = true →
      IsOrdinary (Char.ofNat code) := by decide +kernel
  rcases written with (digit | rfl | rfl) | rfl
  · have bound := (toNat_of_isSome digit).2
    rw [← Char.ofNat_toNat c] at digit ⊢
    exact digits c.toNat (by omega) digit
  · decide
  · decide
  · decide

end Address

namespace SubjectLeaf

/-- A written network is a token. -/
theorem isToken_render_network (range : Network) :
    Expression.IsToken (network range).render := by
  have filled : range.render ≠ [] := by
    intro empty
    have known := range.read_render
    rw [empty] at known
    contradiction
  have solid : ∀ c ∈ range.render, Text.isBlank c = false := by
    intro c mem
    cases Network.isWritten_of_mem_render mem with
    | inl inside => exact inside.other.1
    | inr slash => exact slash ▸ rfl
  have trimmed : Text.IsTrimmed ("ip".toList ++ [' '] ++ range.render) :=
    Text.IsTrimmed.append (Text.isTrimmed_of_solid (List.forall_iff_forall_mem.mp (by decide)))
      (by decide) (Text.isTrimmed_of_solid solid) filled [' ']
  refine IsOrdinary.isToken (List.append_ne_nil_of_right_ne_nil _ filled) trimmed fun c mem => ?_
  cases List.mem_append.mp mem with
  | inl front =>
    have field : ∀ c ∈ "ip ".toList, IsOrdinary c := List.forall_iff_forall_mem.mp (by decide)
    exact field c front
  | inr inside => exact Address.IsWritten.isOrdinary (Network.isWritten_of_mem_render inside)

end SubjectLeaf

namespace Reader

open SubjectLeaf

variable {limits : Limits}

/-- The token of a network is read as its leaf. -/
theorem readToken_render_network (range : Network) :
    (ofSubjects limits).readToken (network range).render = .ok (.leaf (network range)) := by
  have holds : Text.sameWord (network range).render "true".toList = false := rfl
  have fails : Text.sameWord (network range).render "false".toList = false := rfl
  rw [readToken, holds, fails, ofSubjects, firstAnswer_single, tokenReader, read_render_network]
  rfl

/-- A network contains its own address exactly if that is not a mapped one. So the rule that names
the network admits a client at this address, and its negation does not, with this exception: a
client at a mapped address is refused by the rule and admitted by the negation. -/
theorem contains_own_address_iff {address : Address} {prefixLength : Nat} {range : Network}
    (made : Network.ofPrefix? address prefixLength = some range) :
    (range.contains address = true ↔ address.isMapped = false) ∧
      ∀ limits : Limits, 0 < limits.maxDepth →
        Text.byteLength ("not ".toList ++ (network range).render) ≤ limits.maxLength →
          ∃ rule negation : Condition SubjectLeaf,
            (ofSubjects limits).read (network range).render = .ok rule ∧
            (ofSubjects limits).read ("not ".toList ++ (network range).render) = .ok negation ∧
            ∀ subject : Subject, subject.client? = some address →
              (rule.holds subject = true ↔ address.isMapped = false) ∧
                (negation.holds subject = true ↔ address.isMapped = true) := by
  have own : range.address = address := by
    unfold Network.ofPrefix? at made
    split at made
    · obtain rfl := Option.some.inj made
      rfl
    · contradiction
  have contained : range.contains address = !address.isMapped := own ▸ range.contains_address
  refine ⟨by simp [contained], fun limits deep long => ?_⟩
  have short : Text.byteLength (network range).render ≤ (ofSubjects limits).limits.maxLength := by
    rw [Text.byteLength_append] at long
    exact (Nat.le_add_left _ _).trans long
  have valid := isToken_render_network range
  refine ⟨.leaf (network range), .not (.leaf (network range)), ?_, ?_, ?_⟩
  · rw [read_of_isToken valid short, readToken_render_network]
  · rw [read_of_negated_isToken valid deep long, readToken_render_network]
    rfl
  · intro subject client
    have holds : (network range).holds subject = !address.isMapped := by
      rw [SubjectLeaf.holds, client]
      exact contained
    constructor
    · show (network range).holds subject = true ↔ _
      simp [holds]
    · show (!(network range).holds subject) = true ↔ _
      simp [holds]

/-- A network of version six with its last 16 bits free, alone and negated, under limits that just
allow the longer of the two rules. -/
theorem contains_own_address_of_range :
    let address : Address := .v6 0x20010db8000000000000000000000007
    let range : Network := ⟨address, 112, by decide⟩
    Network.ofPrefix? address 112 = some range ∧ address.isMapped = false ∧
      range.contains address = true ∧
      ∃ rule negation : Condition SubjectLeaf,
        (ofSubjects ⟨1, 22⟩).read "ip 2001:db8::7/112".toList = .ok rule ∧
        (ofSubjects ⟨1, 22⟩).read "not ip 2001:db8::7/112".toList = .ok negation ∧
        ∀ subject : Subject, subject.client? = some address →
          rule.holds subject = true ∧ negation.holds subject = false := by
  intro address range
  have made : Network.ofPrefix? address 112 = some range := by decide
  have plain : address.isMapped = false := by decide
  have written : (network range).render = "ip 2001:db8::7/112".toList := by decide
  obtain ⟨contained, reads⟩ := contains_own_address_iff made
  obtain ⟨rule, negation, first, second, admits⟩ := reads ⟨1, 22⟩ (by decide) (by
    rw [written]
    decide)
  rw [written] at first second
  refine ⟨made, plain, contained.mpr plain, rule, negation, first, second, ?_⟩
  intro subject client
  obtain ⟨admitted, refused⟩ := admits subject client
  refine ⟨admitted.mpr plain, ?_⟩
  rw [← Bool.not_eq_true, refused, plain]
  decide

/-- The rule that names a mapped address refuses a client at that address, and the negated rule
admits it. -/
theorem mapped_address_refused :
    let address : Address := .v6 0xffff0a000001
    let range : Network := ⟨address, 128, by decide⟩
    let subject : Subject := ⟨[], fun _ => false, some address, ⟨2024, 6, 15, by decide⟩⟩
    Network.ofPrefix? address 128 = some range ∧ range.contains address = false ∧
      (ofSubjects {}).read "ip ::ffff:10.0.0.1".toList = .ok (.leaf (network range)) ∧
      Condition.holds subject (.leaf (network range)) = false ∧
      (ofSubjects {}).read "not ip ::ffff:10.0.0.1".toList = .ok (.not (.leaf (network range))) ∧
      Condition.holds subject (.not (.leaf (network range))) = true := by
  refine ⟨by decide, by decide, by rfl, by rfl, by rfl, by rfl⟩

end Reader

end AccessRules
