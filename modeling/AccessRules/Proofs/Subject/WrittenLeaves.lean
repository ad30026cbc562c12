import AccessRules.Proofs.Address.LeadingBits
import AccessRules.Proofs.Subject.OwnAddress

/-!
# Networks and dates in both forms

A network and a comparison with a date are written without any character that means something in a
rule, and their values have no names that could be trimmed. So each is read back from its text and
from its element, whatever the number of leading bits and whatever the year.
-/
namespace AccessRules

namespace SubjectLeaf

/-- The digits are ordinary. -/
theorem isOrdinary_of_isDigit {c : Char} (digit : c.isDigit = true) : IsOrdinary c :=
  Address.IsWritten.isOrdinary (.inl (.inl (Address.isSome_of_isDigit digit)))

/-- What may be written in a comparison with a date is ordinary. -/
theorem isOrdinary_of_mem_render_date {comparison : Comparison} {day : Date} {c : Char}
    (mem : c ∈ (date comparison day).render) : IsOrdinary c := by
  have front : ∀ c ∈ "date ".toList ++ comparison.symbol, IsOrdinary c := by
    cases comparison <;> exact List.forall_iff_forall_mem.mp (by decide)
  rcases List.mem_append.mp mem with inside | inside
  · exact front c inside
  · rcases List.mem_cons.mp inside with rfl | later
    · decide
    · rcases Date.isWritten_of_mem_render later with digit | rfl | rfl
      · exact isOrdinary_of_isDigit digit
      · decide
      · decide

/-- A written comparison with a date is a token. -/
theorem isToken_render_date (comparison : Comparison) (day : Date) :
    Expression.IsToken (date comparison day).render := by
  have filled : day.render ≠ [] := by simp [Date.render]
  have solid : ∀ c ∈ day.render, Text.isBlank c = false := fun c => Date.isBlank_of_mem_render
  have front : Text.IsTrimmed ("date ".toList ++ comparison.symbol) := by
    have same : Text.trim ("date ".toList ++ comparison.symbol) =
        "date ".toList ++ comparison.symbol := by cases comparison <;> decide
    exact same ▸ Text.isTrimmed_trim _
  have trimmed := front.append (by simp) (Text.isTrimmed_of_solid solid) filled [' ']
  rw [List.append_assoc, List.singleton_append] at trimmed
  exact IsOrdinary.isToken (List.append_ne_nil_of_right_ne_nil _ (List.cons_ne_nil _ _)) trimmed
    fun c => isOrdinary_of_mem_render_date

end SubjectLeaf

namespace Reader

open SubjectLeaf

variable {limits : Limits}

/-- The token of a comparison with a date is read as its leaf. -/
theorem readToken_render_date (comparison : Comparison) (day : Date) :
    (ofSubjects limits).readToken (date comparison day).render =
      .ok (.leaf (date comparison day)) := by
  have holds : Text.sameWord (date comparison day).render "true".toList = false := rfl
  have fails : Text.sameWord (date comparison day).render "false".toList = false := rfl
  rw [readToken, holds, fails, ofSubjects, firstAnswer_single, tokenReader, read_render_date]
  rfl

/-- The leaf is read back from its text, if the limits allow a text of its length, and from its
element. -/
def ReadsBothForms (limits : Limits) (leaf : SubjectLeaf) : Prop :=
  (Text.byteLength (Condition.leaf leaf).render ≤ limits.maxLength →
    (ofSubjects limits).read (Condition.leaf leaf).render = .ok (.leaf leaf)) ∧
  (ofSubjects limits).readElement? (some (Condition.leaf leaf).toElement) = .ok (.leaf leaf)

/-- A leaf without a name is read back if it is written as a token that is read as the leaf. -/
theorem readsBothForms_of_isToken {leaf : SubjectLeaf} (nameless : leaf.name? = none)
    (valid : Expression.IsToken leaf.render)
    (known : (ofSubjects limits).readToken leaf.render = .ok (.leaf leaf)) :
    ReadsBothForms limits leaf := by
  have named : leaf.IsNamed := by simp [IsNamed, nameless]
  have kept : leaf.trimmed = leaf := by cases leaf <;> first | rfl | contradiction
  refine ⟨fun long => ?_, ?_⟩
  · exact (@read_of_isToken _ (ofSubjects limits) _ valid long).trans known
  · refine (readElementWithin_toElement readsLeaves_ofSubjects _ ?_ _).mpr ⟨?_, ?_⟩
    · exact Nat.le_add_left _ _
    · simpa [Condition.leaves] using named
    · simp [Condition.map, kept]

/-- Every network, with any number of leading bits that its address has, and every comparison with
a date, of any year, is read back from its text and from its element. -/
theorem readsBothForms_network_and_date (limits : Limits) :
    (∀ range : Network, ReadsBothForms limits (network range)) ∧
      ∀ (comparison : Comparison) (day : Date), ReadsBothForms limits (date comparison day) :=
  ⟨fun range => readsBothForms_of_isToken rfl (isToken_render_network range)
    (readToken_render_network range),
  fun comparison day => readsBothForms_of_isToken rfl (isToken_render_date comparison day)
    (readToken_render_date comparison day)⟩

/-- A network of version six without free bits and a comparison with a leap day long before year
zero, under limits that allow no nested level and no longer text. -/
theorem readsBothForms_mapped_and_early :
    let limits : Limits := ⟨0, 20⟩
    let mapped := network ⟨.v6 0xffff0a000001, 128, by decide⟩
    let early := date .lessOrEqual ⟨-20000, 2, 29, by decide⟩
    (Text.byteLength "ip ::ffff:10.0.0.1".toList ≤ 20 ∧
      (ofSubjects limits).read "ip ::ffff:10.0.0.1".toList = .ok (.leaf mapped) ∧
      (ofSubjects limits).readElement? (some (Field.ip.toElement "in".toList
        "::ffff:10.0.0.1/128".toList)) = .ok (.leaf mapped)) ∧
    Text.byteLength "date <= -20000-02-29".toList ≤ 20 ∧
      (ofSubjects limits).read "date <= -20000-02-29".toList = .ok (.leaf early) ∧
      (ofSubjects limits).readElement? (some (Field.date.toElement "<=".toList
        "-20000-02-29".toList)) = .ok (.leaf early) := by
  intro limits mapped early
  obtain ⟨networks, dates⟩ := readsBothForms_network_and_date limits
  have address := networks ⟨.v6 0xffff0a000001, 128, by decide⟩
  have day := dates .lessOrEqual ⟨-20000, 2, 29, by decide⟩
  have shownAddress : (Condition.leaf mapped).render = "ip ::ffff:10.0.0.1".toList := by decide
  have shownDay : (Condition.leaf early).render = "date <= -20000-02-29".toList := by decide
  have fullAddress : (Condition.leaf mapped).toElement =
      Field.ip.toElement "in".toList "::ffff:10.0.0.1/128".toList := by decide
  have fullDay : (Condition.leaf early).toElement =
      Field.date.toElement "<=".toList "-20000-02-29".toList := by decide
  unfold ReadsBothForms at address day
  rw [shownAddress, fullAddress] at address
  rw [shownDay, fullDay] at day
  exact ⟨⟨by decide, address.1 (by decide), address.2⟩, by decide, day.1 (by decide), day.2⟩

end Reader

end AccessRules
