import AccessRules.Proofs.Rule.LosslessExtraction
import AccessRules.Proofs.Rule.Passes

/-!
# Extraction keeps the brackets without a partner

Innermost groups are captured pass by pass, yet together the passes match brackets as a stack would:
of a text without at signs, just the brackets that have no partner are left, each in its place, and
no more passes are made than brackets nest. If the brackets that are left are of one kind, one of
the other kind is missing.
-/
namespace AccessRules

open AccessRules.Bracket

/-- A text without at signs is intact. -/
theorem isIntact_of_not_mem {text : Text} (unmarked : '@' ∉ text) : IsIntact text := by
  constructor
  · intro digits _ _ written
    exact unmarked (written.subset (by simp [Marker.ofDigits]))
  · rintro ⟨digits, group, -, -, -, written⟩
    exact unmarked (written.subset (by simp [Marker.unended]))

namespace ClauseStore

variable {store next : ClauseStore} {full short rule extracted : Text} {passes : Nat}

/-- The brackets of the short text are those of the full one that have no partner, each between what
the texts around it are expanded to. -/
structure KeepsUnmatched (store : ClauseStore) (full short : Text) : Prop where
  /-- A bracket without a partner is kept. -/
  kept : ∀ left c right, full = left ++ c :: right → isBracket c = true →
    ¬HasPartner left c right → ∃ front back, short = front ++ c :: back ∧
      store.expand front = .ok left ∧ store.expand back = .ok right
  /-- No other bracket is kept. -/
  only : ∀ front c back, short = front ++ c :: back → isBracket c = true →
    ∃ left right, full = left ++ c :: right ∧ ¬HasPartner left c right ∧
      store.expand front = .ok left ∧ store.expand back = .ok right

/-- What stands around a character is expanded if the text is intact and there is room for it. -/
theorem expand_around {left right front back : Text} {c : Char}
    (before : Abridges store.Names left front) (after : Abridges store.Names right back)
    (intact : IsIntact (left ++ c :: right))
    (room : Text.byteLength (left ++ c :: right) ≤ store.maxExpansion) :
    store.expand front = .ok left ∧ store.expand back = .ok right := by
  rw [Text.byteLength_append, Text.byteLength_cons] at room
  have first : IsIntact left := intact.part (List.prefix_append _ _).isInfix
  have second : IsIntact right := intact.part ⟨left ++ [c], [], by simp⟩
  exact ⟨expand_of_intact before first (by omega), expand_of_intact after second (by omega)⟩

/-- Where no closing bracket of an abridged text stands after an opening one, its brackets are those
of the full text that have no partner. -/
theorem keepsUnmatched_of_abridges (abridges : Abridges store.Names full short)
    (parted : Parted short) (intact : IsIntact full)
    (room : full.byteLength ≤ store.maxExpansion) : store.KeepsUnmatched full short := by
  constructor
  · rintro left c right rfl bracket alone
    obtain ⟨front, back, split, before, after⟩ := abridges.split_unmatched bracket alone
    exact ⟨front, back, split, expand_around before after intact room⟩
  · rintro front c back rfl bracket
    obtain ⟨left, right, rfl, before, after⟩ :=
      abridges.split_short_char (Marker.isMark_of_isBracket bracket)
    have alone := mt (before.hasPartner_iff after bracket).mp (parted.not_hasPartner bracket)
    exact ⟨left, right, rfl, alone, expand_around before after intact room⟩

/-- What is left of an intact text keeps the brackets without a partner. -/
theorem keepsUnmatched_of_residue (residue : Residue store.Names full short)
    (parted : Parted short) (intact : IsIntact full)
    (room : full.byteLength ≤ store.maxExpansion) : store.KeepsUnmatched full short := by
  cases residue with
  | whole several abridges => exact keepsUnmatched_of_abridges abridges parted intact room
  | @inner inside _ balanced abridges =>
    -- A group has no brackets without a partner, and what is left of it has no brackets.
    have group : IsGroup ('(' :: inside ++ [')']) := ⟨inside, rfl, balanced⟩
    have within := abridges.balanced_iff.mp (balanced_trim_iff.mpr balanced)
    constructor
    · intro left c right whole bracket alone
      have balanced : Balanced (left ++ c :: right) := whole ▸ group.balanced
      exact absurd (balanced.hasPartner bracket) alone
    · rintro front c back rfl bracket
      have free := parted.free_of_balanced within c (by simp)
      rw [bracket] at free
      contradiction

/-- What is left when no group is found is trimmed, and no closing bracket stands after an opening
one. -/
theorem ExtractsIn.isTrimmed_and_parted (extracts : ExtractsIn passes store rule extracted next) :
    extracted.IsTrimmed ∧ Parted extracted := by
  induction extracts with
  | @done store text none =>
    have cuts := Text.isCut_cut shortens_group? (unwrap text)
    exact ⟨(unwrap_spec text).1, parted_of_no_group ((cuts.finds_eq_nil_iff rfl).mp none)⟩
  | pass some captured further ih => exact ih

/-- The brackets that are left are those that are left when all pairs are cancelled. -/
theorem ExtractsIn.filter_eq_leftover (extracts : ExtractsIn passes store rule extracted next)
    (grouped : store.Grouped) : extracted.filter isBracket = leftover rule := by
  have extraction := extracts.extractWithin (Nat.le_refl passes)
  have preserves := (preserves_of_extractWithin grouped extraction).1
  rw [← extracts.isTrimmed_and_parted.2.leftover_eq_filter]
  exact leftover_congr preserves.unopened.symm preserves.unclosed.symm

/-- Extraction gives what its passes give, unless brackets of one kind are left. -/
theorem ExtractsIn.extract_eq (extracts : ExtractsIn passes store rule extracted next)
    (few : passes ≤ nesting rule) (left : extracted.filter isBracket = leftover rule) :
    store.extract rule =
      if '(' ∈ leftover rule ↔ ')' ∈ leftover rule then .ok (extracted, next)
      else .error (.malformed .missingBracket (some extracted)) := by
  have enough := Nat.le_trans few (nesting_le_count rule)
  rw [extract, extracts.extractWithin enough, ← left]
  show (if _ then _ else _) = _
  by_cases both : '(' ∈ extracted ↔ ')' ∈ extracted
  · simp [both, isBracket]
    rfl
  · simp [both, isBracket]

/-- The groups of an intact text are taken out in no more passes than its brackets nest, if there is
room for the text in each pass. -/
theorem exists_extractsIn_of_intact (intact : IsIntact rule.trim)
    (length : rule.byteLength ≤ store.maxExpansion)
    (room : store.stored + nesting rule * rule.byteLength ≤ store.maxStored) :
    ∃ passes extracted next, passes ≤ nesting rule ∧
      ExtractsIn passes store rule extracted next ∧ next.maxExpansion = store.maxExpansion ∧
      Residue next.Names rule.trim extracted := by
  have fewer := rule.byteLength_trim_le
  have flat : pairNesting rule.trim ≤ nesting rule :=
    nesting_trim rule ▸ pairNestingFrom_le_nestingFrom rule.trim (Nat.le_refl 0)
  have yields := extractWithin_yields (.refl store.Names rule.trim) intact rule.isTrimmed_trim
    IsGroup.head? flat (Nat.le_trans fewer length) (.inl flat)
  have space := Nat.mul_le_mul_left (nesting rule) fewer
  obtain ⟨extracted, next, success, grows, residue, parted⟩ := yields.of_room (by omega)
  rw [extractWithin_trim] at success
  obtain ⟨passes, few, extracts⟩ := exists_extractsIn success parted
  exact ⟨passes, extracted, next, few, extracts, grows.maxExpansion, residue⟩

/-- Of a text without at signs, groups are taken out in no more passes than its brackets nest, if
there is room for the text in each pass. A trimmed text is left, with the brackets that are left
when all pairs are cancelled: closing ones before opening ones, each of them a bracket of the text
without a partner. Extraction succeeds unless these are of one kind; then a bracket is missing. -/
theorem extract_keeps_unmatched {maxExpansion maxStored : Nat} (unmarked : '@' ∉ rule)
    (length : rule.byteLength ≤ maxExpansion) (room : nesting rule * rule.byteLength ≤ maxStored) :
    ∃ passes extracted next, passes ≤ nesting rule ∧
      ExtractsIn passes { maxExpansion, maxStored } rule extracted next ∧
      extracted.IsTrimmed ∧ Parted extracted ∧ extracted.filter isBracket = leftover rule ∧
      next.KeepsUnmatched rule.trim extracted ∧
      ClauseStore.extract { maxExpansion, maxStored } rule =
        if '(' ∈ leftover rule ↔ ')' ∈ leftover rule then .ok (extracted, next)
        else .error (.malformed .missingBracket (some extracted)) := by
  have intact := isIntact_of_not_mem fun mem => unmarked (rule.trim_isInfix.subset mem)
  have grouped : Grouped { maxExpansion, maxStored } := fun clause mem => by simp at mem
  let start : ClauseStore := { maxExpansion, maxStored }
  have enough : start.stored + nesting rule * rule.byteLength ≤ start.maxStored :=
    Nat.le_trans (Nat.zero_add _).le room
  have short : rule.byteLength ≤ start.maxExpansion := length
  obtain ⟨passes, extracted, next, few, extracts, limit, residue⟩ :=
    exists_extractsIn_of_intact intact short enough
  obtain ⟨trimmed, parted⟩ := extracts.isTrimmed_and_parted
  have left := extracts.filter_eq_leftover grouped
  have fits : rule.trim.byteLength ≤ next.maxExpansion :=
    limit ▸ Nat.le_trans rule.byteLength_trim_le length
  exact ⟨passes, extracted, next, few, extracts, trimmed, parted, left,
    keepsUnmatched_of_residue residue parted intact fits, extracts.extract_eq few left⟩

/-- Nested groups are taken out between a closing and an opening bracket that have no partner, under
limits that just allow it. -/
theorem extract_keeps_both_kinds :
    let rule : Text := "((a) or b)) and (c".toList
    '@' ∉ rule ∧ rule.byteLength ≤ 18 ∧ nesting rule * rule.byteLength ≤ 36 ∧
      leftover rule = ")(".toList ∧ ∃ passes extracted next, passes ≤ nesting rule ∧
        ExtractsIn passes { maxExpansion := 18, maxStored := 36 } rule extracted next ∧
        extracted = "@<1>@) and (c".toList ∧ next.KeepsUnmatched rule.trim extracted ∧
        ClauseStore.extract { maxExpansion := 18, maxStored := 36 } rule =
          .ok (extracted, next) := by
  have success : ClauseStore.extract { maxExpansion := 18, maxStored := 36 }
      "((a) or b)) and (c".toList = .ok ("@<1>@) and (c".toList,
        { maxExpansion := 18
          maxStored := 36
          clauses := #["(a)".toList, "((a) or b)".toList]
          stored := 13 }) := by rfl
  intro rule
  have unmarked : '@' ∉ rule := by decide
  have length : rule.byteLength ≤ 18 := by decide
  have room : nesting rule * rule.byteLength ≤ 36 := by decide
  have left : leftover rule = ")(".toList := by decide
  obtain ⟨passes, extracted, next, few, extracts, -, -, -, kept, extraction⟩ :=
    extract_keeps_unmatched unmarked length room
  rw [left, if_pos (by decide)] at extraction
  have same := (Prod.mk.inj (Except.ok.inj (extraction.symm.trans success))).1
  exact ⟨unmarked, length, room, left, passes, extracted, next, few, extracts, same, kept,
    extraction⟩

end ClauseStore

end AccessRules
