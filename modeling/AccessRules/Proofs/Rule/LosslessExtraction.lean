import AccessRules.Proofs.Rule.IntactClauses

/-!
# Extraction that loses nothing

What is left of a text when its groups are taken out is expanded to the text again, or to what the
text holds if it is a single group. Only a marker that lacks its last mark, written right before a
group, spoils this: together with the marker of the group it reads as a marker of its own.
-/
namespace AccessRules

open AccessRules.Bracket

/-! ## Unended markers in parts of a text -/

namespace HasUnended

variable {text inside : Text}

/-- Trimming keeps unended markers. -/
theorem trim (unended : HasUnended text) : HasUnended text.trim := by
  obtain ⟨digits, group, filled, decimal, grouped, written⟩ := unended
  refine ⟨digits, group, filled, decimal, grouped, Text.IsTrimmed.isInfix_trim ?_ ?_ written⟩
  · obtain ⟨inner, rfl, -⟩ := grouped
    rw [← List.append_assoc]
    exact Text.isTrimmed_between (by decide) (by decide) _
  · simp [Marker.unended]

/-- An unended marker in a group is one in what the group holds. -/
theorem of_group (unended : HasUnended ('(' :: inside ++ [')'])) (balanced : Balanced inside) :
    HasUnended inside := by
  obtain ⟨digits, group, filled, decimal, grouped, front, back, whole⟩ := unended
  have around : IsGroup (front ++ (Marker.unended digits ++ group) ++ back) :=
    whole ▸ ⟨inside, rfl, balanced⟩
  refine ⟨digits, group, filled, decimal, grouped, ?_⟩
  cases front with
  | nil => exact absurd (List.cons.inj whole).1 (by decide)
  | cons c front =>
    rcases List.eq_nil_or_concat back with rfl | ⟨back, d, rfl⟩
    · -- A balanced text at the end of the group around would end before its last bracket.
      rw [List.append_nil, ← List.append_assoc] at around
      have begun : group ≠ [] := by
        obtain ⟨inner, rfl, -⟩ := grouped
        simp
      exact absurd (balanced_iff.mp grouped.balanced).1
        (around.open_of_append (by simp) begun).2
    · have rest : front ++ (Marker.unended digits ++ group) ++ back ++ [d] = inside ++ [')'] := by
        simpa using (List.cons.inj whole).2
      exact ⟨front, back, List.append_inj_left' rest rfl⟩

end HasUnended

namespace ClauseStore

variable {store next : ClauseStore} {rule extracted : Text}

/-- Groups are taken out of the trimmed text, in any number of passes. -/
theorem extractWithin_trim (passes : Nat) (store : ClauseStore) (text : Text) :
    extractWithin passes store text.trim = extractWithin passes store text := by
  have same : unwrap text.trim = unwrap text := by
    simp only [unwrap, text.isTrimmed_trim.trim_self]
  cases passes <;> simp only [extractWithin, same]

/-- Groups are taken out of the trimmed text. -/
theorem extract_trim (store : ClauseStore) (text : Text) :
    store.extract text.trim = store.extract text := by
  have counts : text.trim.count '(' = text.count '(' := by
    obtain ⟨front, back, split, before, after⟩ := text.exists_eq_trim
    have none {blanks : Text} (blank : ∀ c ∈ blanks, Text.isBlank c = true) :
        blanks.count '(' = 0 :=
      List.count_eq_zero.mpr fun mem => absurd (blank '(' mem) (by decide)
    conv_rhs => rw [split]
    simp [none before, none after]
  rw [extract, extract, counts, extractWithin_trim]

/-- What is left of an intact text is its residue. -/
theorem residue_of_extract (sound : store.Sound) (intact : IsIntact rule.trim)
    (success : store.extract rule = .ok (extracted, next)) :
    Residue next.Names rule.trim extracted := by
  rw [← extract_trim] at success
  have settles := extractWithin_settles sound (.refl _ _) intact.isTame rule.isTrimmed_trim
    IsGroup.head? (Nat.le_refl _)
  obtain ⟨-, residue, -⟩ := settles.good_of_ok (extractWithin_of_extract success).1
  exact residue.mono fun _ _ => keeps_false

/-- The text is what is recovered of a rule: the trimmed rule, or what it holds, trimmed, if it is a
single group. -/
inductive Recovers (rule : Text) : (text : Text) → Prop where
  | whole (several : ¬IsGroup rule.trim) : Recovers rule rule.trim
  | inner {inside : Text} (group : rule.trim = '(' :: inside ++ [')'])
      (balanced : Balanced inside) : Recovers rule inside.trim

/-- What is recovered of a text has its unended markers. -/
theorem Recovers.hasUnended {text : Text} (recovers : Recovers rule text)
    (unended : HasUnended rule) : HasUnended text := by
  have trimmed := unended.trim
  cases recovers with
  | whole several => exact trimmed
  | inner group balanced =>
    rw [group] at trimmed
    exact (trimmed.of_group balanced).trim

/-- An intact text is recovered if there is room for it. -/
theorem recovers_of_residue (intact : IsIntact rule.trim)
    (room : rule.byteLength ≤ store.maxExpansion)
    (residue : Residue store.Names rule.trim extracted) :
    ∃ text, store.expand extracted = .ok text ∧ Recovers rule text := by
  have fits := rule.byteLength_trim_le
  generalize same : rule.trim = full at residue intact fits
  cases residue with
  | whole several abridges =>
    subst same
    exact ⟨_, expand_of_intact abridges intact (by omega), .whole several⟩
  | @inner inside _ balanced abridges =>
    have shorter := byteLength_trim_lt inside
    have within : inside.trim <:+: '(' :: inside ++ [')'] :=
      inside.trim_isInfix.trans ⟨['('], [')'], rfl⟩
    exact ⟨_, expand_of_intact abridges (intact.part within) (by omega), .inner same balanced⟩

/-- What is taken out of a rule without markers is put back unless a marker that lacks its last mark
stands right before a group: the extracted text is expanded to the trimmed rule, or to what it
holds, trimmed, if it is a single group. With such a marker in the rule it is never expanded to
either. -/
theorem expand_of_extract {maxExpansion maxStored : Nat} (unmarked : Marker.find? rule = none)
    (room : rule.byteLength ≤ maxExpansion)
    (success : ClauseStore.extract { maxExpansion, maxStored } rule = .ok (extracted, next)) :
    (¬HasUnended rule → ∃ text, next.expand extracted = .ok text ∧ Recovers rule text) ∧
      (HasUnended rule → ∀ text, next.expand extracted = .ok text →
        text ≠ rule.trim ∧ ¬Recovers rule text) := by
  have start : Intact { maxExpansion, maxStored } := intact_of_empty rfl
  constructor
  · intro ended
    have clear := unmarked_of_find? unmarked
    have intact : IsIntact rule.trim := IsIntact.part ⟨clear, ended⟩ rule.trim_isInfix
    have limit : next.maxExpansion = maxExpansion := maxExpansion_of_extract success
    exact recovers_of_residue intact (by omega) (residue_of_extract start.toSound intact success)
  · intro unended text expansion
    have parted := (preserves_of_extract start.grouped success).2.2.1
    have intact := (start.extract success).expand parted.not_hasUnended expansion
    refine ⟨?_, fun recovers => intact.ended (recovers.hasUnended unended)⟩
    rintro rfl
    exact intact.ended unended.trim

/-- A group after a closing angle bracket is put back, under limits that just allow it; the brackets
around the whole rule are left out. -/
theorem expand_of_extract_nested :
    let rule : Text := " (x >(y)) ".toList
    let extracted : Text := "x >@<0>@".toList
    let next : ClauseStore :=
      { maxExpansion := 10, maxStored := 3, clauses := #["(y)".toList], stored := 3 }
    Marker.find? rule = none ∧ rule.byteLength ≤ 10 ∧
      ClauseStore.extract { maxExpansion := 10, maxStored := 3 } rule = .ok (extracted, next) ∧
      ¬HasUnended rule ∧ next.expand extracted = .ok "x >(y)".toList ∧
      ∃ text, next.expand extracted = .ok text ∧ Recovers rule text := by
  intro rule extracted next
  have unmarked : Marker.find? rule = none := by decide
  have room : rule.byteLength ≤ 10 := by decide
  have success : ClauseStore.extract { maxExpansion := 10, maxStored := 3 } rule =
      .ok (extracted, next) := by rfl
  have ended : ¬HasUnended rule := by
    rintro ⟨digits, group, -, -, -, written⟩
    exact absurd (written.subset (by simp [Marker.unended]) : '@' ∈ rule) (by decide)
  exact ⟨unmarked, room, success, ended, by rfl, (expand_of_extract unmarked room success).1 ended⟩

/-- Where an unended marker stands before a group, the marker that is read there takes the group,
and the rest of the marker of the group is left. -/
theorem group_put_back_early :
    let rule : Text := "@<0>(true)".toList
    let extracted : Text := "@<0>@<0>@".toList
    let clauses := #["(true)".toList]
    let next : ClauseStore := { maxExpansion := 100, maxStored := 100, clauses, stored := 6 }
    Marker.find? rule = none ∧ rule.byteLength ≤ 100 ∧
      ClauseStore.extract { maxExpansion := 100, maxStored := 100 } rule = .ok (extracted, next) ∧
      next.expand extracted = .ok "(true)<0>@".toList ∧ "(true)<0>@".toList ≠ rule.trim ∧
      ∀ inside, rule.trim ≠ '(' :: inside ++ [')'] := by
  intro rule extracted clauses next
  refine ⟨by decide, by decide, by rfl, by rfl, by decide, fun inside same => ?_⟩
  have first : rule.trim.head? = some '(' := by
    rw [same]
    rfl
  exact absurd first (by decide)

end ClauseStore

end AccessRules
