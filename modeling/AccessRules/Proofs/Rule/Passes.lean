import AccessRules.Proofs.Rule.Recovery

/-!
# Passes

Groups are taken out and put back pass by pass, until there is none left to find. Here both go on
for as long as they do, without a bound on the passes, and the passes are counted. The bounded forms
give the same answer as soon as their bound is no less than that count.
-/
namespace AccessRules

open AccessRules.Bracket

/-- A text without a closing bracket after an opening one has no innermost groups. -/
theorem Bracket.Parted.finds_eq_nil {text : Text} (parted : Parted text) :
    (groups text).finds = [] := by
  have cuts := Text.isCut_cut shortens_group? text
  refine (cuts.finds_eq_nil_iff rfl).mpr fun front back split => ?_
  cases found : group? back with
  | none => rfl
  | some answer =>
    obtain ⟨inner, rest⟩ := answer
    obtain ⟨rfl, -⟩ := group?_eq_some_iff.mp found
    exact absurd (by simp) (parted front (inner ++ ')' :: rest) (by simp [split]))

/-- No marker is found exactly where a cut at markers finds none. -/
theorem Marker.find?_eq_none_iff {text : Text} :
    find? text = none ↔ (Text.cut read? text).finds = [] := by
  have cuts := Text.isCut_cut shortens_read? text
  rw [cuts.finds_eq_nil_iff rfl]
  refine ⟨fun none _ _ => (unmarked_of_find? none).read?_eq_none, fun none => ?_⟩
  rw [find?, Text.search_eq_none_iff.mpr fun front back split _ => none front back split]
  rfl

namespace ClauseStore

variable {store middle next : ClauseStore} {text rule : Text} {passes : Nat}

/-! ## Expansion -/

/-- One pass of expansion: every marker that is found is replaced by its clause. -/
def replaceMarkers (store : ClauseStore) (text : Text) : Except RuleError Text := do
  let cut := Text.cut Marker.read? text
  let replaced ← store.substitute cut.lead.byteLength cut.finds
  return cut.lead ++ replaced

/-- Markers are replaced in so many passes, until none is found or a pass fails. -/
inductive ExpandsIn (store : ClauseStore) :
    (passes : Nat) → (text : Text) → (outcome : Except RuleError Text) → Prop where
  | done {text : Text} (unmarked : Marker.find? text = none) : ExpandsIn store 0 text (.ok text)
  | fail {text : Text} {error : RuleError} (marked : Marker.find? text ≠ none)
      (refused : store.replaceMarkers text = .error error) : ExpandsIn store 1 text (.error error)
  | pass {passes : Nat} {text replaced : Text} {outcome : Except RuleError Text}
      (marked : Marker.find? text ≠ none) (success : store.replaceMarkers text = .ok replaced)
      (further : ExpandsIn store passes replaced outcome) :
      ExpandsIn store (passes + 1) text outcome

/-- A pass is made if a marker is found. -/
theorem expandWithin_succ (store : ClauseStore) (passes : Nat) (text : Text) :
    store.expandWithin (passes + 1) text =
      if Marker.find? text = none then .ok text
      else store.replaceMarkers text >>= store.expandWithin passes := by
  simp only [expandWithin, List.isEmpty_iff, Marker.find?_eq_none_iff]
  split
  · rfl
  · rw [replaceMarkers]
    cases store.substitute _ _ <;> rfl

/-- Expansion within a bound gives what the passes that it takes give. -/
theorem ExpandsIn.expandWithin {outcome : Except RuleError Text} {bound : Nat}
    (expands : store.ExpandsIn passes text outcome) (enough : passes ≤ bound) :
    store.expandWithin bound text = outcome := by
  induction expands generalizing bound with
  | done unmarked => exact expandWithin_of_unmarked (unmarked_of_find? unmarked) bound
  | fail marked refused =>
    obtain ⟨bound, rfl⟩ := Nat.exists_eq_add_of_le' enough
    rw [expandWithin_succ, if_neg marked, refused]
    rfl
  | pass marked success further ih =>
    obtain ⟨bound, rfl⟩ := Nat.exists_eq_add_of_le' (Nat.le_trans (Nat.le_add_left 1 _) enough)
    rw [expandWithin_succ, if_neg marked, success]
    exact ih (Nat.le_of_succ_le_succ enough)

/-- A sound store expands any text in at most one pass. -/
theorem Sound.exists_expandsIn (sound : store.Sound) (text : Text) :
    ∃ passes outcome, passes ≤ 1 ∧ store.ExpandsIn passes text outcome := by
  by_cases unmarked : Marker.find? text = none
  · exact ⟨0, _, Nat.zero_le 1, .done unmarked⟩
  cases result : store.replaceMarkers text with
  | error error => exact ⟨1, _, Nat.le_refl 1, .fail unmarked result⟩
  | ok replaced =>
    obtain ⟨others, substituted, same⟩ := bind_eq_ok.mp result
    obtain rfl := Except.ok.inj same
    have cuts := Text.isCut_cut Marker.shortens_read? text
    have clear := (unmarked_of_substitute sound cuts substituted).find?_eq_none
    exact ⟨1, _, Nat.le_refl 1, .pass unmarked result (.done clear)⟩

/-! ## Extraction -/

/-- Innermost groups are captured in so many passes, until none is found. What stands around the
whole text is taken off before each pass and after the last one. -/
inductive ExtractsIn :
    (passes : Nat) → (store : ClauseStore) → (text rule : Text) → (next : ClauseStore) → Prop where
  | done {store : ClauseStore} {text : Text} (none : (groups (unwrap text)).finds = []) :
      ExtractsIn 0 store text (unwrap text) store
  | pass {passes : Nat} {store middle next : ClauseStore} {text marked rule : Text}
      (some : (groups (unwrap text)).finds ≠ [])
      (captured : store.capture (groups (unwrap text)).finds = .ok (marked, middle))
      (further : ExtractsIn passes middle ((groups (unwrap text)).lead ++ marked) rule next) :
      ExtractsIn (passes + 1) store text rule next

/-- Extraction within a bound gives what the passes that it takes give. -/
theorem ExtractsIn.extractWithin {bound : Nat} (extracts : ExtractsIn passes store text rule next)
    (enough : passes ≤ bound) : extractWithin bound store text = .ok (rule, next) := by
  induction extracts generalizing bound with
  | done none => cases bound <;> simp [ClauseStore.extractWithin, none]
  | pass some captured further ih =>
    obtain ⟨bound, rfl⟩ := Nat.exists_eq_add_of_le' (Nat.le_trans (Nat.le_add_left 1 _) enough)
    rw [ClauseStore.extractWithin, if_neg (mt List.isEmpty_iff.mp some), captured]
    exact ih (Nat.le_of_succ_le_succ enough)

/-- Extraction that leaves no group within a bound takes no more passes than the bound. -/
theorem exists_extractsIn {bound : Nat}
    (success : extractWithin bound store text = .ok (rule, next)) (parted : Parted rule) :
    ∃ passes, passes ≤ bound ∧ ExtractsIn passes store text rule next := by
  induction bound generalizing store text with
  | zero =>
    obtain ⟨rfl, rfl⟩ := Prod.mk.inj (Except.ok.inj success)
    exact ⟨0, Nat.le_refl 0, .done parted.finds_eq_nil⟩
  | succ bound ih =>
    unfold ClauseStore.extractWithin at success
    dsimp only at success
    split at success
    · rename_i none
      obtain ⟨rfl, rfl⟩ := Prod.mk.inj (Except.ok.inj success)
      exact ⟨0, Nat.zero_le _, .done (List.isEmpty_iff.mp none)⟩
    · rename_i some
      obtain ⟨⟨marked, middle⟩, captured, rest⟩ := bind_eq_ok.mp success
      obtain ⟨passes, fewer, further⟩ := ih rest
      have filled := mt List.isEmpty_iff.mpr some
      exact ⟨passes + 1, Nat.succ_le_succ fewer, .pass filled captured further⟩

end ClauseStore

end AccessRules
