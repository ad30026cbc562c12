import AccessRules.Proofs.Rule.Passes
import AccessRules.Proofs.Rule.StoredText
import Mathlib.Algebra.GroupWithZero.Nat

/-!
# Reached stores

Whatever texts groups are taken out of one after another, with markers of their own or not, the
clauses of the store are bracket groups without markers that fit an expansion, and the store counts
their bytes. So any text is expanded in at most one pass, to a text without markers that fits.
-/
namespace AccessRules

open AccessRules.Bracket

/-- A clause is a text in brackets, balanced, without markers and of limited length. -/
structure IsClause (limit : Nat) (clause : Text) : Prop where
  /-- It begins with an opening bracket. -/
  opens : clause.head? = some '('
  /-- It ends with a closing bracket. -/
  closes : clause.getLast? = some ')'
  /-- Its brackets are balanced. -/
  balanced : Balanced clause
  /-- No marker is found in it. -/
  unmarked : Marker.find? clause = none
  /-- It has no more bytes than the limit. -/
  fits : clause.byteLength ≤ limit

/-- A group without markers that fits is a clause. -/
theorem Bracket.IsGroup.isClause {limit : Nat} {clause : Text} (group : IsGroup clause)
    (unmarked : Unmarked clause) (fits : clause.byteLength ≤ limit) : IsClause limit clause := by
  have balanced := group.balanced
  obtain ⟨inner, rfl, -⟩ := group
  exact ⟨rfl, List.getLast?_concat, balanced, unmarked.find?_eq_none, fits⟩

namespace ClauseStore

variable {maxExpansion maxStored : Nat} {store next : ClauseStore} {text rule : Text}

/-- The stores that are reached from an empty one by taking groups out of texts. -/
inductive Reached (maxExpansion maxStored : Nat) : ClauseStore → Prop where
  | empty : Reached maxExpansion maxStored { maxExpansion, maxStored }
  | extract {store next : ClauseStore} {text rule : Text}
      (before : Reached maxExpansion maxStored store)
      (success : store.extract text = .ok (rule, next)) : Reached maxExpansion maxStored next

/-- The store is sound under the limits, its clauses fit, and their bytes are counted. -/
structure Counts (maxExpansion maxStored : Nat) (store : ClauseStore) : Prop
    extends Sound store where
  /-- The limit of an expansion is the one given. -/
  expansion : store.maxExpansion = maxExpansion
  /-- The limit of all clauses is the one given. -/
  storage : store.maxStored = maxStored
  /-- No clause is longer than an expansion may be. -/
  fits : ∀ clause ∈ store.clauses, clause.byteLength ≤ maxExpansion
  /-- The bytes of all clauses are counted. -/
  counted : store.stored = (store.clauses.toList.map Text.byteLength).sum
  /-- They are no more than may be stored. -/
  room : store.stored ≤ maxStored

/-- A store without clauses counts none. -/
theorem counts_empty : Counts maxExpansion maxStored { maxExpansion, maxStored } where
  grouped := fun clause mem => by simp at mem
  unmarked := fun clause mem => by simp at mem
  expansion := rfl
  storage := rfl
  fits := fun clause mem => by simp at mem
  counted := rfl
  room := Nat.zero_le maxStored

/-- A stored group without markers that fits is counted. -/
theorem Counts.push {clause marker : Text} (counts : store.Counts maxExpansion maxStored)
    (group : IsGroup clause) (unmarked : Unmarked clause) (fits : clause.byteLength ≤ maxExpansion)
    (success : store.push clause = .ok (marker, next)) : next.Counts maxExpansion maxStored := by
  have sound := counts.toSound.push group unmarked success
  have each := forall_clauses_of_push counts.fits fits success
  obtain ⟨room, -, rfl⟩ := push_eq_ok_iff.mp success
  rw [counts.storage] at room
  exact ⟨sound, counts.expansion, counts.storage, each, by simp [counts.counted], room⟩

/-- Groups that are taken out of any text are counted. -/
theorem Counts.extract (counts : store.Counts maxExpansion maxStored)
    (success : store.extract text = .ok (rule, next)) : next.Counts maxExpansion maxStored := by
  refine invariant_of_extract (fun counts free expansion pushed => ?_) counts success
  obtain ⟨unmarked, abridges⟩ := abridges_of_expand counts.toSound expansion
  have fits := (expandWithin_of_expand expansion).2
  rw [counts.expansion] at fits
  exact counts.push (abridges.isGroup (isGroup_of_free free)) unmarked fits pushed

/-- Every reached store counts its clauses. -/
theorem Reached.counts (reached : Reached maxExpansion maxStored store) :
    store.Counts maxExpansion maxStored := by
  induction reached with
  | empty => exact counts_empty
  | extract before success ih => exact ih.extract success

/-- An expansion is what its passes give, if that fits. -/
theorem ExpandsIn.expand_eq {passes : Nat} {outcome : Except RuleError Text}
    (expands : store.ExpandsIn passes text outcome) (few : passes ≤ store.clauses.size + 1) :
    store.expand text = outcome >>= fun expanded =>
      if store.maxExpansion < expanded.byteLength then
        .error (.exceeded (.expansion store.maxExpansion))
      else .ok expanded := by
  rw [expand, expands.expandWithin few]
  rfl

/-- In every reached store each clause is a balanced text in brackets, without markers and no longer
than an expansion may be, and the bytes of all clauses are counted and no more than may be stored.
So any text is expanded in at most one pass, and what is expanded has no marker and fits. -/
theorem clauses_and_passes_of_reached (reached : Reached maxExpansion maxStored store) :
    (∀ clause ∈ store.clauses, IsClause maxExpansion clause) ∧
      store.stored = (store.clauses.toList.map Text.byteLength).sum ∧ store.stored ≤ maxStored ∧
      ∀ text,
        (∃ passes outcome, passes ≤ 1 ∧ store.ExpandsIn passes text outcome ∧
          store.expand text = outcome >>= fun expanded =>
            if maxExpansion < expanded.byteLength then .error (.exceeded (.expansion maxExpansion))
            else .ok expanded) ∧
        ∀ expanded, store.expand text = .ok expanded →
          Marker.find? expanded = none ∧ expanded.byteLength ≤ maxExpansion := by
  have counts := reached.counts
  have limit := counts.expansion
  refine ⟨fun clause mem => ?_, counts.counted, counts.room, fun text => ⟨?_, ?_⟩⟩
  · exact (counts.grouped clause mem).isClause (counts.unmarked clause mem) (counts.fits clause mem)
  · obtain ⟨passes, outcome, few, expands⟩ := counts.toSound.exists_expandsIn text
    rw [← limit]
    exact ⟨passes, outcome, few, expands, expands.expand_eq (by omega)⟩
  · intro expanded success
    have fits := (expandWithin_of_expand success).2
    rw [limit] at fits
    exact ⟨(abridges_of_expand counts.toSound success).1.find?_eq_none, fits⟩

/-- Groups are taken out of two texts that hold markers. A clause that was written with a marker has
the group of the first text in its place, and so has what is expanded. -/
theorem clauses_and_passes_of_two_texts :
    let clauses := #["(a)".toList, "(b)".toList, "((b) or (a))".toList]
    let store : ClauseStore := { maxExpansion := 20, maxStored := 18, clauses, stored := 18 }
    Reached 20 18 store ∧ (∀ clause ∈ store.clauses, IsClause 20 clause) ∧
      store.stored = (store.clauses.toList.map Text.byteLength).sum ∧
      store.expand "@<2>@ and @<0>@".toList = .ok "((b) or (a)) and (a)".toList ∧
      Marker.find? "((b) or (a)) and (a)".toList = none := by
  have expansion : ClauseStore.expand
      { maxExpansion := 20
        maxStored := 18
        clauses := #["(a)".toList, "(b)".toList, "((b) or (a))".toList]
        stored := 18 } "@<2>@ and @<0>@".toList = .ok "((b) or (a)) and (a)".toList := by rfl
  intro clauses store
  have first : ClauseStore.extract { maxExpansion := 20, maxStored := 18 } "(a) and @<0>@".toList =
      .ok ("@<0>@ and @<0>@".toList,
        { maxExpansion := 20, maxStored := 18, clauses := #["(a)".toList], stored := 3 }) := by rfl
  have second : ClauseStore.extract
      { maxExpansion := 20, maxStored := 18, clauses := #["(a)".toList], stored := 3 }
      "x or ((b) or @<0>@)".toList = .ok ("x or @<2>@".toList, store) := by rfl
  have reached : Reached 20 18 store := .extract (.extract .empty first) second
  obtain ⟨each, counted, -, expands⟩ := clauses_and_passes_of_reached reached
  exact ⟨reached, each, counted, expansion, ((expands _).2 _ expansion).1⟩

end ClauseStore

end AccessRules
