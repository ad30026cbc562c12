import AccessRules.Proofs.Rule.Storage

/-!
# Answers with a store

Reading a part of a rule takes a store and gives it back larger. A result answers what is expected
at a cost if it is the expected refusal, or the expected value with a store that grew by no more
than the cost. Answers to the steps of a computation make an answer to the whole, and what the
steps before do not use is room for those after.
-/
namespace AccessRules

namespace ClauseStore

variable {α β : Type} {store : ClauseStore}

/-- The store has room for texts of so many bytes and for so many bytes of further clauses. -/
structure HasRoom (store : ClauseStore) (bytes cost : Nat) : Prop where
  /-- An expansion may have so many bytes. -/
  length : bytes ≤ store.maxExpansion
  /-- Clauses may have so many bytes more. -/
  stored : store.stored + cost ≤ store.maxStored

/-- Room for more is room for less. -/
theorem HasRoom.weaken {bytes cost fewer less : Nat} (room : store.HasRoom bytes cost)
    (short : fewer ≤ bytes) (cheap : less ≤ cost) : store.HasRoom fewer less :=
  ⟨Nat.le_trans short room.length, Nat.le_trans (Nat.add_le_add_left cheap _) room.stored⟩

/-- What is not used stays free. -/
theorem HasRoom.after {bytes first second : Nat} {next : ClauseStore}
    (room : store.HasRoom bytes (first + second)) (grows : store.Grows first next) :
    next.HasRoom bytes second := by
  have length := room.length
  have stored := room.stored
  have less := grows.stored
  constructor
  · rw [grows.maxExpansion]
    exact length
  · rw [grows.maxStored]
    omega

/-- The result is the expected value with a store that grew by no more than the cost, or the
expected refusal. -/
def Answers (store : ClauseStore) (cost : Nat) :
    Except RuleError α → Except RuleError (α × ClauseStore) → Prop
  | .ok value, result => ∃ next, result = .ok (value, next) ∧ store.Grows cost next
  | .error error, result => result = .error error

namespace Answers

/-- A value is an answer that costs nothing. -/
theorem pure (store : ClauseStore) (value : α) :
    store.Answers 0 (.ok value) (.ok (value, store)) :=
  ⟨store, rfl, .refl store⟩

/-- An answer costs no more than a higher cost. -/
theorem weaken {cost bound : Nat} {expected : Except RuleError α}
    {result : Except RuleError (α × ClauseStore)} (answers : store.Answers cost expected result)
    (less : cost ≤ bound) : store.Answers bound expected result := by
  cases expected with
  | error error => exact answers
  | ok value =>
    obtain ⟨next, success, grows⟩ := answers
    exact ⟨next, success, grows.weaken less⟩

/-- An answer from a store that grew before is one from the store before. -/
theorem after {first second : Nat} {middle : ClauseStore} {expected : Except RuleError α}
    {result : Except RuleError (α × ClauseStore)} (grows : store.Grows first middle)
    (answers : middle.Answers second expected result) :
    store.Answers (first + second) expected result := by
  cases expected with
  | error error => exact answers
  | ok value =>
    obtain ⟨next, success, growth⟩ := answers
    exact ⟨next, success, grows.trans growth⟩

/-- What answers step by step answers as a whole. -/
theorem bind {first second : Nat} {expected : Except RuleError α}
    {result : Except RuleError (α × ClauseStore)} {next : α → Except RuleError β}
    {further : α × ClauseStore → Except RuleError (β × ClauseStore)}
    (answers : store.Answers first expected result)
    (later : ∀ value middle, store.Grows first middle →
      middle.Answers second (next value) (further (value, middle))) :
    store.Answers (first + second) (expected >>= next) (result >>= further) := by
  cases expected with
  | error error =>
    rw [show result = .error error from answers]
    rfl
  | ok value =>
    obtain ⟨middle, rfl, grows⟩ := answers
    exact after grows (later value middle grows)

/-- A value that is made from an answer costs no more. -/
theorem map {cost : Nat} {expected : Except RuleError α}
    {result : Except RuleError (α × ClauseStore)} (answers : store.Answers cost expected result)
    (make : α → β) :
    store.Answers cost (expected >>= fun value => .ok (make value))
      (result >>= fun answer => .ok (make answer.1, answer.2)) := by
  cases expected with
  | error error =>
    rw [show result = .error error from answers]
    rfl
  | ok value =>
    obtain ⟨next, rfl, grows⟩ := answers
    exact ⟨next, rfl, grows⟩

/-- Without its store an answer is what was expected. -/
theorem value {cost : Nat} {expected : Except RuleError α}
    {result : Except RuleError (α × ClauseStore)} (answers : store.Answers cost expected result) :
    (result >>= fun answer => .ok answer.1) = expected := by
  cases expected with
  | error error =>
    rw [show result = .error error from answers]
    rfl
  | ok value =>
    obtain ⟨next, rfl, grows⟩ := answers
    rfl

end Answers

/-! ## Possible outcomes -/

/-- The result is one of the outcomes that are expected, with a store that grew by no more than the
cost, or the refusal of a store that may not grow as much. -/
abbrev Gives (store : ClauseStore) (cost : Nat) (expected : Except RuleError α → Prop) :
    Except RuleError (α × ClauseStore) → Prop :=
  store.Yields cost (fun value _ => expected (.ok value)) fun error => expected (.error error)

namespace Gives

/-- A value that is made from an outcome costs no more. -/
theorem map {cost : Nat} {expected : Except RuleError α → Prop}
    {possible : Except RuleError β → Prop} {result : Except RuleError (α × ClauseStore)}
    (gives : store.Gives cost expected result) (make : α → β)
    (kept : ∀ outcome, expected outcome → possible (outcome >>= fun value => .ok (make value))) :
    store.Gives cost possible (result >>= fun answer => .ok (make answer.1, answer.2)) := by
  show store.Yields (cost + 0) _ _ _
  refine Yields.bind gives (fun error => kept (.error error)) fun value next known _ => ?_
  exact Yields.pure (kept (.ok value) known)

/-- With room for the cost, the only outcome that is expected is the answer. -/
theorem answers {cost : Nat} {expected : Except RuleError α}
    {result : Except RuleError (α × ClauseStore)} (gives : store.Gives cost (· = expected) result)
    (room : store.stored + cost ≤ store.maxStored) : store.Answers cost expected result := by
  cases result with
  | ok answer =>
    obtain ⟨rfl, grows⟩ := gives
    exact ⟨_, rfl, grows⟩
  | error error =>
    rcases gives with rfl | ⟨-, full⟩
    · rfl
    · exact absurd room (Nat.not_le_of_lt full)

end Gives

end ClauseStore

end AccessRules
