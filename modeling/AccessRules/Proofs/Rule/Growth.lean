import AccessRules.Proofs.Rule.Expansion

/-!
# Growth of clause stores

Reading only adds clauses to a store. What a step adds is bounded before it is known whether the
store may hold that much: either the step does what is expected of it and stays within the bound,
or the store is too small for the bound and says so. Bounds of steps one after another add up.
-/
namespace AccessRules

namespace ClauseStore

variable {store : ClauseStore}

/-! ## Growth -/

/-- What reading does to a store: names stay, limits stay, and few bytes are added. -/
structure Grows (store : ClauseStore) (cost : Nat) (next : ClauseStore) : Prop where
  /-- Clauses keep their names. -/
  names : ∀ digits clause, store.Names digits clause → next.Names digits clause
  /-- The limit of an expansion stays. -/
  maxExpansion : next.maxExpansion = store.maxExpansion
  /-- The limit of all clauses stays. -/
  maxStored : next.maxStored = store.maxStored
  /-- No more bytes are added than stated. -/
  stored : next.stored ≤ store.stored + cost

namespace Grows

/-- Nothing is added. -/
theorem refl (store : ClauseStore) : store.Grows 0 store :=
  ⟨fun _ _ => id, rfl, rfl, Nat.le_refl _⟩

/-- One growth after another. -/
theorem trans {middle next : ClauseStore} {first second : Nat} (before : store.Grows first middle)
    (after : middle.Grows second next) : store.Grows (first + second) next := by
  have less := before.stored
  have more := after.stored
  exact ⟨fun digits clause named => after.names _ _ (before.names _ _ named),
    after.maxExpansion.trans before.maxExpansion, after.maxStored.trans before.maxStored, by omega⟩

/-- More may be stated than is added. -/
theorem weaken {next : ClauseStore} {cost bound : Nat} (grows : store.Grows cost next)
    (less : cost ≤ bound) : store.Grows bound next :=
  ⟨grows.names, grows.maxExpansion, grows.maxStored, Nat.le_trans grows.stored (by omega)⟩

end Grows

/-- The digits of an index read back as the index. -/
theorem index?_decimal (index : Nat) : Marker.index? (Text.decimal index) = some index := by
  have digits : (Text.decimal index).all Char.isDigit = true :=
    List.all_eq_true.mpr (Marker.isNumber_decimal index).2
  rw [Marker.index?, digits, Text.ofDigits_decimal]
  rfl

/-- A stored clause gets a name of its own, and clauses before keep theirs. -/
theorem names_of_push {clause marker : Text} {next : ClauseStore}
    (success : store.push clause = .ok (marker, next)) :
    (∀ digits other, store.Names digits other → next.Names digits other) ∧
      next.Names (Text.decimal store.clauses.size) clause := by
  obtain ⟨-, clauses⟩ := eq_of_push success
  constructor
  · intro digits other named
    obtain ⟨index, indexed, found⟩ := Option.bind_eq_some_iff.mp named
    have inside : index < store.clauses.size := (Array.getElem?_eq_some_iff.mp found).1
    refine Option.bind_eq_some_iff.mpr ⟨index, indexed, ?_⟩
    rw [clauses, Array.getElem?_push_lt inside]
    exact (Array.getElem?_eq_getElem inside).symm.trans found
  · refine Option.bind_eq_some_iff.mpr ⟨store.clauses.size, index?_decimal _, ?_⟩
    simp [clauses]

/-! ## Bounded growth -/

section

variable {α β : Type} {good : α → ClauseStore → Prop} {bad : RuleError → Prop}
  {better : β → ClauseStore → Prop} {worse : RuleError → Prop}

/-- The result is a good value with a store that grew by no more than the cost, a bad error, or the
refusal of a store that may not grow as much. -/
def Yields (store : ClauseStore) (cost : Nat) (good : α → ClauseStore → Prop)
    (bad : RuleError → Prop) : Except RuleError (α × ClauseStore) → Prop
  | .ok (value, next) => good value next ∧ store.Grows cost next
  | .error error => bad error ∨
    error = .exceeded (.groups store.maxStored) ∧ store.maxStored < store.stored + cost

namespace Yields

/-- A good value costs nothing. -/
theorem pure {value : α} (known : good value store) :
    store.Yields 0 good bad (.ok (value, store)) :=
  ⟨known, .refl store⟩

/-- More is good or bad, and more may be stated than it costs. -/
theorem mono {cost bound : Nat} {other : α → ClauseStore → Prop}
    {result : Except RuleError (α × ClauseStore)} (yields : store.Yields cost good bad result)
    (fine : ∀ value next, good value next → other value next)
    (fails : ∀ error, bad error → worse error) (less : cost ≤ bound) :
    store.Yields bound other worse result := by
  cases result with
  | ok answer => exact ⟨fine _ _ yields.1, yields.2.weaken less⟩
  | error error =>
    rcases yields with failed | ⟨same, full⟩
    · exact .inl (fails error failed)
    · exact .inr ⟨same, Nat.lt_of_lt_of_le full (Nat.add_le_add_left less _)⟩

/-- More may be stated than it costs. -/
theorem weaken {cost bound : Nat} {result : Except RuleError (α × ClauseStore)}
    (yields : store.Yields cost good bad result) (less : cost ≤ bound) :
    store.Yields bound good bad result :=
  yields.mono (fun _ _ => id) (fun _ => id) less

/-- A value that is given may be known to be the one that the computation gives. -/
theorem with_success {cost : Nat} {result : Except RuleError (α × ClauseStore)}
    (yields : store.Yields cost good bad result) :
    store.Yields cost (fun value next => result = .ok (value, next) ∧ good value next) bad
      result := by
  cases result with
  | ok answer => exact ⟨⟨rfl, yields.1⟩, yields.2⟩
  | error error => exact yields

/-- Costs from a store that grew before add up. -/
theorem after {first second : Nat} {middle : ClauseStore}
    {result : Except RuleError (α × ClauseStore)} (grows : store.Grows first middle)
    (yields : middle.Yields second good bad result) :
    store.Yields (first + second) good bad result := by
  cases result with
  | ok answer => exact ⟨yields.1, grows.trans yields.2⟩
  | error error =>
    rcases yields with failed | ⟨same, full⟩
    · exact .inl failed
    · have less := grows.stored
      rw [grows.maxStored] at same full
      exact .inr ⟨same, by omega⟩

/-- Costs of steps one after another add up. -/
theorem bind {first second : Nat} {result : Except RuleError (α × ClauseStore)}
    {further : α × ClauseStore → Except RuleError (β × ClauseStore)}
    (yields : store.Yields first good bad result) (fails : ∀ error, bad error → worse error)
    (later : ∀ value middle, good value middle → store.Grows first middle →
      middle.Yields second better worse (further (value, middle))) :
    store.Yields (first + second) better worse (result >>= further) := by
  cases result with
  | ok answer => exact after yields.2 (later _ _ yields.1 yields.2)
  | error error =>
    rcases yields with failed | ⟨same, full⟩
    · exact .inl (fails error failed)
    · exact .inr ⟨same, by omega⟩

/-- With room for the cost and no errors, the result is a good value. -/
theorem of_room {cost : Nat} {result : Except RuleError (α × ClauseStore)}
    (yields : store.Yields cost good (fun _ => False) result)
    (room : store.stored + cost ≤ store.maxStored) :
    ∃ value next, result = .ok (value, next) ∧ store.Grows cost next ∧ good value next := by
  cases result with
  | ok answer => exact ⟨_, _, rfl, yields.2, yields.1⟩
  | error error =>
    rcases yields with failed | ⟨-, full⟩
    · exact failed.elim
    · exact absurd room (Nat.not_le_of_lt full)

end Yields

end

/-- A clause is stored under a name of its own if there is room. -/
theorem push_yields (store : ClauseStore) (clause : Text) :
    store.Yields clause.byteLength
      (fun marker next => marker = Marker.render store.clauses.size ∧
        next.Names (Text.decimal store.clauses.size) clause)
      (fun _ => False) (store.push clause) := by
  by_cases full : store.maxStored < store.stored + clause.byteLength
  · have refused : store.push clause = .error (.exceeded (.groups store.maxStored)) := by
      simp [push, full]
    rw [refused]
    exact .inr ⟨rfl, full⟩
  · let next : ClauseStore := { store with
      clauses := store.clauses.push clause, stored := store.stored + clause.byteLength }
    have success : store.push clause = .ok (Marker.render store.clauses.size, next) := by
      simp [push, full, next]
    obtain ⟨names, named⟩ := names_of_push success
    rw [success]
    exact ⟨⟨rfl, named⟩, names, rfl, rfl, Nat.le_refl _⟩

end ClauseStore

end AccessRules
