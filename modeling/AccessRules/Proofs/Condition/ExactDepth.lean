import AccessRules.Proofs.Condition.ElementForm
import AccessRules.Proofs.Subject.ElementForm

/-!
# The depth at which an element is read

The limits do not decide what the element of a condition is read as, only whether it is read. A
tree of any width comes back from its element exactly if it has no more levels than may be opened.
-/
namespace AccessRules.Reader

section

variable {Leaf Subject : Type} [Predicate Leaf Subject] {reader : Reader Leaf}

/-! ## Exact levels -/

/-- The element of the leaf stands for no operator and is read as that leaf. -/
structure ReadsBack (reader : Reader Leaf) (leaf : Leaf) : Prop where
  /-- It has another name than operators have. -/
  foreign : (Predicate.toElement leaf).name ≠ operatorElement
  /-- The readers of elements know it as the leaf. -/
  answer : reader.readLeafElement (Predicate.toElement leaf) = .ok (.leaf leaf)

/-- A value of some depth, refused if there are fewer levels than that. -/
def ofDepth {α : Type} (reader : Reader Leaf) (depth levels : Nat) (value : α) :
    Except RuleError α :=
  if depth ≤ levels then .ok value else .error (.exceeded (.nesting reader.limits.maxDepth))

/-- What is made of a value one level above it needs one level more. -/
theorem ofDepth_succ {α β : Type} (depth levels : Nat) (value : α) (form : α → β) :
    (reader.ofDepth depth levels value >>= fun value => pure (form value)) =
      reader.ofDepth (depth + 1) (levels + 1) (form value) := by
  unfold ofDepth
  by_cases shallow : depth ≤ levels
  · rw [if_pos shallow, if_pos (Nat.succ_le_succ shallow)]
    rfl
  · rw [if_neg shallow, if_neg (mt Nat.le_of_succ_le_succ shallow)]
    rfl

/-- What is made of two values beside each other needs the levels of the deeper one. -/
theorem ofDepth_max {α β γ : Type} (depth other levels : Nat) (value : α) (further : β)
    (form : α → β → γ) :
    (reader.ofDepth depth levels value >>= fun value =>
        reader.ofDepth other levels further >>= fun further => pure (form value further)) =
      reader.ofDepth (max depth other) levels (form value further) := by
  unfold ofDepth
  by_cases shallow : depth ≤ levels
  · by_cases both : other ≤ levels
    · rw [if_pos shallow, if_pos both, if_pos (Nat.max_le.mpr ⟨shallow, both⟩)]
      rfl
    · rw [if_pos shallow, if_neg both, if_neg fun low => both (Nat.max_le.mp low).2]
      rfl
  · rw [if_neg shallow, if_neg fun low => shallow (Nat.max_le.mp low).1]
    rfl

mutual

/-- The element of a tree is read as the tree, at as many levels as the tree is deep and at more. -/
theorem readElementWithin_eq_ofDepth (levels : Nat) (condition : Condition Leaf)
    (each : ∀ leaf ∈ condition.leaves, reader.ReadsBack leaf) :
    reader.readElementWithin levels condition.toElement =
      reader.ofDepth condition.depth levels condition := by
  cases levels with
  | zero =>
    rw [ofDepth, if_neg (Nat.not_le.mpr condition.depth_pos)]
    rfl
  | succ levels =>
    have once : 1 ≤ levels + 1 := Nat.le_add_left 1 levels
    match condition with
    | .literal value =>
      rw [Condition.toElement, readElementWithin_operator, ofDepth, Condition.depth, if_pos once]
    | .not operand =>
      rw [Condition.toElement, readElementWithin_operator]
      dsimp only [List.head?_cons]
      rw [readElementWithin_eq_ofDepth levels operand each]
      exact ofDepth_succ _ _ operand Condition.not
    | .and operands =>
      rw [Condition.toElement, readElementWithin_operator]
      dsimp only
      rw [mapM_readElementWithin_eq_ofDepth levels operands each]
      exact ofDepth_succ _ _ operands Condition.and
    | .or operands =>
      rw [Condition.toElement, readElementWithin_operator]
      dsimp only
      rw [mapM_readElementWithin_eq_ofDepth levels operands each]
      exact ofDepth_succ _ _ operands Condition.or
    | .leaf predicate =>
      have known := each predicate (by simp [Condition.leaves])
      rw [Condition.toElement, readElementWithin, if_neg known.foreign, known.answer, ofDepth,
        Condition.depth, if_pos once]

/-- The elements of trees are read as the trees, at as many levels as the highest of them has and
at more. -/
theorem mapM_readElementWithin_eq_ofDepth (levels : Nat) (operands : List (Condition Leaf))
    (each : ∀ leaf ∈ Condition.leavesOfAll operands, reader.ReadsBack leaf) :
    (Condition.toElements operands).mapM (reader.readElementWithin levels) =
      reader.ofDepth (Condition.depthOfAll operands) levels operands := by
  match operands with
  | [] => rfl
  | first :: rest =>
    have here := readElementWithin_eq_ofDepth levels first
      fun leaf mem => each leaf (by simp [Condition.leavesOfAll, mem])
    have others := mapM_readElementWithin_eq_ofDepth levels rest
      fun leaf mem => each leaf (by simp [Condition.leavesOfAll, mem])
    rw [Condition.toElements, List.mapM_cons, here, others]
    exact ofDepth_max _ _ levels first rest List.cons

end

/-- The element of a tree whose leaves are read back is read as that tree if the limits allow its
depth, and else refused since its parts nest too deep. -/
theorem readElement?_toElement (condition : Condition Leaf)
    (each : ∀ leaf ∈ condition.leaves, reader.ReadsBack leaf) :
    reader.readElement? (some condition.toElement) =
      if condition.depth ≤ reader.limits.maxDepth + 1 then .ok condition
      else .error (.exceeded (.nesting reader.limits.maxDepth)) :=
  readElementWithin_eq_ofDepth reader.limits.levels condition each

end

open SubjectLeaf

/-- A tree of depth three, with an empty conjunction and two leaves, is read back if two levels of
nesting are allowed and refused if only one is. -/
theorem readElement?_at_its_depth :
    let tree : Condition SubjectLeaf :=
      .or [.and [], .not (.leaf (.user .equal "ann".toList)),
        .and [.literal true, .leaf (.network ⟨.v4 0x0A000000, 8, by decide⟩)]]
    let reader := Reader.ofSubjects
    (∀ limits, ∀ leaf ∈ tree.leaves, (reader limits).ReadsBack leaf) ∧ tree.depth = 3 ∧
      (reader ⟨2, 0⟩).readElement? (some tree.toElement) = .ok tree ∧
      (reader ⟨1, 0⟩).readElement? (some tree.toElement) = .error (.exceeded (.nesting 1)) := by
  intro tree reader
  have each : ∀ limits, ∀ leaf ∈ tree.leaves, (reader limits).ReadsBack leaf := by
    intro limits leaf mem
    have leaves : leaf = .user .equal "ann".toList ∨
        leaf = .network ⟨.v4 0x0A000000, 8, by decide⟩ := by
      simpa [tree, Condition.leaves, Condition.leavesOfAll] using mem
    rcases leaves with rfl | rfl
    · exact ⟨by decide, rfl⟩
    · exact ⟨by decide, rfl⟩
  exact ⟨each, rfl, readElement?_toElement tree (each ⟨2, 0⟩),
    readElement?_toElement tree (each ⟨1, 0⟩)⟩

end AccessRules.Reader
