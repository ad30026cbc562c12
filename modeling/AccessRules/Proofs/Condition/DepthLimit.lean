import AccessRules.Proofs.Condition.ElementForm
import AccessRules.Proofs.Grammar.DisplayedRules

/-!
# The depth of what is read

Whether a tree is read from rule text, from an element or from a document, it has no more levels
than the limits let reading open. Its element opens one level for each level of the tree, so a tree
that was read is never too deep to be read from its element under the same limits.
-/
namespace AccessRules

variable {Leaf : Type}

/-! ## Traversals -/

/-- What a traversal gives is given by members of the list. -/
theorem exists_of_mapM {α β : Type} {read : α → Except RuleError β} {sources : List α}
    {answers : List β} (success : sources.mapM read = .ok answers) :
    ∀ answer ∈ answers, ∃ source ∈ sources, read source = .ok answer := by
  induction sources generalizing answers with
  | nil =>
    obtain rfl := Except.ok.inj success
    simp
  | cons source sources ih =>
    rw [List.mapM_cons, bind_eq_ok] at success
    obtain ⟨first, answered, further⟩ := success
    obtain ⟨rest, others, same⟩ := bind_eq_ok.mp further
    obtain rfl := Except.ok.inj same
    intro answer mem
    cases List.mem_cons.mp mem with
    | inl here => exact ⟨source, by simp, here ▸ answered⟩
    | inr there =>
      obtain ⟨other, among, given⟩ := ih others answer there
      exact ⟨other, List.mem_cons_of_mem _ among, given⟩

/-- A traversal succeeds if every member of the list is read. -/
theorem exists_mapM {α β : Type} {read : α → Except RuleError β} {sources : List α}
    (each : ∀ source ∈ sources, ∃ answer, read source = .ok answer) :
    ∃ answers, sources.mapM read = .ok answers := by
  induction sources with
  | nil => exact ⟨[], rfl⟩
  | cons source sources ih =>
    obtain ⟨answer, first⟩ := each source (by simp)
    obtain ⟨answers, rest⟩ := ih fun other mem => each other (List.mem_cons_of_mem _ mem)
    refine ⟨answer :: answers, ?_⟩
    rw [List.mapM_cons, first, rest]
    rfl

/-! ## Single leaves -/

/-- Elements are answered with leaves and literals only. -/
def ElementReader.IsSingle (elements : ElementReader Leaf) : Prop :=
  ∀ element condition, elements element = .ok (some condition) → condition.IsSingle

/-- A leaf or a literal has one level. -/
theorem Condition.IsSingle.depth_eq {condition : Condition Leaf} (single : condition.IsSingle) :
    condition.depth = 1 := by
  cases condition with
  | literal | leaf => rfl
  | not | and | or => exact single.elim

namespace Reader

variable {reader : Reader Leaf}

/-- Whatever the readers of leaves answer is a leaf or a literal. -/
structure IsSingle (reader : Reader Leaf) : Prop where
  /-- So do the readers of tokens. -/
  tokens : ∀ tokens ∈ reader.tokenReaders, tokens.IsSingle
  /-- So do the readers of elements. -/
  elements : ∀ elements ∈ reader.elementReaders, elements.IsSingle

/-- Tokens are read as trees of one level. -/
theorem IsSingle.isShallow (single : reader.IsSingle) : reader.IsShallow := by
  intro token condition accepted
  exact (isSingle_of_readToken single.tokens accepted).depth_eq.le

/-- The element of a leaf is read as a leaf or a literal. -/
theorem IsSingle.of_readLeafElement (single : reader.IsSingle) {element : Markup.Element}
    {condition : Condition Leaf} (accepted : reader.readLeafElement element = .ok condition) :
    condition.IsSingle := by
  obtain ⟨first, found, further⟩ := bind_eq_ok.mp accepted
  cases first with
  | none => contradiction
  | some value =>
    obtain rfl : value = condition := by simpa [pure, Except.pure] using further
    obtain ⟨elements, mem, answered⟩ := exists_of_firstAnswer found
    exact single.elements elements mem _ _ answered

/-! ## The depth of read trees -/

/-- Operands that are read of elements are no deeper than what reads them allows. -/
theorem depthOfAll_of_mapM {levels : Nat}
    {read : Markup.Element → Except RuleError (Condition Leaf)}
    (within : ∀ element condition, read element = .ok condition → condition.depth ≤ levels)
    {elements : List Markup.Element} {operands : List (Condition Leaf)}
    (success : elements.mapM read = .ok operands) : Condition.depthOfAll operands ≤ levels := by
  rw [Condition.depthOfAll_le_iff]
  intro operand mem
  obtain ⟨element, -, answered⟩ := exists_of_mapM success operand mem
  exact within element operand answered

/-- What is read of an element at some levels is no deeper. -/
theorem depth_le_of_readElementWithin (single : reader.IsSingle) (levels : Nat) :
    ∀ element condition, reader.readElementWithin levels element = .ok condition →
      condition.depth ≤ levels := by
  induction levels with
  | zero =>
    intro element condition success
    contradiction
  | succ levels ih =>
    intro element condition success
    have least : 1 ≤ levels + 1 := Nat.le_add_left 1 levels
    have leaf (accepted : reader.readLeafElement element = .ok condition) :
        condition.depth ≤ levels + 1 := (single.of_readLeafElement accepted).depth_eq.trans_le least
    rw [readElementWithin] at success
    split at success
    case isFalse => exact leaf success
    case isTrue =>
      split at success
      · contradiction
      split at success
      · obtain rfl := Except.ok.inj success
        exact least
      · split at success
        · contradiction
        obtain ⟨operand, answered, same⟩ := bind_eq_ok.mp success
        obtain rfl := Except.ok.inj same
        exact Nat.succ_le_succ (ih _ _ answered)
      · obtain ⟨operands, answered, same⟩ := bind_eq_ok.mp success
        obtain rfl := Except.ok.inj same
        exact Nat.succ_le_succ (depthOfAll_of_mapM ih answered)
      · obtain ⟨operands, answered, same⟩ := bind_eq_ok.mp success
        obtain rfl := Except.ok.inj same
        exact Nat.succ_le_succ (depthOfAll_of_mapM ih answered)
      · exact leaf success

/-- The tree is what the reader makes of some rule. -/
inductive Compiles (reader : Reader Leaf) (tree : Condition Leaf) : Prop where
  /-- It is read of rule text. -/
  | text (rule : Text) (accepted : reader.read rule = .ok tree)
  /-- It is read of an element, or of none. -/
  | element (source : Option Markup.Element) (accepted : reader.readElement? source = .ok tree)
  /-- It is read of the root of a document. -/
  | document (document : Text) (accepted : reader.readDocument document = .ok tree)

/-- A compiled tree is no deeper than the levels that the limits allow. -/
theorem depth_le_of_compiles (single : reader.IsSingle) {tree : Condition Leaf}
    (compiled : reader.Compiles tree) : tree.depth ≤ reader.limits.levels := by
  cases compiled with
  | text rule accepted => exact depth_le_of_read single.isShallow accepted
  | element source accepted =>
    cases source with
    | none =>
      obtain rfl := Except.ok.inj accepted
      exact Nat.le_add_left 1 _
    | some element => exact depth_le_of_readElementWithin single _ _ _ accepted
  | document document accepted =>
    unfold readDocument at accepted
    split at accepted
    · contradiction
    split at accepted
    · contradiction
    · exact depth_le_of_readElementWithin single _ _ _ accepted

/-! ## Reading the element of a tree -/

section

variable {Subject : Type} [Predicate Leaf Subject]

/-- The element of the leaf stands for no operator, and some reader of elements knows it. -/
structure Resolves (reader : Reader Leaf) (leaf : Leaf) : Prop where
  /-- It has another name than operators have. -/
  foreign : (Predicate.toElement leaf).name ≠ operatorElement
  /-- It is read, as whatever it may be. -/
  answered : ∃ answer, reader.readLeafElement (Predicate.toElement leaf) = .ok answer

/-- What is made of something read is read too. -/
theorem exists_bind {α β : Type} {first : Except RuleError α} {form : α → β}
    (known : ∃ value, first = .ok value) :
    ∃ value, (first >>= fun value => pure (form value)) = .ok value := by
  obtain ⟨value, success⟩ := known
  exact ⟨form value, bind_eq_ok.mpr ⟨value, success, rfl⟩⟩

mutual

/-- The element of a tree is read at as many levels as the tree is deep, if its leaves are. -/
theorem exists_readElementWithin {levels : Nat} (tree : Condition Leaf)
    (resolved : ∀ leaf ∈ tree.leaves, reader.Resolves leaf) (deep : tree.depth ≤ levels) :
    ∃ answer, reader.readElementWithin levels tree.toElement = .ok answer := by
  obtain ⟨levels, rfl⟩ := Nat.exists_eq_add_of_le' (tree.depth_pos.trans_le deep)
  match tree with
  | .literal value =>
    rw [Condition.toElement, readElementWithin_operator]
    exact ⟨.literal value, rfl⟩
  | .not operand =>
    rw [Condition.toElement, readElementWithin_operator]
    exact exists_bind (exists_readElementWithin operand resolved (Nat.le_of_succ_le_succ deep))
  | .and operands =>
    rw [Condition.toElement, readElementWithin_operator]
    exact exists_bind (exists_mapM
      (exists_readElementWithin_of_mem operands resolved (Nat.le_of_succ_le_succ deep)))
  | .or operands =>
    rw [Condition.toElement, readElementWithin_operator]
    exact exists_bind (exists_mapM
      (exists_readElementWithin_of_mem operands resolved (Nat.le_of_succ_le_succ deep)))
  | .leaf predicate =>
    have known := resolved predicate (by simp [Condition.leaves])
    rw [Condition.toElement, readElementWithin, if_neg known.foreign]
    exact known.answered

/-- The elements of trees are read at as many levels as the highest of them has. -/
theorem exists_readElementWithin_of_mem {levels : Nat} (trees : List (Condition Leaf))
    (resolved : ∀ leaf ∈ Condition.leavesOfAll trees, reader.Resolves leaf)
    (deep : Condition.depthOfAll trees ≤ levels) :
    ∀ element ∈ Condition.toElements trees,
      ∃ answer, reader.readElementWithin levels element = .ok answer := by
  match trees with
  | [] => simp [Condition.toElements]
  | first :: rest =>
    rw [Condition.toElements]
    intro element mem
    cases List.mem_cons.mp mem with
    | inl here =>
      rw [here]
      exact exists_readElementWithin first
        (fun leaf inside => resolved leaf (by simp [Condition.leavesOfAll, inside]))
        ((Nat.le_max_left _ _).trans deep)
    | inr there =>
      exact exists_readElementWithin_of_mem rest
        (fun leaf inside => resolved leaf (by simp [Condition.leavesOfAll, inside]))
        ((Nat.le_max_right _ _).trans deep) element there

end

/-- A tree that was read of rule text, of an element or of a document has at most one level more
than may be nested. So its element is never refused as too deep under the same limits: it is read
by every reader with these limits that knows the elements of its leaves. -/
theorem depth_le_and_readElement?_of_compiles (single : reader.IsSingle) {tree : Condition Leaf}
    (compiled : reader.Compiles tree) :
    tree.depth ≤ reader.limits.maxDepth + 1 ∧
      ∀ again : Reader Leaf, again.limits = reader.limits →
        (∀ leaf ∈ tree.leaves, again.Resolves leaf) →
          ∃ answer, again.readElement? (some tree.toElement) = .ok answer := by
  have deep : tree.depth ≤ reader.limits.levels := depth_le_of_compiles single compiled
  refine ⟨deep, ?_⟩
  intro again same resolved
  refine exists_readElementWithin tree resolved ?_
  rw [same]
  exact deep

end

open SubjectLeaf

/-- A negation that is read of rule text with one level of nesting has all the levels that this
allows, and is read of its element at the same limits. -/
theorem readElement?_of_negated_user :
    let tree : Condition SubjectLeaf := .not (.leaf (.user .equal "ann".toList))
    let reader := Reader.ofSubjects ⟨1, 100⟩
    reader.IsSingle ∧ reader.read "not user = ann".toList = .ok tree ∧
      (∀ leaf ∈ tree.leaves, reader.Resolves leaf) ∧ tree.depth = 2 ∧ tree.depth ≤ 1 + 1 ∧
      ∃ answer, reader.readElement? (some tree.toElement) = .ok answer := by
  intro tree reader
  have single : reader.IsSingle := by
    refine ⟨?_, ?_⟩
    · intro tokens mem
      obtain rfl : tokens = _ := List.mem_singleton.mp mem
      exact isSingle_tokenReader _
    · intro elements mem
      obtain rfl : elements = _ := List.mem_singleton.mp mem
      intro element condition answered
      exact isSingle_of_answer answered
  have accepted : reader.read "not user = ann".toList = .ok tree := by rfl
  have resolved : ∀ leaf ∈ tree.leaves, reader.Resolves leaf := by
    intro leaf mem
    obtain rfl : leaf = _ := List.mem_singleton.mp mem
    exact ⟨by decide, _, rfl⟩
  obtain ⟨deep, further⟩ := depth_le_and_readElement?_of_compiles single (.text _ accepted)
  exact ⟨single, accepted, resolved, rfl, deep, further reader rfl resolved⟩

end Reader

end AccessRules
