import AccessRules.Proofs.Grammar.Display
import AccessRules.Proofs.Subject.QuotedName

/-!
# Accepted rules are displayed as themselves

What a rule is read as can be displayed and read again. Every junction of an accepted rule has two
operands or more, so its keyword stands in the displayed text, and each level of the tree is one
level of brackets there. Leaves are displayed by their own type, so each has to come back from its
own text.
-/
namespace AccessRules

open AccessRules.Bracket

variable {Leaf Subject : Type} {reader : Reader Leaf}

/-! ## Readers that answer single leaves -/

/-- The condition is a leaf or a literal. -/
def Condition.IsSingle : Condition Leaf → Prop
  | .literal _ | .leaf _ => True
  | .not _ | .and _ | .or _ => False

/-- Tokens are answered with leaves and literals only. -/
def TokenReader.IsSingle (tokens : TokenReader Leaf) : Prop :=
  ∀ token condition, tokens token = .ok (some condition) → condition.IsSingle

/-- The first answer is the answer of one of the readers. -/
theorem exists_of_firstAnswer {α β : Type} {source : α} {answer : β}
    {readers : List (α → Except RuleError (Option β))}
    (found : firstAnswer source readers = .ok (some answer)) :
    ∃ reader ∈ readers, reader source = .ok (some answer) := by
  induction readers with
  | nil => simp [firstAnswer] at found
  | cons reader readers ih =>
    obtain ⟨first, success, further⟩ := bind_eq_ok.mp found
    cases first with
    | none =>
      obtain ⟨other, mem, answered⟩ := ih further
      exact ⟨other, List.mem_cons_of_mem _ mem, answered⟩
    | some value =>
      obtain rfl : value = answer := by simpa [pure, Except.pure] using further
      exact ⟨reader, by simp, success⟩

/-- A token is a leaf or a literal if all readers of tokens answer so. -/
theorem Reader.isSingle_of_readToken (single : ∀ tokens ∈ reader.tokenReaders, tokens.IsSingle)
    {token : Text} {condition : Condition Leaf}
    (accepted : reader.readToken token = .ok condition) : condition.IsSingle := by
  unfold readToken at accepted
  split at accepted
  · obtain rfl := Except.ok.inj accepted
    trivial
  split at accepted
  · obtain rfl := Except.ok.inj accepted
    trivial
  obtain ⟨first, found, further⟩ := bind_eq_ok.mp accepted
  cases first with
  | none => contradiction
  | some value =>
    obtain rfl : value = condition := by simpa [pure, Except.pure] using further
    obtain ⟨tokens, mem, answered⟩ := exists_of_firstAnswer found
    exact single tokens mem _ _ answered

/-- An answer with a leaf over subjects is a single leaf. -/
theorem SubjectLeaf.isSingle_of_answer {embed : SubjectLeaf → Leaf} {source : Text}
    {result : Except LeafFault (Option SubjectLeaf)} {condition : Condition Leaf}
    (answered : answer embed source result = .ok (some condition)) : condition.IsSingle := by
  unfold answer at answered
  split at answered
  · contradiction
  · obtain ⟨leaf, -, rfl⟩ := Option.map_eq_some_iff.mp (Except.ok.inj answered)
    trivial

/-- Tokens of leaves over subjects are answered with single leaves. -/
theorem SubjectLeaf.isSingle_tokenReader (embed : SubjectLeaf → Leaf) :
    TokenReader.IsSingle (tokenReader embed) := by
  intro token condition answered
  exact isSingle_of_answer answered

/-! ## The displayed text -/

section

variable [Predicate Leaf Subject]

/-- A displayed negation has its operand in brackets. -/
theorem Condition.render_not (operand : Condition Leaf) :
    (Condition.not operand).render = "not ".toList ++ bracketed operand.render := rfl

/-- The first operand is displayed in brackets, before the further ones. -/
theorem Condition.renderJoined_cons (separator : Text) (first : Condition Leaf)
    (rest : List (Condition Leaf)) :
    renderJoined separator (first :: rest) =
      bracketed first.render ++ renderFurther separator rest := by
  show ('(' :: first.render) ++ ')' :: renderFurther separator rest = _
  simp [bracketed]

/-- Further operands are displayed behind a separator, like the first ones. -/
theorem Condition.renderFurther_cons (separator : Text) (first : Condition Leaf)
    (rest : List (Condition Leaf)) :
    renderFurther separator (first :: rest) =
      separator ++ renderJoined separator (first :: rest) :=
  List.append_assoc separator ('(' :: first.render) (')' :: renderFurther separator rest)

/-- Displayed operands are linked in brackets. -/
theorem Condition.renderJoined_eq_linked (junction : Junction) (operands : List (Condition Leaf)) :
    renderJoined junction.displayed operands =
      linked junction (operands.map fun operand => bracketed operand.render) := by
  induction operands with
  | nil => rfl
  | cons first rest ih =>
    cases rest with
    | nil => rfl
    | cons second rest =>
      rw [renderJoined_cons, renderFurther_cons, ih, ← List.append_assoc]
      rfl

/-- A displayed junction links its operands in brackets. -/
theorem Condition.render_join (junction : Junction) (operands : List (Condition Leaf)) :
    (junction.join operands).render =
      linked junction (operands.map fun operand => bracketed operand.render) := by
  cases junction with
  | or => exact renderJoined_eq_linked .or operands
  | and => exact renderJoined_eq_linked .and operands

/-- Links have no tabs and no line ends of their own. -/
theorem map_linked (junction : Junction) (texts : List Text) :
    (linked junction texts).map plainSpace = linked junction (texts.map (List.map plainSpace)) := by
  have kept : junction.displayed.map plainSpace = junction.displayed := by
    cases junction <;> decide
  induction texts with
  | nil => rfl
  | cons first rest ih =>
    cases rest with
    | nil => rfl
    | cons second rest =>
      simp only [linked, List.map_append, List.map_cons, kept] at ih ⊢
      rw [ih]

/-! ## Leaves -/

/-- The leaf is displayed without brackets, and alone it is read back. -/
structure Reader.ReadsAlone (reader : Reader Leaf) (leaf : Leaf) : Prop where
  /-- There are no brackets. -/
  unbracketed : ∀ c ∈ Predicate.render leaf, isBracket c = false
  /-- With some limits, the displayed text is a rule that is the leaf. -/
  accepted : ∃ limits, (reader.withLimits limits).read (Predicate.render leaf) = .ok (.leaf leaf)

/-- A leaf that is read back is shown by its text. -/
theorem Reader.ReadsAlone.shows {leaf : Leaf} (back : reader.ReadsAlone leaf) (limits : Limits) :
    Shows (reader.withLimits limits) ((Predicate.render leaf).map plainSpace) (.leaf leaf) := by
  obtain ⟨_, accepted⟩ := back.accepted
  have free : ∀ c ∈ (Predicate.render leaf).map plainSpace, isBracket c = false := by
    intro c mem
    obtain ⟨d, inside, rfl⟩ := List.mem_map.mp mem
    rcases plainSpace_cases d with same | ⟨space, -⟩
    · rw [same]
      exact back.unbracketed d inside
    · rw [space]
      decide
  have bare : (Text.trim ((Predicate.render leaf).map plainSpace)).head? ≠ some '(' := by
    intro first
    have mem := Text.trim_isInfix _ |>.subset (List.mem_of_mem_head? first)
    exact absurd (free _ mem) (by decide)
  obtain ⟨-, shape, read⟩ := Reader.atom_of_read bare accepted
  exact .of_atom (Reader.trim_ne_nil_of_read accepted) free
    (Reader.readExpression_of_read accepted).1.map_plainSpace shape read

/-- A literal is shown by its text. -/
theorem Shows.literal (value : Bool) :
    Shows reader ((Condition.literal value : Condition Leaf).render.map plainSpace)
      (.literal value) := by
  have word {word : Text} (plain : word.map plainSpace = word) (filled : word ≠ [])
      (solid : ∀ c ∈ word, Text.isBlank c = false) (free : ∀ c ∈ word, isBracket c = false)
      (unmarked : Marker.find? word = none) (shape : Shape.of word = .atom)
      (read : reader.readToken word = .ok (.literal value)) :
      Shows reader (word.map plainSpace) (.literal value) := by
    have trimmed := (Text.isTrimmed_of_solid solid).trim_self
    rw [plain]
    exact .of_atom (by rwa [trimmed]) free (unmarked_of_find? unmarked) (by rwa [trimmed])
      (by rwa [trimmed])
  cases value with
  | true =>
    show Shows reader ("true".toList.map plainSpace) _
    exact word (by decide) (by simp) (List.forall_iff_forall_mem.mp (by decide))
      (List.forall_iff_forall_mem.mp (by decide)) (by decide) (by decide) rfl
  | false =>
    show Shows reader ("false".toList.map plainSpace) _
    exact word (by decide) (by simp) (List.forall_iff_forall_mem.mp (by decide))
      (List.forall_iff_forall_mem.mp (by decide)) (by decide) (by decide) rfl

/-! ## Accepted rules -/

/-- A junction that divides a text divides it into two parts or more. -/
theorem Divides.several {names : Text → Text → Prop} {junction : Junction} {full short : Text}
    {parts : List Text}
    (divides : Divides names junction full short parts (junction.segments short))
    (shape : Shape.of short = .joined junction (junction.segments short)) : 2 ≤ parts.length := by
  have joined := Junction.operands?_of_split (Shape.of_eq_joined_iff.mp shape).1
  rw [Junction.operands?] at joined
  have separates := junction.separates_segments short
  rw [divides.forall₂.length_eq]
  generalize junction.segments short = segments at joined separates
  obtain _ | ⟨first, _ | ⟨second, rest⟩⟩ := segments
  · cases separates
  · contradiction
  · simp

/-- What is derived is shown by its own text. -/
theorem Derives.shows {text : Text} {condition : Condition Leaf}
    (single : ∀ tokens ∈ reader.tokenReaders, tokens.IsSingle)
    (derives : Derives reader text condition)
    (leaves : ∀ leaf ∈ condition.leaves, reader.ReadsAlone leaf) (limits : Limits) :
    Shows (reader.withLimits limits) (condition.render.map plainSpace) condition := by
  -- Brackets that hold a whole text leave no node in the tree, so they are not displayed.
  induction derives with
  | blank none => exact .literal true
  | group whole balanced further ih => exact ih leaves
  | @joined _ _ _ junction parts functional divides parted shape filled each ih =>
    rw [Junction.leaves_join] at leaves
    have shown : ∀ part ∈ parts.map fun part => (part.2.render.map plainSpace, part.2),
        Shows (reader.withLimits limits) part.1 part.2 := by
      intro displayed mem
      obtain ⟨part, inside, rfl⟩ := List.mem_map.mp mem
      exact ih part inside fun leaf among =>
        leaves leaf (List.mem_flatMap.mpr ⟨part.2, List.mem_map_of_mem inside, among⟩)
    have several := divides.several shape
    have whole := Shows.joined junction (by simpa using several) shown
    rw [Condition.render_join, map_linked]
    simpa [List.map_map, Function.comp_def, map_bracketed] using whole
  | negation whole written abridges parted shape further ih =>
    rw [Condition.render_not, List.map_append, map_bracketed]
    exact (ih leaves).negation
  | @token _ condition filled free shape read =>
    have kind := Reader.isSingle_of_readToken single read
    cases condition with
    | literal value => exact .literal value
    | leaf leaf => exact (leaves leaf (by simp [Condition.leaves])).shows limits
    | not operand => exact kind.elim
    | and operands => exact kind.elim
    | or operands => exact kind.elim

/-- A text that shows a condition is read as the condition if the limits leave room. -/
theorem Shows.read {text : Text} {condition : Condition Leaf}
    (shows : Shows reader (text.map plainSpace) condition)
    (deep : condition.depth ≤ reader.limits.maxDepth)
    (long : (condition.depth + 1) * text.byteLength ≤ reader.limits.maxLength) :
    reader.read text = .ok condition := by
  have bytes := byteLength_map_plainSpace text
  have fits : ¬reader.limits.maxLength < text.byteLength := by
    have once : text.byteLength ≤ (condition.depth + 1) * text.byteLength :=
      Nat.le_mul_of_pos_left _ (Nat.succ_pos _)
    omega
  have shallow : ¬reader.limits.maxDepth < nesting text := by
    have nested := shows.nested 0 []
    rw [List.append_nil, nestingFrom_map_plainSpace] at nested
    simp only [nesting, nestingFrom] at nested ⊢
    omega
  have room := Reader.hasRoom_ofLimits (Nat.le_of_eq bytes) deep long
  have levels : condition.depth ≤ reader.limits.levels := Nat.le_succ_of_le deep
  have answers := shows.answers levels room
  have unmarked : Unmarked text := .of_map_plainSpace shows.clean.1
  rw [Reader.read, if_neg fits, if_neg shallow, unmarked.find?_eq_none]
  exact answers.value

namespace Reader

/-- What a rule is read as is read again from its displayed text. -/
theorem read_render_of_read (single : ∀ tokens ∈ reader.tokenReaders, tokens.IsSingle)
    {rule : Text} {condition : Condition Leaf} (accepted : reader.read rule = .ok condition)
    (leaves : ∀ leaf ∈ condition.leaves, reader.ReadsAlone leaf) {limits : Limits}
    (deep : condition.depth ≤ limits.maxDepth)
    (long : (condition.depth + 1) * Text.byteLength condition.render ≤ limits.maxLength) :
    (reader.withLimits limits).read condition.render = .ok condition :=
  ((derives_of_read accepted).shows single leaves limits).read deep long

/-- A rule with a group and a tab comes back from its displayed text, under limits that just allow
it. -/
theorem read_render_of_nested_rule :
    let reader := ofSubjects {}
    let condition := Condition.or [.leaf (SubjectLeaf.date .less ⟨2024, 2, 29, by decide⟩),
      .not (.and [.leaf (.user .equal "ann".toList), .literal true])]
    let shown := "(date < 2024-02-29) OR (not ((user = ann) AND (true)))".toList
    (∀ tokens ∈ reader.tokenReaders, tokens.IsSingle) ∧
      reader.read "date < 2024-2-29 or not (user = ann and\ttrue)".toList = .ok condition ∧
      (∀ leaf ∈ condition.leaves, reader.ReadsAlone leaf) ∧ condition.render = shown ∧
      condition.depth = 4 ∧ 5 * Text.byteLength shown = 270 ∧
      (reader.withLimits ⟨4, 270⟩).read shown = .ok condition := by
  have accepted : (ofSubjects {}).read "date < 2024-2-29 or not (user = ann and\ttrue)".toList =
      .ok (.or [.leaf (.date .less ⟨2024, 2, 29, by decide⟩),
        .not (.and [.leaf (.user .equal "ann".toList), .literal true])]) := by rfl
  have date : (ofSubjects {}).ReadsAlone (.date .less ⟨2024, 2, 29, by decide⟩) :=
    ⟨List.forall_iff_forall_mem.mp (by decide), {}, by rfl⟩
  have user : (ofSubjects {}).ReadsAlone (.user .equal "ann".toList) :=
    ⟨List.forall_iff_forall_mem.mp (by decide), {}, by rfl⟩
  have displayed : (Condition.or [.leaf (SubjectLeaf.date .less ⟨2024, 2, 29, by decide⟩),
      .not (.and [.leaf (.user .equal "ann".toList), .literal true])]).render =
        "(date < 2024-02-29) OR (not ((user = ann) AND (true)))".toList := by rfl
  have bytes : 5 * Text.byteLength
      "(date < 2024-02-29) OR (not ((user = ann) AND (true)))".toList = 270 := by decide
  intro reader condition shown
  have single : ∀ tokens ∈ reader.tokenReaders, tokens.IsSingle :=
    List.forall_mem_singleton.mpr (SubjectLeaf.isSingle_tokenReader id)
  have leaves : ∀ leaf ∈ condition.leaves, reader.ReadsAlone leaf :=
    List.forall_mem_cons.mpr ⟨date, List.forall_mem_singleton.mpr user⟩
  have deep : condition.depth ≤ Limits.maxDepth ⟨4, 270⟩ := Nat.le_refl 4
  have long : (condition.depth + 1) * Text.byteLength condition.render ≤
      Limits.maxLength ⟨4, 270⟩ := by
    rw [displayed]
    exact Nat.le_of_eq bytes
  have answer := read_render_of_read single accepted leaves deep long
  rw [displayed] at answer
  exact ⟨single, accepted, leaves, displayed, rfl, bytes, answer⟩

end Reader

end

end AccessRules
