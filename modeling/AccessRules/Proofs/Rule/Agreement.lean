import AccessRules.Proofs.Rule.Division
import AccessRules.Rule.Reader

/-!
# Two readings of one rule

Two readers are compared on one rule, step by step. They agree as long as the results of each step
are alike, where the first one is excused for errors of a given kind. Extraction, expansion and the
reading of tokens are all that a comparison has to settle; the recursion is the same for all.
-/
namespace AccessRules

/-! ## Agreement of results -/

/-- A value is like that of the other result, and an error is excused or that of the other. -/
def Agree {α β : Type} (excused : RuleError → Prop) (same : α → β → Prop) :
    Except RuleError α → Except RuleError β → Prop
  | .ok value, result => ∃ other, result = .ok other ∧ same value other
  | .error error, result => excused error ∨ result = .error error

namespace Agree

variable {α β γ δ : Type} {excused : RuleError → Prop} {same : α → β → Prop}
  {first : Except RuleError α} {second : Except RuleError β}

/-- A result agrees with itself if its value is like itself. -/
theorem of_self {same : α → α → Prop} {result : Except RuleError α}
    (alike : ∀ value, result = .ok value → same value value) :
    Agree excused same result result := by
  cases result with
  | error error => exact .inr rfl
  | ok value => exact ⟨value, rfl, alike value rfl⟩

/-- A result agrees with itself. -/
theorem refl (result : Except RuleError α) : Agree excused Eq result result :=
  of_self fun _ _ => rfl

/-- An excused error agrees with any result. -/
theorem of_excused {error : RuleError} (excuse : excused error) (result : Except RuleError β) :
    Agree excused same (.error error) result := .inl excuse

/-- What is known of values that are alike may be used for a weaker likeness. -/
theorem mono {like : α → β → Prop} (agree : Agree excused same first second)
    (more : ∀ value other, first = .ok value → same value other → like value other) :
    Agree excused like first second := by
  cases first with
  | error error => exact agree
  | ok value =>
    obtain ⟨other, success, alike⟩ := agree
    exact ⟨other, success, more value other rfl alike⟩

/-- Results that agree go on to agree if what follows agrees for values that are alike. -/
theorem bind {next : α → Except RuleError γ} {further : β → Except RuleError δ}
    {like : γ → δ → Prop} (agree : Agree excused same first second)
    (later : ∀ value other, first = .ok value → same value other →
      Agree excused like (next value) (further other)) :
    Agree excused like (first >>= next) (second >>= further) := by
  cases first with
  | error error =>
    rcases agree with excuse | rfl
    · exact .inl excuse
    · exact .inr rfl
  | ok value =>
    obtain ⟨other, rfl, alike⟩ := agree
    exact later value other rfl alike

/-- Without excuses, results with equal values are equal. -/
theorem eq_of_never {first second : Except RuleError α}
    (agree : Agree (fun _ => False) Eq first second) : first = second := by
  cases first with
  | error error => exact (agree.resolve_left id).symm
  | ok value =>
    obtain ⟨other, rfl, rfl⟩ := agree
    rfl

/-- Lists are read in agreement if each of their members is. -/
theorem mapM {read other : α → Except RuleError β} (values : List α)
    (each : ∀ value ∈ values, Agree excused Eq (read value) (other value)) :
    Agree excused Eq (values.mapM read) (values.mapM other) := by
  induction values with
  | nil => exact .refl (.ok [])
  | cons value values ih =>
    have here := each value List.mem_cons_self
    have others := ih fun value mem => each value (List.mem_cons_of_mem _ mem)
    rw [List.mapM_cons, List.mapM_cons]
    apply here.bind
    rintro head _ - rfl
    apply others.bind
    rintro tail _ - rfl
    exact .refl _

end Agree

/-! ## Readers that go in step -/

namespace Reader

variable {Leaf : Type}

/-- The answers are the same, and the stores after them alike. -/
def SameAnswer {α : Type} (alike : ClauseStore → ClauseStore → Prop)
    (answer other : α × ClauseStore) : Prop := answer.1 = other.1 ∧ alike answer.2 other.2

/-- The readers agree on each step of reading a fine text, with stores that are alike. -/
structure InStep (first second : Reader Leaf) (excused : RuleError → Prop)
    (alike : ClauseStore → ClauseStore → Prop) (fine : Text → Prop) : Prop where
  /-- Parts of fine texts are fine. -/
  part : ∀ text part, fine text → part <:+: text → fine part
  /-- Expanded texts are the same, and fine again. -/
  expand : ∀ left right text, alike left right → fine text →
    Agree excused (fun expanded other => expanded = other ∧ fine expanded) (left.expand text)
      (right.expand text)
  /-- Texts without their groups are the same, and fine again. -/
  extract : ∀ left right text, alike left right → fine text →
    Agree excused (fun answer other => SameAnswer alike answer other ∧ fine answer.1)
      (left.extract text) (right.extract text)
  /-- Tokens are read alike. -/
  token : ∀ left right text rule next expanded, alike left right → fine text →
    left.extract text.trim = .ok (rule, next) → rule ≠ [] → Shape.of rule = .atom →
    next.expand rule = .ok expanded → ¬('(' ∈ expanded ∧ ')' ∈ expanded) →
    Agree excused Eq (first.readToken expanded.trim) (second.readToken expanded.trim)

section

variable {first second : Reader Leaf} {excused : RuleError → Prop}
  {alike : ClauseStore → ClauseStore → Prop} {fine : Text → Prop}
  {read other : ClauseStore → Text → Except RuleError (Condition Leaf × ClauseStore)}

/-- Both functions read fine texts alike. -/
def ReadsAlike (excused : RuleError → Prop) (alike : ClauseStore → ClauseStore → Prop)
    (fine : Text → Prop)
    (read other : ClauseStore → Text → Except RuleError (Condition Leaf × ClauseStore)) : Prop :=
  ∀ left right text, alike left right → fine text →
    Agree excused (SameAnswer alike) (read left text) (other right text)

/-- Operands are read alike, one after another. -/
theorem readOperands_agree (step : InStep first second excused alike fine)
    (reads : ReadsAlike excused alike fine read other) (junction : Junction) (rule : Text)
    {segments : List Text} (each : ∀ segment ∈ segments, fine segment) {left right : ClauseStore}
    (stores : alike left right) :
    Agree excused (SameAnswer alike) (readOperands read junction rule left segments)
      (readOperands other junction rule right segments) := by
  induction segments generalizing left right with
  | nil => exact ⟨([], right), rfl, rfl, stores⟩
  | cons segment segments ih =>
    have here := each segment List.mem_cons_self
    have later : ∀ segment ∈ segments, fine segment :=
      fun segment mem => each segment (List.mem_cons_of_mem _ mem)
    unfold readOperands
    by_cases vacant : segment.trim = []
    · rw [if_pos vacant, if_pos vacant]
      exact .inr rfl
    · rw [if_neg vacant, if_neg vacant]
      apply (step.expand left right segment stores here).bind
      rintro expanded _ - ⟨rfl, again⟩
      apply (reads left right expanded stores again).bind
      rintro ⟨operand, middle⟩ ⟨_, store⟩ - ⟨rfl, stores⟩
      apply (ih later stores).bind
      rintro ⟨operands, next⟩ ⟨_, last⟩ - ⟨rfl, stores⟩
      exact ⟨_, rfl, rfl, stores⟩

/-- What is left of a text without its groups is read alike. -/
theorem readShape_agree (step : InStep first second excused alike fine)
    (reads : ReadsAlike excused alike fine read other) {text rule : Text} (well : fine rule)
    {left right : ClauseStore} (stores : alike left right)
    (tokens : ∀ expanded, Shape.of rule = .atom → left.expand rule = .ok expanded →
      ¬('(' ∈ expanded ∧ ')' ∈ expanded) →
      Agree excused Eq (first.readToken expanded.trim) (second.readToken expanded.trim)) :
    Agree excused (SameAnswer alike) (first.readShape read text rule left)
      (second.readShape other text rule right) := by
  unfold readShape
  cases shape : Shape.of rule with
  | joined junction segments =>
    obtain ⟨-, -, rfl⟩ := Shape.of_eq_joined_iff.mp shape
    have each : ∀ segment ∈ junction.segments rule, fine segment := fun segment mem =>
      step.part rule segment well ((junction.separates_segments rule).infix_of_mem mem)
    apply (readOperands_agree step reads junction rule each stores).bind
    rintro ⟨operands, next⟩ ⟨_, last⟩ - ⟨rfl, stores⟩
    exact ⟨_, rfl, rfl, stores⟩
  | dangling junction =>
    apply (step.expand left right rule stores well).bind
    rintro expanded _ - ⟨rfl, -⟩
    exact .inr rfl
  | negation operand =>
    obtain ⟨-, -, found⟩ := Shape.of_eq_negation_iff.mp shape
    obtain ⟨written, rfl, -⟩ := Text.afterWord?_eq_some_iff.mp found
    have inner := step.part _ operand well (List.suffix_append written operand).isInfix
    apply (step.expand left right operand stores inner).bind
    rintro expanded _ - ⟨rfl, again⟩
    apply (reads left right expanded stores again).bind
    rintro ⟨condition, next⟩ ⟨_, last⟩ - ⟨rfl, stores⟩
    exact ⟨_, rfl, rfl, stores⟩
  | bareNegation => exact .inr rfl
  | atom =>
    apply (step.expand left right rule stores well).bind
    rintro expanded _ expansion ⟨rfl, again⟩
    by_cases both : (expanded.contains '(' && expanded.contains ')') = true
    · rw [if_pos both, if_pos both]
      by_cases same : expanded = rule ∨ expanded.trim = text
      · rw [if_pos same, if_pos same]
        exact .inr rfl
      · rw [if_neg same, if_neg same]
        exact reads left right expanded stores again
    · rw [if_neg both, if_neg both]
      apply (tokens expanded shape expansion (by simpa using both)).bind
      rintro condition _ - rfl
      exact ⟨_, rfl, rfl, stores⟩

/-- Expressions are read alike by readers that go in step. Either both may open as many levels, or
the first one fewer and it is excused if it has too few. -/
theorem readExpression_agree (step : InStep first second excused alike fine) {levels more : Nat}
    (deep : levels = more ∧ first.limits.maxDepth = second.limits.maxDepth ∨
      levels ≤ more ∧ excused (.exceeded (.nesting first.limits.maxDepth))) :
    ReadsAlike excused alike fine (first.readExpression levels) (second.readExpression more) := by
  induction levels generalizing more with
  | zero =>
    intro left right text stores well
    rcases deep with ⟨rfl, same⟩ | ⟨-, excuse⟩
    · rw [readExpression, readExpression, same]
      exact .inr rfl
    · exact .of_excused excuse _
  | succ levels ih =>
    intro left right text stores well
    cases more with
    | zero => omega
    | succ more =>
      have reads : ReadsAlike excused alike fine (first.readExpression levels)
          (second.readExpression more) :=
        ih (deep.imp (And.imp_left Nat.succ.inj) (And.imp_left Nat.le_of_succ_le_succ))
      have trimmed := step.part text text.trim well (Text.trim_isInfix text)
      unfold readExpression
      by_cases empty : text.trim = [] ∨ text.trim = ['(', ')']
      · rw [if_pos empty, if_pos empty]
        exact ⟨_, rfl, rfl, stores⟩
      · rw [if_neg empty, if_neg empty]
        apply (step.extract left right text.trim stores trimmed).bind
        rintro ⟨rule, next⟩ ⟨_, last⟩ extraction ⟨⟨rfl, stores_next⟩, again⟩
        dsimp only
        by_cases none : rule = []
        · rw [if_pos none, if_pos none]
          exact ⟨_, rfl, rfl, stores_next⟩
        · rw [if_neg none, if_neg none]
          apply readShape_agree step reads again stores_next
          intro expanded
          exact step.token left right text rule next expanded stores well extraction none

end

end Reader

end AccessRules
