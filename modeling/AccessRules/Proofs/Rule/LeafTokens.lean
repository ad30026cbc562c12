import AccessRules.Proofs.Rule.Agreement
import AccessRules.Proofs.Rule.PlainSpaces
import AccessRules.Proofs.Rule.StoredText
import AccessRules.Proofs.Subject.ElementForm

/-!
# Tokens that are shown to readers of leaves

Readers of leaves are asked for tokens of one form only, whatever the rule is: without brackets,
markers, keywords between blanks and line ends, and other than the literals. A token may hide the
marker of a group, and then the group is put back and read again. So the groups of a token that is
shown are none, and it is what was left of the text.
-/
namespace AccessRules

/-- The form of the tokens that readers of leaves are asked for. -/
structure IsLeafToken (token : Text) : Prop where
  /-- It is not empty. -/
  filled : token ≠ []
  /-- It has no blanks at its ends. -/
  trimmed : token.trim = token
  /-- It has no brackets. -/
  unbracketed : ∀ c ∈ token, Bracket.isBracket c = false
  /-- It has no tabs and no line ends. -/
  plain : ∀ c ∈ token, IsPlain c
  /-- It has nothing of the form of a marker. -/
  unmarked : Marker.find? token = none
  /-- No keyword divides it. -/
  undivided : ∀ junction : Junction, junction.split? token = none
  /-- It is no negation and not the word for one. -/
  affirmed : Text.afterWord? "not ".toList token = none ∧
    Text.sameWord token "not".toList = false
  /-- It is no literal. -/
  unknown : Text.sameWord token "true".toList = false ∧
    Text.sameWord token "false".toList = false

/-- Marks are plain. -/
theorem isPlain_of_isMark (c : Char) (mark : Marker.isMark c = true) : IsPlain c := by
  apply plainSpace_eq_self_iff.mp
  rcases plainSpace_cases c with same | ⟨-, blank, -⟩
  · exact same
  · rw [isMark_of_isBlank blank] at mark
    contradiction

namespace Reader

variable {Leaf : Type} {store next : ClauseStore} {text rule expanded : Text}

/-- An atom whose expansion lacks a kind of bracket is expanded to itself, and is a token for
readers of leaves unless it is a literal. -/
theorem isLeafToken_of_atom (sound : store.SoundOf IsPlain) (well : ∀ c ∈ text, IsPlain c)
    (extraction : store.extract text = .ok (rule, next)) (filled : rule ≠ [])
    (shape : Shape.of rule = .atom) (expansion : next.expand rule = .ok expanded)
    (without : ¬('(' ∈ expanded ∧ ')' ∈ expanded))
    (unknown : Text.sameWord expanded.trim "true".toList = false ∧
      Text.sameWord expanded.trim "false".toList = false) : IsLeafToken expanded.trim := by
  obtain ⟨kept, trimmed, plain⟩ :=
    sound.extract isPlain_of_isMark well extraction
  have kinds := (ClauseStore.extractWithin_of_extract extraction).2
  obtain ⟨unmarked, abridges⟩ := ClauseStore.abridges_of_expand kept.toSound expansion
  have whole : rule = expanded := by
    rcases not_and_or.mp without with opens | closes
    · exact abridges.eq_of_unbracketed opens
    · exact abridges.eq_of_unclosing closes
  subst whole
  obtain ⟨undivided, -, negation⟩ := Shape.of_eq_atom_iff.mp shape
  rw [trimmed.trim_self] at unknown ⊢
  have free : ∀ c ∈ rule, Bracket.isBracket c = false := by
    apply Bracket.free_of_not_mem
    · exact fun opens => without ⟨opens, kinds.mp opens⟩
    · exact fun closes => without ⟨kinds.mpr closes, closes⟩
  exact ⟨filled, trimmed.trim_self, free, plain, unmarked.find?_eq_none, undivided, negation,
    unknown⟩

/-- Readers that answer alike for tokens of that form go in step. -/
theorem inStep_of_leafTokens {left right : Reader Leaf}
    (answers : ∀ token, IsLeafToken token →
      firstAnswer token left.tokenReaders = firstAnswer token right.tokenReaders) :
    InStep left right (fun _ => False)
      (fun store other => store = other ∧ store.SoundOf IsPlain)
      (fun text => ∀ c ∈ text, IsPlain c) where
  part text part well inside c mem := well c (inside.subset mem)
  expand store _ text stores well := by
    obtain ⟨rfl, sound⟩ := stores
    apply Agree.of_self
    intro expanded success
    exact ⟨rfl, sound.expand well success⟩
  extract store _ text stores well := by
    obtain ⟨rfl, sound⟩ := stores
    apply Agree.of_self
    intro (rule, next) success
    obtain ⟨kept, -, plain⟩ := sound.extract isPlain_of_isMark well success
    exact ⟨⟨rfl, rfl, kept⟩, plain⟩
  token store _ text rule next expanded stores well extraction filled shape expansion without := by
    obtain ⟨rfl, sound⟩ := stores
    have trimmed : ∀ c ∈ text.trim, IsPlain c := fun c mem => well c (text.trim_isInfix.subset mem)
    unfold readToken
    by_cases holds : Text.sameWord expanded.trim "true".toList = true
    · rw [if_pos holds, if_pos holds]
      exact .refl _
    · by_cases fails : Text.sameWord expanded.trim "false".toList = true
      · rw [if_neg holds, if_neg holds, if_pos fails, if_pos fails]
        exact .refl _
      · have token := isLeafToken_of_atom sound trimmed extraction filled shape expansion without
          ⟨by simpa using holds, by simpa using fails⟩
        rw [answers _ token]
        exact .refl _

/-- Readers with the same limits read every rule alike, to the same condition or with the same
error, if their readers of leaves answer alike for tokens of the form that they are asked for. -/
theorem read_eq_of_leafTokens {left right : Reader Leaf} (limits : left.limits = right.limits)
    (answers : ∀ token, IsLeafToken token →
      firstAnswer token left.tokenReaders = firstAnswer token right.tokenReaders)
    (rule : Text) : left.read rule = right.read rule := by
  have reads : ReadsAlike (fun _ => False)
      (fun store other => store = other ∧ store.SoundOf IsPlain) (fun text => ∀ c ∈ text, IsPlain c)
      (left.readExpression right.limits.levels) (right.readExpression right.limits.levels) :=
    readExpression_agree (inStep_of_leafTokens answers)
      (.inl ⟨rfl, congrArg Limits.maxDepth limits⟩)
  have sound : (ClauseStore.ofLimits right.limits).SoundOf IsPlain :=
    ⟨sound_ofLimits right.limits, by simp [ClauseStore.ofLimits]⟩
  have plain : ∀ c ∈ plainSpaces rule, IsPlain c := by
    rw [plainSpaces_eq_map]
    simp [isPlain_plainSpace]
  apply Agree.eq_of_never
  unfold read
  rw [limits]
  by_cases lengthy : right.limits.maxLength < rule.byteLength
  · rw [if_pos lengthy, if_pos lengthy]
    exact .refl _
  · by_cases nested : right.limits.maxDepth < Bracket.nesting rule
    · rw [if_neg lengthy, if_neg lengthy, if_pos nested, if_pos nested]
      exact .refl _
    · rw [if_neg lengthy, if_neg lengthy, if_neg nested, if_neg nested]
      cases Marker.find? rule with
      | some digits => exact .inr rfl
      | none =>
        apply (reads _ _ (plainSpaces rule) ⟨rfl, sound⟩ plain).bind
        rintro ⟨condition, next⟩ ⟨_, last⟩ - ⟨rfl, -⟩
        exact .refl _

/-- A reader of leaves that knows only tokens with brackets changes no rule. -/
theorem read_eq_of_bracketed_leaves :
    let granting : TokenReader SubjectLeaf := fun token =>
      .ok (if '(' ∈ token then some (.literal true) else none)
    let left := ofSubjects {}
    let right := { left with tokenReaders := granting :: left.tokenReaders }
    firstAnswer "(a)".toList left.tokenReaders = .ok none ∧
      firstAnswer "(a)".toList right.tokenReaders = .ok (some (.literal true)) ∧
      (left.limits = right.limits ∧ ∀ token, IsLeafToken token →
        firstAnswer token left.tokenReaders = firstAnswer token right.tokenReaders) ∧
      ∀ rule, left.read rule = right.read rule := by
  intro granting left right
  have answers : ∀ token, IsLeafToken token →
      firstAnswer token left.tokenReaders = firstAnswer token right.tokenReaders := by
    intro token leaf
    have none : '(' ∉ token := fun opens => absurd (leaf.unbracketed _ opens) (by decide)
    have passed : granting token = .ok .none := by
      show Except.ok (if '(' ∈ token then _ else _) = _
      rw [if_neg none]
    show _ = firstAnswer token (granting :: left.tokenReaders)
    rw [firstAnswer, passed]
    rfl
  exact ⟨by rfl, by rfl, ⟨rfl, answers⟩, read_eq_of_leafTokens rfl answers⟩

end Reader

end AccessRules
