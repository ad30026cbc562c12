import AccessRules.Proofs.Grammar.Derivation
import AccessRules.Proofs.Rule.Refusals
import AccessRules.Subject.Read

/-!
# What refused rules quote

A refusal of a rule without markers quotes none, as long as the readers of tokens quote only their
tokens. There are two exceptions: brackets of the rule are left over, and the refusal for the
missing bracket or operand is made while markers stand for groups; or a marker that lacks its last
mark stands before a group, and the marker that is read there names no clause.
-/
namespace AccessRules

open AccessRules.Bracket

variable {Leaf : Type}

/-- Refusals of the reader of tokens quote only what is part of the token. -/
def QuotesToken (tokens : TokenReader Leaf) : Prop :=
  ∀ token error, tokens token = .error error → ∀ part ∈ error.quoted?, part <:+: token

/-- The reader of tokens for leaves over subjects quotes the token. -/
theorem SubjectLeaf.quotesToken_tokenReader (embed : SubjectLeaf → Leaf) :
    QuotesToken (tokenReader embed) := by
  intro token error refused part quoted
  cases outcome : SubjectLeaf.read token with
  | ok leaf? =>
    rw [tokenReader, outcome] at refused
    contradiction
  | error fault =>
    rw [tokenReader, outcome] at refused
    obtain rfl := Except.error.inj refused
    obtain rfl := Option.some.inj quoted
    exact List.infix_rfl

/-- Reading tabs and line ends as spaces writes no marker that lacks its last mark before a
group. -/
theorem HasUnended.of_map_plainSpace {text : Text} (unended : HasUnended (text.map plainSpace)) :
    HasUnended text := by
  obtain ⟨digits, group, filled, decimal, ⟨inner, rfl, balanced⟩, front, back, split⟩ := unended
  obtain ⟨rest, right, rfl, same, -⟩ := List.map_eq_append_iff.mp split.symm
  obtain ⟨left, whole, rfl, -, written⟩ := List.map_eq_append_iff.mp same
  obtain ⟨marker, bracketed, rfl, marks, grouped⟩ := List.map_eq_append_iff.mp written
  obtain ⟨inside, rfl, rfl⟩ := bracketed_of_map_plainSpace grouped
  have solid : ∀ c ∈ Marker.unended digits, c ≠ ' ' := by
    rintro c mem rfl
    exact Marker.not_mem_ofDigits (by decide) (by decide) decimal
      (Marker.mem_ofDigits_of_unended mem)
  have kept : ∀ c ∈ marker, plainSpace c = id c := fun c mem =>
    plainSpace_of_ne (solid _ (marks ▸ List.mem_map_of_mem mem))
  rw [List.map_congr_left kept, List.map_id] at marks
  exact ⟨digits, '(' :: inside ++ [')'], filled, decimal,
    ⟨inside, rfl, balanced_map_plainSpace.mp balanced⟩, left, right, by rw [marks]⟩

namespace Reader

variable {reader : Reader Leaf}
  {read : ClauseStore → Text → Except RuleError (Condition Leaf × ClauseStore)}

/-! ## Tokens -/

/-- No reader that is asked refuses in another way than each may. -/
theorem firstAnswer_ends {α β : Type} {source : α} {bad : RuleError → Prop}
    {readers : List (α → Except RuleError (Option β))}
    (each : ∀ read ∈ readers, Ends bad (fun _ => True) (read source)) :
    Ends bad (fun _ => True) (firstAnswer source readers) := by
  induction readers with
  | nil => exact trivial
  | cons read readers ih =>
    refine (each read (by simp)).bind fun answer? _ => ?_
    cases answer? with
    | some answer => exact trivial
    | none => exact ih fun other mem => each other (by simp [mem])

/-- A token without markers is read, or is refused without a marker. -/
theorem readToken_ends (quotes : ∀ tokens ∈ reader.tokenReaders, QuotesToken tokens)
    {token : Text} (unmarked : Unmarked token) :
    Ends (fun error => ∀ part ∈ error.quoted?, Unmarked part) (fun _ => True)
      (reader.readToken token) := by
  have each : ∀ tokens ∈ reader.tokenReaders,
      Ends (fun error => ∀ part ∈ error.quoted?, Unmarked part) (fun _ => True)
        (tokens token) := by
    intro tokens mem
    cases outcome : tokens token with
    | ok answer => exact trivial
    | error error =>
      exact fun part quoted => unmarked.part (quotes tokens mem token error outcome part quoted)
  unfold readToken
  split
  · exact trivial
  · split
    · exact trivial
    · refine (firstAnswer_ends each).bind fun answer? _ => ?_
      cases answer? with
      | some condition => exact trivial
      | none =>
        intro part quoted
        obtain rfl := Option.some.inj quoted
        exact unmarked

/-! ## Expressions -/

/-- Texts without markers are read, with stores of intact clauses, or are to blame for the
refusal. -/
def BlamesTexts
    (read : ClauseStore → Text → Except RuleError (Condition Leaf × ClauseStore)) : Prop :=
  ∀ (store : ClauseStore) (text : Text), store.Intact → Unmarked text →
    Ends (Blames text) (fun (_, next) => store.Extends next) (read store text)

/-- A text that is read in the place of another is read, or the other text is to blame. -/
theorem BlamesTexts.of_succeeds (blames : BlamesTexts read) {store : ClauseStore}
    {text further : Text} (intact : store.Intact) (succeeds : Succeeds text further) :
    Ends (Blames text) (fun (_, next) => store.Extends next) (read store further) :=
  (blames store further intact succeeds.intact.unmarked).weaken fun _ => succeeds.blames

/-- Operands are read one after another, or the text that they are left of is to blame. -/
theorem readOperands_ends (blames : BlamesTexts read) {junction : Junction} {text rule : Text}
    (unmarked : Unmarked text) {segments : List Text}
    (filled : Balanced text → ∀ segment ∈ segments, Text.trim segment ≠ [])
    {store : ClauseStore} (intact : store.Intact)
    (remnants : ∀ segment ∈ segments, store.Remnant text segment) :
    Ends (Blames text) (fun (_, next) => store.Extends next)
      (readOperands read junction rule store segments) := by
  induction segments generalizing store with
  | nil => exact .refl intact
  | cons segment segments ih =>
    unfold readOperands
    split
    · rename_i vacant
      exact .operand fun balanced => filled balanced segment (by simp) vacant
    · have first := remnants segment (by simp)
      refine (first.expand intact unmarked).bind fun further succeeds => ?_
      refine (blames.of_succeeds intact succeeds).bind ?_
      rintro ⟨operand, middle⟩ extended
      have later := ih (fun balanced segment mem => filled balanced segment (by simp [mem]))
        extended.intact fun segment mem => (remnants segment (by simp [mem])).mono
          extended.continues
      refine later.bind ?_
      rintro ⟨operands, next⟩ goes
      exact extended.trans goes

/-- What is left of a text is read by its shape, or the text is to blame. -/
theorem readShape_ends (quotes : ∀ tokens ∈ reader.tokenReaders, QuotesToken tokens)
    (blames : BlamesTexts read) {text whole rule : Text} (unmarked : Unmarked text)
    {store : ClauseStore} (intact : store.Intact) (remnant : store.Remnant text rule)
    (trimmed : rule.IsTrimmed) (filled : rule ≠ []) :
    Ends (Blames text) (fun (_, next) => store.Extends next)
      (reader.readShape read whole rule store) := by
  have expansion := remnant.expand intact unmarked
  unfold readShape
  cases shape : Shape.of rule with
  | joined junction segments =>
    obtain ⟨-, -, rfl⟩ := Shape.of_eq_joined_iff.mp shape
    -- A rule without brackets has no blank operand: keywords at its edges are dangling.
    have some (balanced : Balanced text) : ∀ segment ∈ junction.segments rule,
        Text.trim segment ≠ [] := fun segment mem =>
      Junction.IsOperand.trim_ne_nil ⟨filled, trimmed, remnant.free balanced⟩ mem
    refine (readOperands_ends blames unmarked some intact fun segment => remnant.segment).bind ?_
    rintro ⟨operands, next⟩ good
    exact good
  | dangling junction =>
    exact expansion.bind fun further succeeds => .of_unmarked succeeds.intact.unmarked
  | negation operand =>
    obtain ⟨-, -, found⟩ := Shape.of_eq_negation_iff.mp shape
    obtain ⟨word, rfl, written⟩ := Text.afterWord?_eq_some_iff.mp found
    have free : '@' ∉ word := Text.not_mem_of_lower written (by decide)
    refine ((remnant.suffix free).expand intact unmarked).bind fun further succeeds => ?_
    refine (blames.of_succeeds intact succeeds).bind ?_
    rintro ⟨condition, next⟩ good
    exact good
  | bareNegation =>
    have same := Shape.lower_of_bareNegation shape
    have free : '@' ∉ rule := Text.not_mem_of_lower same (by decide)
    exact .of_unmarked fun digits _ _ written =>
      free (written.subset (by simp [Marker.ofDigits]))
  | atom =>
    refine expansion.bind fun further succeeds => ?_
    split
    · split
      · exact .of_unmarked succeeds.intact.unmarked
      · exact blames.of_succeeds intact succeeds
    · have clear := succeeds.intact.unmarked.part further.trim_isInfix
      refine ((readToken_ends quotes clear).weaken fun _ => .clear).bind fun condition _ => ?_
      exact .refl intact

/-- Expressions are read at any level, or the text is to blame. -/
theorem readExpression_ends (quotes : ∀ tokens ∈ reader.tokenReaders, QuotesToken tokens)
    (levels : Nat) : BlamesTexts (reader.readExpression levels) := by
  induction levels with
  | zero => exact fun store text intact unmarked => .of_isExceeded rfl
  | succ levels ih =>
    intro store text intact unmarked
    unfold readExpression
    split
    · exact .refl intact
    · refine (intact.extract_ends unmarked).bind ?_
      rintro ⟨rule, middle⟩ ⟨extended, trimmed, remnant⟩
      dsimp only
      split
      · exact extended
      · rename_i filled
        refine (readShape_ends quotes ih unmarked extended.intact remnant trimmed filled).mono ?_
        rintro ⟨condition, next⟩ goes
        exact extended.trans goes

/-- A rule without markers is read, or is to blame with tabs and line ends read as spaces. -/
theorem read_ends (quotes : ∀ tokens ∈ reader.tokenReaders, QuotesToken tokens) {rule : Text}
    (unmarked : Marker.find? rule = none) :
    Ends (Blames (rule.map plainSpace)) (fun _ => True) (reader.read rule) := by
  have clear := (unmarked_of_find? unmarked).map_plainSpace
  have start : (ClauseStore.ofLimits reader.limits).Intact := ClauseStore.intact_of_empty rfl
  unfold read
  dsimp only
  split
  · exact .of_isExceeded rfl
  · split
    · exact .of_isExceeded rfl
    · rw [unmarked, plainSpaces_eq_map]
      refine (readExpression_ends quotes reader.limits.levels _ _ start clear).bind ?_
      rintro ⟨condition, next⟩ -
      exact trivial

/-- A refusal of a rule without markers quotes none if the readers of tokens quote only their
tokens, with two exceptions: brackets of the rule are left over, and a bracket or an operand is
missing; or a marker that lacks its last mark stands right before a group, and a marker is not
known. -/
theorem quoted_of_read {rule part : Text} {error : RuleError}
    (unmarked : Marker.find? rule = none)
    (quotes : ∀ tokens ∈ reader.tokenReaders, QuotesToken tokens)
    (refused : reader.read rule = .error error) (quoted : error.quoted? = some part) :
    Marker.find? part = none ∨
      ¬Balanced rule ∧ (error = .malformed .missingBracket (some part) ∨
        ∃ junction, error = .malformed (.missingOperand junction) (some part)) ∨
      HasUnended rule ∧ error = .malformed .unknownMarker (some part) := by
  have blames := (read_ends quotes unmarked).bad_of_error refused
  cases blames with
  | clear none => exact .inl (none part quoted).find?_eq_none
  | bracket stray =>
    obtain rfl := Option.some.inj quoted
    exact .inr (.inl ⟨mt balanced_map_plainSpace.mpr stray, .inl rfl⟩)
  | operand stray =>
    obtain rfl := Option.some.inj quoted
    exact .inr (.inl ⟨mt balanced_map_plainSpace.mpr stray, .inr ⟨_, rfl⟩⟩)
  | marker unended =>
    obtain rfl := Option.some.inj quoted
    exact .inr (.inr ⟨unended.of_map_plainSpace, rfl⟩)

/-- A token next to a group, in a group that is negated, is quoted by the reader that refuses it. -/
theorem quoted_of_read_nested :
    let reader : Reader SubjectLeaf := { tokenReaders := [SubjectLeaf.tokenReader id] }
    let rule : Text := "not ((true) and user = a b)".toList
    let part : Text := "user = a b".toList
    let error : RuleError := .malformed (.reported LeafFault.unquotedBlank.message) (some part)
    Marker.find? rule = none ∧ (∀ tokens ∈ reader.tokenReaders, QuotesToken tokens) ∧
      reader.read rule = .error error ∧ error.quoted? = some part ∧
      (Marker.find? part = none ∨
        ¬Balanced rule ∧ (error = .malformed .missingBracket (some part) ∨
          ∃ junction, error = .malformed (.missingOperand junction) (some part)) ∨
        HasUnended rule ∧ error = .malformed .unknownMarker (some part)) := by
  intro reader rule part error
  have unmarked : Marker.find? rule = none := by decide
  have quotes : ∀ tokens ∈ reader.tokenReaders, QuotesToken tokens := by
    intro tokens mem
    obtain rfl := List.mem_singleton.mp mem
    exact SubjectLeaf.quotesToken_tokenReader id
  have refused : ({ tokenReaders := [SubjectLeaf.tokenReader id] } : Reader SubjectLeaf).read
      "not ((true) and user = a b)".toList =
        .error (.malformed (.reported LeafFault.unquotedBlank.message)
          (some "user = a b".toList)) := by rfl
  exact ⟨unmarked, quotes, refused, rfl, quoted_of_read unmarked quotes refused rfl⟩

/-- Where a bracket is left over, the refusal quotes the marker of a group. -/
theorem marker_quoted_of_stray_bracket :
    let reader : Reader SubjectLeaf := {}
    let rule : Text := "(true) and (".toList
    let part : Text := "@<0>@ and (".toList
    Marker.find? rule = none ∧ (∀ tokens ∈ reader.tokenReaders, QuotesToken tokens) ∧
      reader.read rule = .error (.malformed .missingBracket (some part)) ∧
      Marker.find? part = some "0".toList := by
  refine ⟨by decide, fun tokens mem => absurd mem List.not_mem_nil, by rfl, by decide⟩

end Reader

end AccessRules
