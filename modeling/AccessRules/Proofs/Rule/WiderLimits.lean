import AccessRules.Proofs.Rule.Agreement
import AccessRules.Proofs.Subject.ElementForm

/-!
# Wider limits

Limits only cut readings off. Under wider limits every rule, element and document is read just as
before, to the same condition or with the same error, unless the narrower limits refused it. The
stores of the two readings hold the same clauses all along and differ in their bounds.
-/
namespace AccessRules

/-- The result is the other one, or a limit is exceeded. -/
def CutsOff {α : Type} (result other : Except RuleError α) : Prop :=
  result = other ∨ ∃ excess, result = .error (.exceeded excess)

/-- What is accepted is the other result as well. -/
theorem CutsOff.of_ok {α : Type} {result other : Except RuleError α} {value : α}
    (cuts : CutsOff result other) (accepted : result = .ok value) : other = .ok value := by
  rcases cuts with rfl | ⟨excess, refused⟩
  · exact accepted
  · rw [refused] at accepted
    contradiction

/-- The error is that a limit is exceeded. -/
def RuleError.Exceeds (error : RuleError) : Prop := ∃ excess, error = .exceeded excess

open RuleError

/-- Results agree up to exceeded limits if the first one is cut off at most. -/
theorem Agree.cutsOff {α : Type} {first second : Except RuleError α}
    (agree : Agree Exceeds Eq first second) : CutsOff first second := by
  cases first with
  | error error =>
    rcases agree with ⟨excess, rfl⟩ | rfl
    · exact .inr ⟨excess, rfl⟩
    · exact .inl rfl
  | ok value =>
    obtain ⟨other, rfl, rfl⟩ := agree
    exact .inl rfl

/-! ## Stores with wider bounds -/

namespace ClauseStore

/-- The other store holds the same clauses and has room for at least as much. -/
structure Widens (store other : ClauseStore) : Prop where
  /-- The clauses are the same. -/
  clauses : other.clauses = store.clauses
  /-- Their bytes are counted alike. -/
  stored : other.stored = store.stored
  /-- Texts may expand to as many bytes, or to more. -/
  expansion : store.maxExpansion ≤ other.maxExpansion
  /-- Clauses may have as many bytes together, or more. -/
  room : store.maxStored ≤ other.maxStored

variable {store other : ClauseStore}

/-- Markers name the same clauses. -/
theorem Widens.clause?_eq (widens : store.Widens other) (digits : Text) :
    other.clause? digits = store.clause? digits := by
  rw [clause?, clause?, widens.clauses]

/-- The stores for wider limits are wider. -/
theorem widens_ofLimits {limits wider : Limits} (deep : limits.maxDepth ≤ wider.maxDepth)
    (long : limits.maxLength ≤ wider.maxLength) : (ofLimits limits).Widens (ofLimits wider) :=
  ⟨rfl, rfl, long, Nat.mul_le_mul long (max_le_max deep (Nat.le_refl 1))⟩

/-- A wider store puts the same clauses in the place of markers. -/
theorem substitute_agree (widens : store.Widens other) (used : Nat)
    (finds : List (Text × Text)) :
    Agree Exceeds Eq (store.substitute used finds) (other.substitute used finds) := by
  induction finds generalizing used with
  | nil => exact .refl (.ok [])
  | cons find finds ih =>
    obtain ⟨digits, after⟩ := find
    unfold substitute
    rw [widens.clause?_eq digits]
    cases store.clause? digits with
    | none => exact .inr rfl
    | some clause =>
      dsimp only
      by_cases short : store.maxExpansion < used + clause.byteLength
      · rw [if_pos short]
        exact .of_excused ⟨_, rfl⟩ _
      · have fits : ¬other.maxExpansion < used + clause.byteLength := by
          have more := widens.expansion
          omega
        rw [if_neg short, if_neg fits]
        apply (ih _).bind
        rintro others _ - rfl
        exact .refl _

/-- A wider store takes as many passes, to the same text. -/
theorem expandWithin_agree (widens : store.Widens other) (passes : Nat) (text : Text) :
    Agree Exceeds Eq (store.expandWithin passes text) (other.expandWithin passes text) := by
  induction passes generalizing text with
  | zero => exact .refl (.ok text)
  | succ passes ih =>
    unfold expandWithin
    dsimp only
    by_cases none : (Text.cut Marker.read? text).finds.isEmpty = true
    · rw [if_pos none, if_pos none]
      exact .refl (.ok text)
    · rw [if_neg none, if_neg none]
      apply (substitute_agree widens _ _).bind
      rintro replaced _ - rfl
      exact ih _

/-- A wider store expands texts to the same texts. -/
theorem expand_agree (widens : store.Widens other) (text : Text) :
    Agree Exceeds Eq (store.expand text) (other.expand text) := by
  unfold expand
  rw [widens.clauses]
  apply (expandWithin_agree widens _ text).bind
  rintro expanded _ - rfl
  by_cases short : store.maxExpansion < expanded.byteLength
  · rw [if_pos short]
    exact .of_excused ⟨_, rfl⟩ _
  · have fits : ¬other.maxExpansion < expanded.byteLength := by
      have more := widens.expansion
      omega
    rw [if_neg short, if_neg fits]
    exact .refl _

open Reader (SameAnswer)

/-- A wider store keeps a clause under the same marker. -/
theorem push_agree (widens : store.Widens other) (clause : Text) :
    Agree Exceeds (SameAnswer Widens) (store.push clause) (other.push clause) := by
  unfold push
  dsimp only
  by_cases full : store.maxStored < store.stored + clause.byteLength
  · rw [if_pos full]
    exact .of_excused ⟨_, rfl⟩ _
  · have fits : ¬other.maxStored < other.stored + clause.byteLength := by
      have more := widens.room
      rw [widens.stored]
      omega
    rw [if_neg full, if_neg fits, widens.clauses, widens.stored]
    exact ⟨_, rfl, rfl, rfl, rfl, widens.expansion, widens.room⟩

/-- A wider store captures the same groups. -/
theorem capture_agree (widens : store.Widens other) (finds : List (Text × Text)) :
    Agree Exceeds (SameAnswer Widens) (store.capture finds) (other.capture finds) := by
  induction finds generalizing store other with
  | nil => exact ⟨([], other), rfl, rfl, widens⟩
  | cons find finds ih =>
    obtain ⟨inner, after⟩ := find
    unfold capture
    apply (expand_agree widens _).bind
    rintro clause _ - rfl
    apply (push_agree widens clause).bind
    rintro ⟨marker, middle⟩ ⟨_, wide⟩ - ⟨rfl, widens⟩
    apply (ih widens).bind
    rintro ⟨others, next⟩ ⟨_, wide⟩ - ⟨rfl, widens⟩
    exact ⟨_, rfl, rfl, widens⟩

/-- A wider store takes the same groups out of a text, pass by pass. -/
theorem extractWithin_agree (widens : store.Widens other) (passes : Nat) (text : Text) :
    Agree Exceeds (SameAnswer Widens) (extractWithin passes store text)
      (extractWithin passes other text) := by
  induction passes generalizing store other text with
  | zero => exact ⟨(_, other), rfl, rfl, widens⟩
  | succ passes ih =>
    unfold extractWithin
    dsimp only
    by_cases none : (Bracket.groups (Bracket.unwrap text)).finds.isEmpty = true
    · rw [if_pos none, if_pos none]
      exact ⟨(_, other), rfl, rfl, widens⟩
    · rw [if_neg none, if_neg none]
      apply (capture_agree widens _).bind
      rintro ⟨marked, middle⟩ ⟨_, wide⟩ - ⟨rfl, widens⟩
      exact ih widens _

/-- A wider store leaves the same text when its groups are taken out, and misses the same
brackets. -/
theorem extract_agree (widens : store.Widens other) (text : Text) :
    Agree Exceeds (SameAnswer Widens) (store.extract text) (other.extract text) := by
  unfold extract
  apply (extractWithin_agree widens _ text).bind
  rintro ⟨extracted, next⟩ ⟨_, wide⟩ - ⟨rfl, widens⟩
  dsimp only
  by_cases mixed : (extracted.contains '(' != extracted.contains ')') = true
  · rw [if_pos mixed, if_pos mixed]
    exact .inr rfl
  · rw [if_neg mixed, if_neg mixed]
    exact ⟨_, rfl, rfl, widens⟩

end ClauseStore

/-! ## Readers with wider limits -/

namespace Reader

variable {Leaf : Type} {reader : Reader Leaf} {wider : Limits}

/-- The reader with other limits. -/
def withLimits (reader : Reader Leaf) (limits : Limits) : Reader Leaf := { reader with limits }

/-- Other limits do not change what tokens are. -/
theorem readToken_withLimits (token : Text) :
    (reader.withLimits wider).readToken token = reader.readToken token := rfl

/-- Other limits do not change what elements of leaves are. -/
theorem readLeafElement_withLimits (element : Markup.Element) :
    (reader.withLimits wider).readLeafElement element = reader.readLeafElement element := rfl

/-- Readers with wider limits go in step but for exceeded limits. -/
theorem inStep_withLimits (reader : Reader Leaf) (wider : Limits) :
    InStep reader (reader.withLimits wider) Exceeds ClauseStore.Widens fun _ => True where
  part _ _ _ _ := trivial
  expand left right text widens _ := by
    apply (ClauseStore.expand_agree widens text).mono
    intro expanded other _ same
    exact ⟨same, trivial⟩
  extract left right text widens _ := by
    apply (ClauseStore.extract_agree widens text).mono
    intro answer other _ same
    exact ⟨same, trivial⟩
  token _ _ _ _ _ expanded _ _ _ _ _ _ _ := by
    rw [readToken_withLimits]
    exact .refl _

/-- Rule text is read alike under wider limits. -/
theorem read_agree (deep : reader.limits.maxDepth ≤ wider.maxDepth)
    (long : reader.limits.maxLength ≤ wider.maxLength) (rule : Text) :
    Agree Exceeds Eq (reader.read rule) ((reader.withLimits wider).read rule) := by
  unfold read
  show Agree Exceeds Eq (ite _ _ _)
    (if wider.maxLength < rule.byteLength then _
      else if wider.maxDepth < Bracket.nesting rule then _ else _)
  by_cases lengthy : reader.limits.maxLength < rule.byteLength
  · rw [if_pos lengthy]
    exact .of_excused ⟨_, rfl⟩ _
  · have shorter : ¬wider.maxLength < rule.byteLength := by omega
    rw [if_neg lengthy, if_neg shorter]
    by_cases nested : reader.limits.maxDepth < Bracket.nesting rule
    · rw [if_pos nested]
      exact .of_excused ⟨_, rfl⟩ _
    · have flatter : ¬wider.maxDepth < Bracket.nesting rule := by omega
      rw [if_neg nested, if_neg flatter]
      cases Marker.find? rule with
      | some digits => exact .inr rfl
      | none =>
        have levels : reader.limits.levels ≤ wider.levels := Nat.succ_le_succ deep
        have reads := readExpression_agree (inStep_withLimits reader wider)
          (.inr ⟨levels, _, rfl⟩)
        apply (reads _ _ (plainSpaces rule) (ClauseStore.widens_ofLimits deep long) trivial).bind
        rintro ⟨condition, next⟩ ⟨_, last⟩ - ⟨rfl, -⟩
        exact .refl _

/-- Elements are read alike if more levels may be opened. -/
theorem readElementWithin_agree {levels more : Nat} (deep : levels ≤ more)
    (element : Markup.Element) :
    Agree Exceeds Eq (reader.readElementWithin levels element)
      ((reader.withLimits wider).readElementWithin more element) := by
  induction levels generalizing more element with
  | zero => exact .of_excused ⟨_, rfl⟩ _
  | succ levels ih =>
    cases more with
    | zero => omega
    | succ more =>
      have fewer : levels ≤ more := Nat.le_of_succ_le_succ deep
      have children : Agree Exceeds Eq (element.children.mapM (reader.readElementWithin levels))
          (element.children.mapM ((reader.withLimits wider).readElementWithin more)) :=
        .mapM element.children fun child _ => ih fewer child
      unfold readElementWithin
      by_cases operator : element.name = operatorElement
      · rw [if_pos operator, if_pos operator]
        cases element.attribute? operatorKey with
        | none => exact .inr rfl
        | some name =>
          dsimp only
          cases Operator.ofName? name.trim.lower with
          | none => exact .refl _
          | some known =>
            cases known with
            | literal value => exact .refl (.ok _)
            | not =>
              dsimp only
              cases element.firstChild? with
              | none => exact .inr rfl
              | some child =>
                apply (ih fewer child).bind
                rintro operand _ - rfl
                exact .refl _
            | and =>
              apply children.bind
              rintro operands _ - rfl
              exact .refl _
            | or =>
              apply children.bind
              rintro operands _ - rfl
              exact .refl _
      · rw [if_neg operator, if_neg operator, readLeafElement_withLimits]
        exact .refl _

/-- Documents are read alike under wider limits. -/
theorem readDocument_agree (deep : reader.limits.maxDepth ≤ wider.maxDepth)
    (long : reader.limits.maxLength ≤ wider.maxLength) (document : Text) :
    Agree Exceeds Eq (reader.readDocument document)
      ((reader.withLimits wider).readDocument document) := by
  unfold readDocument
  show Agree Exceeds Eq (ite _ _ _) (if wider.maxLength < document.byteLength then _ else _)
  by_cases lengthy : reader.limits.maxLength < document.byteLength
  · rw [if_pos lengthy]
    exact .of_excused ⟨_, rfl⟩ _
  · have shorter : ¬wider.maxLength < document.byteLength := by omega
    rw [if_neg lengthy, if_neg shorter]
    cases Markup.Element.read document with
    | error error => exact .inr rfl
    | ok root => exact readElementWithin_agree (Nat.succ_le_succ deep) root

/-- Limits only cut off. Under wider limits a rule, an element and a document are read to the same
condition or with the same error, unless the narrower limits are exceeded. -/
theorem cutsOff_withLimits (reader : Reader Leaf) (wider : Limits)
    (deep : reader.limits.maxDepth ≤ wider.maxDepth)
    (long : reader.limits.maxLength ≤ wider.maxLength) :
    (∀ rule, CutsOff (reader.read rule) ((reader.withLimits wider).read rule)) ∧
      (∀ element?, CutsOff (reader.readElement? element?)
        ((reader.withLimits wider).readElement? element?)) ∧
      ∀ document, CutsOff (reader.readDocument document)
        ((reader.withLimits wider).readDocument document) := by
  refine ⟨fun rule => ?_, fun element? => ?_, fun document => ?_⟩
  · exact (read_agree deep long rule).cutsOff
  · cases element? with
    | none => exact .inl rfl
    | some element => exact (readElementWithin_agree (Nat.succ_le_succ deep) element).cutsOff
  · exact (readDocument_agree deep long document).cutsOff

/-- Two levels of nesting cut a threefold negation off, and what they allow is read to the same
condition with the default limits. -/
theorem cutsOff_at_two_levels :
    let narrow := ofSubjects ⟨2, 40⟩
    let wide := narrow.withLimits {}
    (narrow.limits.maxDepth ≤ wide.limits.maxDepth ∧
        narrow.limits.maxLength ≤ wide.limits.maxLength) ∧
      (∀ rule, CutsOff (narrow.read rule) (wide.read rule)) ∧
      narrow.read "not not not true".toList = .error (.exceeded (.nesting 2)) ∧
      wide.read "true or not (false)".toList =
        .ok (.or [.literal true, .not (.literal false)]) := by
  intro narrow wide
  obtain ⟨rules, -⟩ := cutsOff_withLimits (ofSubjects ⟨2, 40⟩) {} (by decide) (by decide)
  have accepted : (ofSubjects ⟨2, 40⟩).read "true or not (false)".toList =
      .ok (.or [.literal true, .not (.literal false)]) := by rfl
  exact ⟨by decide, rules, by rfl, (rules _).of_ok accepted⟩

end Reader

end AccessRules
