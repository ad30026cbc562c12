import AccessRules.Proofs.Grammar.Derivation
import AccessRules.Proofs.Rule.RespacedStores

/-!
# Rules with other blanks

A rule is read in step with what becomes of it when some of its blanks become spaces: both have the
same shape, the same groups are taken out and put back, and only tokens are left to compare. Where
those are read alike, both rules are accepted as the same tree or both refused, as long as no limit
is exceeded and no blank but a space follows the word for negation.
-/
namespace AccessRules

open AccessRules.Bracket

/-! ## Reading in step -/

/-- A full text that is respaced to the same as its abridgement is not abridged. -/
theorem Abridges.eq_of_map_eq {names : Text → Text → Prop} {respace : Char → Char}
    (respacing : IsRespacing respace) {full short : Text} (abridges : Abridges names full short)
    (same : full.map respace = short.map respace) : full = short := by
  induction abridges with
  | nil => rfl
  | char c further ih => rw [ih (List.cons.inj same).2]
  | group number group named further ih =>
    -- A bracket opens the group, and another character its marker.
    obtain ⟨inner, rfl, -⟩ := group
    have first : respace '(' = respace '@' := (List.cons.inj same).1
    rw [respacing.eq_self (by decide), respacing.eq_self (by decide)] at first
    exact absurd first (by decide)

namespace Reader

variable {Leaf : Type} {reader : Reader Leaf} {respace : Char → Char} {gap : Char → Bool}
  {read : ClauseStore → Text → Except RuleError (Condition Leaf × ClauseStore)}
  {store other : ClauseStore}

/-- The answers are the same, and the stores after them are still in step. -/
def InStepAfter {α : Type} (respace : Char → Char) (gap : Char → Bool)
    (answer further : α × ClauseStore) : Prop :=
  answer.1 = further.1 ∧ answer.2.Respaced respace gap further.2

/-- The function reads respaced texts as it reads the texts. -/
def ReadsRespaced (respace : Char → Char) (gap : Char → Bool)
    (read : ClauseStore → Text → Except RuleError (Condition Leaf × ClauseStore)) : Prop :=
  ∀ (store other : ClauseStore) (text : Text), store.Respaced respace gap other →
    Unmarked text → NegatesWith gap text →
      Mirrors (InStepAfter respace gap) (read store text) (read other (text.map respace))

/-- Expanded texts are read in step. -/
theorem ReadsRespaced.of_expand (reads : ReadsRespaced respace gap read) {short expanded : Text}
    (respaced : store.Respaced respace gap other) (negates : NegatesWith gap short)
    (expansion : store.expand short = .ok expanded) :
    Mirrors (InStepAfter respace gap) (read store expanded) (read other (expanded.map respace)) :=
  reads _ _ expanded respaced (ClauseStore.abridges_of_expand respaced.toSound expansion).1
    (respaced.negates_expand negates expansion)

section

variable (respacing : IsRespacing respace)
include respacing

/-- Operands are read in step, one after another. -/
theorem readOperands_mirrors (reads : ReadsRespaced respace gap read) (junction : Junction)
    (rule : Text) {segments : List Text} (each : ∀ segment ∈ segments, NegatesWith gap segment)
    (respaced : store.Respaced respace gap other) :
    Mirrors (InStepAfter respace gap) (readOperands read junction rule store segments)
      (readOperands read junction (rule.map respace) other
        (segments.map (List.map respace))) := by
  induction segments generalizing store other with
  | nil => exact ⟨_, rfl, rfl, respaced⟩
  | cons segment segments ih =>
    have here := each segment List.mem_cons_self
    rw [List.map_cons, readOperands, readOperands, respacing.trim_map]
    by_cases vacant : segment.trim = []
    · rw [if_pos vacant, if_pos (List.map_eq_nil_iff.mpr vacant)]
      exact .of_errors _ _
    · rw [if_neg vacant, if_neg (mt List.map_eq_nil_iff.mp vacant)]
      apply (respaced.expand respacing segment).bind
      rintro expanded _ expansion rfl
      apply (reads.of_expand respaced here expansion).bind
      rintro ⟨operand, middle⟩ ⟨_, store⟩ - ⟨rfl, stores⟩
      apply (ih (fun segment mem => each segment (List.mem_cons_of_mem _ mem)) stores).bind
      rintro ⟨operands, next⟩ ⟨_, last⟩ - ⟨rfl, stores⟩
      exact ⟨_, rfl, rfl, stores⟩

/-- What is left of a text without its groups is read in step, if groups that were put back are
still there when they are respaced. -/
theorem readShape_mirrors (spaces : ∀ c, gap c = true → c = ' ')
    (tokens : ∀ token, Mirrors Eq (reader.readToken token) (reader.readToken (token.map respace)))
    (reads : ReadsRespaced respace gap read) {text rule : Text} (negates : NegatesWith gap rule)
    (respaced : store.Respaced respace gap other)
    (gains : ∀ expanded answer, store.expand rule = .ok expanded →
      read store expanded = .ok answer → expanded ≠ rule → expanded.trim ≠ text →
      expanded.map respace ≠ rule.map respace ∧ expanded.trim.map respace ≠ text.map respace) :
    Mirrors (InStepAfter respace gap) (reader.readShape read text rule store)
      (reader.readShape read (text.map respace) (rule.map respace) other) := by
  unfold readShape
  rw [respacing.shape_map negates spaces]
  cases shape : Shape.of rule with
  | joined junction segments =>
    obtain ⟨-, -, rfl⟩ := Shape.of_eq_joined_iff.mp shape
    have each : ∀ segment ∈ junction.segments rule, NegatesWith gap segment := fun segment mem =>
      negates.part ((junction.separates_segments rule).infix_of_mem mem)
    apply (readOperands_mirrors respacing reads junction rule each respaced).bind
    rintro ⟨operands, next⟩ ⟨_, last⟩ - ⟨rfl, stores⟩
    exact ⟨_, rfl, rfl, stores⟩
  | dangling junction =>
    apply (respaced.expand respacing rule).bind
    rintro expanded _ - rfl
    exact .of_errors _ _
  | negation operand =>
    obtain ⟨-, -, found⟩ := Shape.of_eq_negation_iff.mp shape
    obtain ⟨written, rfl, -⟩ := Text.afterWord?_eq_some_iff.mp found
    have inner := negates.part (List.suffix_append written operand).isInfix
    apply (respaced.expand respacing operand).bind
    rintro expanded _ expansion rfl
    apply (reads.of_expand respaced inner expansion).bind
    rintro ⟨condition, next⟩ ⟨_, last⟩ - ⟨rfl, stores⟩
    exact ⟨_, rfl, rfl, stores⟩
  | bareNegation => exact .of_errors _ _
  | atom =>
    apply (respaced.expand respacing rule).bind
    rintro expanded _ expansion rfl
    rw [respacing.contains_eq (by decide), respacing.contains_eq (by decide), respacing.trim_map]
    by_cases both : (expanded.contains '(' && expanded.contains ')') = true
    · rw [if_pos both, if_pos both]
      by_cases same : expanded = rule ∨ expanded.trim = text
      · have again := same.imp (congrArg (List.map respace)) (congrArg (List.map respace))
        rw [if_pos same, if_pos again]
        exact .of_errors _ _
      · rw [if_neg same]
        obtain ⟨fresh, gained⟩ := not_or.mp same
        have further := reads.of_expand respaced negates expansion
        cases success : read store expanded with
        | ok answer =>
          have kept := gains expanded answer expansion success fresh gained
          rwa [if_neg (not_or.mpr kept), ← success]
        | error error =>
          split
          · exact .of_errors _ _
          · rwa [← success]
    · rw [if_neg both, if_neg both]
      apply (tokens expanded.trim).bind
      rintro condition _ - rfl
      exact ⟨_, rfl, rfl, respaced⟩

/-- Groups that come back in the place of their markers come back when they are respaced, too. -/
theorem gains_of_extract {levels : Nat} {text rule : Text} {next : ClauseStore}
    (sound : store.Sound) (unmarked : Unmarked text)
    (extraction : store.extract text.trim = .ok (rule, next)) (expanded : Text)
    (answer : Condition Leaf × ClauseStore) (expansion : next.expand rule = .ok expanded)
    (success : reader.readExpression levels next expanded = .ok answer) (fresh : expanded ≠ rule)
    (gained : expanded.trim ≠ text.trim) :
    expanded.map respace ≠ rule.map respace ∧
      expanded.trim.map respace ≠ text.trim.map respace := by
  have unmarked_trim : Unmarked text.trim := unmarked.part text.trim_isInfix
  obtain ⟨continues, residue, -⟩ :=
    (ClauseStore.extract_settles sound ⟨unmarked_trim, .inl trivial⟩ text.isTrimmed_trim
      (.inl trivial)).good_of_ok extraction
  have abridges := (ClauseStore.abridges_of_expand continues.sound expansion).2
  refine ⟨fun same => fresh (abridges.eq_of_map_eq respacing same), fun same => ?_⟩
  have justifies := justifies_readExpression reader levels
  generalize whole : text.trim = full at residue gained same unmarked_trim
  cases residue with
  | whole several replaces =>
    obtain rfl := eq_of_expand justifies continues.sound replaces unmarked_trim expansion success
    exact gained (whole ▸ text.isTrimmed_trim.trim_self)
  | @inner inside _ balanced replaces =>
    -- Without the brackets around it the text is shorter.
    have within : inside <:+: '(' :: inside ++ [')'] := ⟨['('], [')'], rfl⟩
    have unmarked_inside : Unmarked inside.trim :=
      unmarked_trim.part (inside.trim_isInfix.trans within)
    obtain rfl := eq_of_expand justifies continues.sound replaces unmarked_inside expansion success
    have shorter := inside.trim_isInfix.length_le
    have trimmed := (Text.trim_isInfix inside.trim).length_le
    have lengths := congrArg List.length same
    simp only [List.length_map, List.length_append, List.length_cons, List.length_nil] at lengths
    omega

/-- Expressions are read in step. -/
theorem readExpression_mirrors (spaces : ∀ c, gap c = true → c = ' ')
    (tokens : ∀ token, Mirrors Eq (reader.readToken token) (reader.readToken (token.map respace)))
    (levels : Nat) : ReadsRespaced respace gap (reader.readExpression levels) := by
  induction levels with
  | zero => exact fun store other text _ _ _ => .of_exceeded _ _
  | succ levels ih =>
    intro store other text respaced unmarked negates
    have vacant : text.trim.map respace = [] ∨ text.trim.map respace = ['(', ')'] ↔
        text.trim = [] ∨ text.trim = ['(', ')'] := by
      have solid : ∀ c ∈ ['(', ')'], Text.isBlank c = false :=
        List.forall_iff_forall_mem.mp (by decide)
      refine or_congr List.map_eq_nil_iff ⟨respacing.eq_of_solid solid, fun same => ?_⟩
      rw [same, respacing.map_of_solid solid]
    have inside := negates.part text.trim_isInfix
    rw [readExpression, readExpression, respacing.trim_map]
    by_cases empty : text.trim = [] ∨ text.trim = ['(', ')']
    · rw [if_pos empty, if_pos (vacant.mpr empty)]
      exact ⟨_, rfl, rfl, respaced⟩
    · rw [if_neg empty, if_neg (mt vacant.mp empty)]
      apply (respaced.extract respacing inside).bind
      rintro ⟨rule, next⟩ ⟨_, last⟩ extraction ⟨rfl, stores, kept⟩
      dsimp only
      by_cases none : rule = []
      · rw [if_pos none, if_pos (List.map_eq_nil_iff.mpr none)]
        exact ⟨_, rfl, rfl, stores⟩
      · rw [if_neg none, if_neg (mt List.map_eq_nil_iff.mp none)]
        exact readShape_mirrors respacing spaces tokens ih kept stores
          (gains_of_extract respacing respaced.toSound unmarked extraction)

/-- Rules are read in step, with tabs and line ends read as spaces in both. -/
theorem read_mirrors (spaces : ∀ c, gap c = true → c = ' ')
    (tokens : ∀ token, Mirrors Eq (reader.readToken token) (reader.readToken (token.map respace)))
    {rule : Text} (negates : NegatesWith gap (rule.map plainSpace)) :
    Mirrors Eq (reader.read rule) (reader.read (rule.map respace)) := by
  have bytes := respacing.byteLength_le rule
  have nested : nesting (rule.map respace) = nesting rule := respacing.nestingFrom_map 0 rule
  have commutes : (rule.map respace).map plainSpace = (rule.map plainSpace).map respace := by
    simp [Function.comp_def, respacing.plainSpace_comm]
  unfold read
  dsimp only
  rw [nested, respacing.find?_map, plainSpaces_eq_map, plainSpaces_eq_map, commutes]
  by_cases long : reader.limits.maxLength < rule.byteLength
  · rw [if_pos long]
    exact .of_exceeded _ _
  · have short : ¬reader.limits.maxLength < Text.byteLength (rule.map respace) := by omega
    rw [if_neg long, if_neg short]
    by_cases deep : reader.limits.maxDepth < nesting rule
    · rw [if_pos deep]
      exact .of_exceeded _ _
    · rw [if_neg deep, if_neg deep]
      cases found : Marker.find? rule with
      | some digits => exact .of_errors _ _
      | none =>
        have reads := readExpression_mirrors respacing spaces tokens reader.limits.levels
        apply (reads _ _ _ (ClauseStore.respaced_ofLimits reader.limits)
          (unmarked_of_find? found).map_plainSpace negates).bind
        rintro ⟨condition, next⟩ ⟨_, last⟩ - ⟨rfl, -⟩
        exact ⟨_, rfl, rfl⟩

end

end Reader

end AccessRules
