import AccessRules.Proofs.Grammar.Shape
import AccessRules.Proofs.Rule.Answer

/-!
# Reading level by level

What a reader makes of a written form of an expression, and what it stores for that. What one level
of reading does follows from the shape of what remains of the form when its groups are taken out,
and the levels below read the operands. They share one store, in which each level stores the groups
of its text again.

Gaps may hold any blanks. A negation is read as one only if a space follows its keyword; with
another blank it is taken for a token.
-/
namespace AccessRules

open AccessRules.Bracket

namespace Expression

variable {Leaf : Type} {reader : Reader Leaf} {gap : Char → Bool} {levels : Nat}
  {read : ClauseStore → Text → Except RuleError (Condition Leaf × ClauseStore)}

/-! ## Outcomes -/

mutual

/-- What may come of reading a written form of an expression, limits apart. -/
inductive Outcome (reader : Reader Leaf) (gap : Char → Bool) :
    Expression → Except RuleError (Condition Leaf) → Prop where
  | token (word : Text) : Outcome reader gap (.token word) (reader.readToken word)
  | vacant : Outcome reader gap .vacant (.ok (.literal true))
  | group {inner : Expression} {outcome : Except RuleError (Condition Leaf)}
      (inside : Outcome reader gap inner outcome) : Outcome reader gap (.group inner) outcome
  | negation {operand : Expression} {outcome : Except RuleError (Condition Leaf)}
      (further : Outcome reader gap operand outcome) :
      Outcome reader gap (.negation operand) (outcome >>= fun condition => .ok (.not condition))
  | glued {operand : Expression} {c : Char} (blank : gap c = true) (other : c ≠ ' ')
      (text : Text) : Outcome reader gap (.negation operand) (reader.readToken text)
  | unseparated {operand : Expression} {c : Char} (blank : gap c = true) (other : c ≠ ' ')
      (text : Text) : Outcome reader gap (.negation operand)
        (.error (.malformed .unseparatedBrackets (some text)))
  | joined {junction : Junction} {first : Expression} {further : List Expression}
      {outcome : Except RuleError (List (Condition Leaf))}
      (operands : Outcomes reader gap (first :: further) outcome) :
      Outcome reader gap (.joined junction first further)
        (outcome >>= fun conditions => .ok (junction.join conditions))

/-- What may come of reading written forms of expressions from left to right. -/
inductive Outcomes (reader : Reader Leaf) (gap : Char → Bool) :
    List Expression → Except RuleError (List (Condition Leaf)) → Prop where
  | nil : Outcomes reader gap [] (.ok [])
  | stop {first : Expression} {rest : List Expression} {error : RuleError}
      (refused : Outcome reader gap first (.error error)) :
      Outcomes reader gap (first :: rest) (.error error)
  | cons {first : Expression} {rest : List Expression} {condition : Condition Leaf}
      {outcome : Except RuleError (List (Condition Leaf))}
      (known : Outcome reader gap first (.ok condition))
      (others : Outcomes reader gap rest outcome) :
      Outcomes reader gap (first :: rest)
        (outcome >>= fun conditions => .ok (condition :: conditions))

end

mutual

/-- With gaps of spaces, nothing but the tree of an expression comes of reading it. -/
theorem Outcome.eq_compile {expression : Expression}
    {outcome : Except RuleError (Condition Leaf)} :
    Outcome reader isSpace expression outcome → outcome = expression.compile reader
  | .token word => by rw [compile]
  | .vacant => by rw [compile]
  | .group inside => by rw [inside.eq_compile, compile]
  | .negation further => by
    rw [further.eq_compile, compile]
    rfl
  | .glued blank other text => absurd (by simpa [isSpace] using blank) other
  | .unseparated blank other text => absurd (by simpa [isSpace] using blank) other
  | .joined operands => by
    rw [operands.eq_compileAll, compile_joined]
    rfl

/-- With gaps of spaces, nothing but their trees comes of reading expressions. -/
theorem Outcomes.eq_compileAll {expressions : List Expression}
    {outcome : Except RuleError (List (Condition Leaf))} :
    Outcomes reader isSpace expressions outcome → outcome = compileAll reader expressions
  | .nil => by rw [compileAll]
  | .stop refused => by
    rw [compileAll, ← refused.eq_compile]
    rfl
  | .cons known others => by
    rw [compileAll, ← known.eq_compile, others.eq_compileAll]
    rfl

end

/-- An error that does not come of a part does not come of what is made from it. -/
theorem made_ne_error {α β : Type} {outcome : Except RuleError α} {error : RuleError}
    (other : outcome ≠ .error error) (make : α → β) :
    (outcome >>= fun value => .ok (make value)) ≠ .error error := by
  cases outcome with
  | error refusal => exact fun same => other (congrArg Except.error (Except.error.inj same))
  | ok value => exact nofun

mutual

/-- No limit is exceeded by reading an expression if none is by reading a token. -/
theorem Outcome.ne_exceeded
    (quiet : ∀ token excess, reader.readToken token ≠ .error (.exceeded excess)) (excess : Excess)
    {expression : Expression} {outcome : Except RuleError (Condition Leaf)} :
    Outcome reader gap expression outcome → outcome ≠ .error (.exceeded excess)
  | .token word => quiet word excess
  | .vacant => nofun
  | .group inside => inside.ne_exceeded quiet excess
  | .negation further => made_ne_error (further.ne_exceeded quiet excess) Condition.not
  | .glued _ _ text => quiet text excess
  | .unseparated _ _ _ => nofun
  | .joined operands => made_ne_error (operands.ne_exceeded quiet excess) _

/-- No limit is exceeded by reading expressions if none is by reading a token. -/
theorem Outcomes.ne_exceeded
    (quiet : ∀ token excess, reader.readToken token ≠ .error (.exceeded excess)) (excess : Excess)
    {expressions : List Expression} {outcome : Except RuleError (List (Condition Leaf))} :
    Outcomes reader gap expressions outcome → outcome ≠ .error (.exceeded excess)
  | .nil => nofun
  | .stop refused => fun same =>
    refused.ne_exceeded quiet excess (congrArg Except.error (Except.error.inj same))
  | .cons known others => made_ne_error (others.ne_exceeded quiet excess) _

end

/-! ## Bytes -/

/-- The bytes that reading a written form with so many levels of operands may add to a store: those
of its groups at every level, fewer by one level each time. -/
def outlay (height bytes : Nat) : Nat := height * (height + 1) / 2 * bytes

/-- More height and more bytes allow more. -/
theorem outlay_mono {low high few many : Nat} (height : low ≤ high) (bytes : few ≤ many) :
    outlay low few ≤ outlay high many := by
  have square : low * (low + 1) ≤ high * (high + 1) := Nat.mul_le_mul height (by omega)
  exact Nat.mul_le_mul (Nat.div_le_div_right square) bytes

/-- What a level stores and what the levels below store add up. -/
theorem outlay_succ (height bytes : Nat) :
    (height + 1) * bytes + outlay height bytes = outlay (height + 1) bytes := by
  have square : (height + 1) * (height + 1 + 1) = height * (height + 1) + (height + 1) * 2 := by
    rw [Nat.mul_succ, Nat.succ_mul, Nat.mul_two]
    omega
  rw [outlay, outlay, square, Nat.add_mul_div_right _ _ Nat.two_pos, Nat.add_comm, ← Nat.add_mul]

/-- Extraction at one level leaves enough for the levels below, however deep the brackets are. -/
theorem outlay_level {nested height : Nat} (deep : nested ≤ height) (bytes : Nat) :
    nested * bytes + outlay (height - 1) bytes ≤ outlay height bytes := by
  cases height with
  | zero =>
    rw [Nat.le_zero.mp deep, Nat.zero_mul, Nat.zero_add]
  | succ height =>
    rw [← outlay_succ]
    exact Nat.add_le_add_right (Nat.mul_le_mul_right bytes deep) _

/-- The levels below the first one of a height. -/
theorem outlay_pred (height bytes : Nat) :
    outlay (height - 1) bytes = height * (height - 1) / 2 * bytes := by
  cases height with
  | zero => simp [outlay]
  | succ height => rw [outlay, Nat.add_sub_cancel, Nat.mul_comm height]

/-- Each level adds no more than its height times the bytes. -/
theorem outlay_le (height bytes : Nat) : outlay height bytes ≤ height * height * bytes := by
  have double : height * (height + 1) ≤ 2 * (height * height) := by
    rw [Nat.mul_succ, Nat.two_mul]
    exact Nat.add_le_add_left (Nat.le_mul_self height) _
  exact Nat.mul_le_mul_right bytes (Nat.div_le_of_le_mul double)

/-! ## One level -/

/-- The function reads the written forms of all expressions of less than so many levels, surrounded
by any blanks. -/
def Reads (reader : Reader Leaf) (gap : Char → Bool) (levels : Nat)
    (read : ClauseStore → Text → Except RuleError (Condition Leaf × ClauseStore)) : Prop :=
  ∀ (expression : Expression) (store : ClauseStore) (text full : Text), text.trim = full →
    Renders gap expression full → expression.height < levels →
    full.byteLength ≤ store.maxExpansion →
    store.Gives (outlay (expression.height - 1) full.byteLength)
      (Outcome reader gap expression) (read store text)

/-- Operands are read from left to right, with one store. -/
theorem readOperands_of_spread (separates : IsGap gap) {names : Text → Text → Prop}
    {store : ClauseStore} {operands : List Expression} {bytes bound : Nat} {segments : List Text}
    (reads : Reads reader gap levels read) (spread : Spread gap names operands bytes segments)
    (known : ∀ digits clause, names digits clause → store.Names digits clause)
    (low : heightOfAll operands ≤ bound) (below : bound < levels)
    (length : bytes ≤ store.maxExpansion) (junction : Junction) (rule : Text) :
    store.Gives (outlay (bound - 1) bytes) (Outcomes reader gap operands)
      (Reader.readOperands read junction rule store segments) := by
  -- The names that are known stay known while the operands before let the store grow.
  induction spread generalizing store with
  | nil => exact ClauseStore.Yields.weaken (.pure .nil) (Nat.zero_le _)
  | @cons operand rest full short bytes segments remains further ih =>
    simp only [heightOfAll] at low
    have split : outlay (bound - 1) (full.byteLength + bytes) =
        outlay (bound - 1) full.byteLength + outlay (bound - 1) bytes := Nat.mul_add _ _ _
    have cheap : outlay (operand.height - 1) full.byteLength ≤
        outlay (bound - 1) full.byteLength := outlay_mono (by omega) (Nat.le_refl _)
    have filled : short.trim ≠ [] := by
      rw [(remains.isOperand separates).trimmed.trim_self]
      exact (remains.isOperand separates).filled
    have renders := remains.renders
    have expanded : store.expand short = .ok full :=
      ClauseStore.expand_of_abridges (remains.abridges.mono known) (renders.isClean separates)
        (by omega)
    have first := reads operand store full full renders.filled_and_trimmed.2.trim_self renders
      (by omega) (by omega)
    rw [Reader.readOperands, if_neg filled, expanded, split]
    show store.Gives _ _ (bind (read store full) _)
    refine (first.weaken cheap).bind (fun _ => .stop) fun condition middle value grows => ?_
    have later := ih (fun digits clause named => grows.names _ _ (known _ _ named)) (by omega)
      (by rw [grows.maxExpansion]; omega)
    exact ClauseStore.Gives.map later (condition :: ·) fun _ => .cons value

/-- An atom is read as a token, or it hides groups and is read again with them, unless nothing was
gained. -/
theorem readShape_atom {store : ClauseStore} {text full short : Text} {cost : Nat}
    {expected : Except RuleError (Condition Leaf) → Prop} (shape : Shape.of short = .atom)
    (expanded : store.expand short = .ok full)
    (token : (full.contains '(' && full.contains ')') = false →
      expected (reader.readToken full.trim))
    (stuck : (full.contains '(' && full.contains ')') = true → full = short ∨ full.trim = text →
      expected (.error (.malformed .unseparatedBrackets (some full))))
    (hidden : ¬(full = short ∨ full.trim = text) → store.Gives cost expected (read store full)) :
    store.Gives cost expected (reader.readShape read text short store) := by
  rw [Reader.readShape, shape]
  show store.Gives _ _ (store.expand short >>= _)
  rw [expanded]
  show store.Gives _ _ (if (full.contains '(' && full.contains ')') = true then _ else _)
  by_cases brackets : (full.contains '(' && full.contains ')') = true
  · rw [if_pos brackets]
    by_cases same : full = short ∨ full.trim = text
    · rw [if_pos same]
      exact .inl (stuck brackets same)
    · rw [if_neg same]
      exact hidden same
  · rw [if_neg brackets]
    have answer := token (by simpa using brackets)
    cases result : reader.readToken full.trim with
    | error error =>
      rw [result] at answer
      exact .inl answer
    | ok condition =>
      rw [result] at answer
      exact ClauseStore.Yields.weaken (.pure answer) (Nat.zero_le _)

/-- A token is read by the readers of tokens. -/
theorem readShape_token {store : ClauseStore} {word : Text} {cost : Nat} (valid : IsToken word)
    (length : word.byteLength ≤ store.maxExpansion) (text : Text) :
    store.Gives cost (Outcome reader gap (.token word))
      (reader.readShape read text word store) := by
  have renders : Renders isSpace (.token word) word := .token valid
  have expanded : store.expand word = .ok word :=
    ClauseStore.expand_of_abridges (.refl _ _) (renders.isClean separates_space) length
  have unopened : ¬(word.contains '(' && word.contains ')') = true := fun both =>
    absurd (valid.isBracket '(' (by simp_all)) (by decide)
  refine readShape_atom (Remains.shape_token valid) expanded (fun _ => ?_)
    (fun both => absurd both unopened) fun more => absurd (.inl rfl) more
  rw [valid.trimmed]
  exact .token word

/-- What remains of a negation is read by reading its operand one level below, or its keyword is
not followed by a space and it is taken for a token. -/
theorem readShape_negation (separates : IsGap gap) {store : ClauseStore} {operand : Expression}
    {full short text : Text} {cost : Nat} (reads : Reads reader gap levels read)
    (remains : Remains gap store.Names (.negation operand) full short) (bare : ¬IsGroup full)
    (low : operand.height < levels) (length : full.byteLength ≤ store.maxExpansion)
    (cheap : outlay (operand.height - 1) full.byteLength ≤ cost)
    (hidden : full ≠ text → store.Gives cost (Outcome reader gap (.negation operand))
      (read store full)) :
    store.Gives cost (Outcome reader gap (.negation operand))
      (reader.readShape read text short store) := by
  have renders := remains.renders
  have trimmed := renders.filled_and_trimmed.2.trim_self
  have whole : store.expand short = .ok full :=
    ClauseStore.expand_of_abridges remains.abridges (renders.isClean separates) length
  cases remains with
  | marker renders rank group number named => exact absurd group bare
  | @negation _ word space full short written filled gaps unary further =>
    cases space with
    | nil => contradiction
    | cons c space =>
      have blank := gaps c (by simp)
      by_cases plain : c = ' '
      · subst plain
        have spaces : ∀ d ∈ space, gap d = true := fun d mem => gaps d (by simp [mem])
        have fewer : Text.byteLength full ≤ Text.byteLength (word ++ ' ' :: space ++ full) := by
          simp only [Text.byteLength_append]
          omega
        have clean := isClean_append (fun d mem => .inr (separates d (spaces d mem)))
          (further.renders.isClean separates)
        have expanded : store.expand (space ++ short) = .ok (space ++ full) := by
          refine ClauseStore.expand_of_abridges ((Abridges.refl _ _).append further.abridges)
            clean (Nat.le_trans ?_ length)
          simp only [Text.byteLength_append, Text.byteLength_cons]
          omega
        have trimmed : Text.trim (space ++ full) = full := by
          have none : ∀ d ∈ ([] : Text), Text.isBlank d = true := by simp
          have ends := further.renders.filled_and_trimmed.2.trim_eq (separates.isBlank spaces) none
          rwa [List.append_nil] at ends
        have gives := reads operand store _ full trimmed further.renders low
          (Nat.le_trans fewer length)
        have less := Nat.le_trans (outlay_mono (Nat.le_refl (operand.height - 1)) fewer) cheap
        rw [Reader.readShape, Remains.shape_negation separates written gaps unary further]
        show store.Gives _ _ (store.expand (space ++ short) >>= _)
        rw [expanded]
        exact ClauseStore.Gives.map (gives.weaken less) Condition.not fun _ => .negation
      · refine readShape_atom (Remains.shape_glued separates written gaps plain unary further)
          whole (fun _ => .glued blank plain _) (fun _ _ => .unseparated blank plain _)
          fun more => hidden fun same => more (.inr (trimmed.trans same))

/-- What remains of a junction is read by reading its operands one level below. -/
theorem readShape_joined (separates : IsGap gap) {store : ClauseStore} {junction : Junction}
    {first : Expression} {further : List Expression} {full short : Text} {bound : Nat}
    (reads : Reads reader gap levels read)
    (remains : Remains gap store.Names (.joined junction first further) full short)
    (low : heightOfAll (first :: further) ≤ bound) (below : bound < levels)
    (length : full.byteLength ≤ store.maxExpansion) (text : Text) :
    store.Gives (outlay (bound - 1) full.byteLength)
      (Outcome reader gap (.joined junction first further))
      (reader.readShape read text short store) := by
  obtain ⟨bytes, fewer, spread⟩ := remains.segments separates
  have cheap := outlay_mono (Nat.le_refl (bound - 1)) fewer
  have operands := readOperands_of_spread separates reads spread (fun _ _ => id) low below
    (Nat.le_trans fewer length) junction short
  rw [Reader.readShape, remains.shape_joined separates]
  exact ClauseStore.Gives.map (operands.weaken cheap) junction.join fun _ => .joined

/-- The marker of an expression in brackets hides the expression. -/
theorem readShape_marker (separates : IsGap gap) {store : ClauseStore} {expression : Expression}
    {full short text : Text} {cost : Nat}
    (remains : Remains gap store.Names expression full short) (group : IsGroup full)
    (other : full ≠ text) (length : full.byteLength ≤ store.maxExpansion)
    (hidden : store.Gives cost (Outcome reader gap expression) (read store full)) :
    store.Gives cost (Outcome reader gap expression)
      (reader.readShape read text short store) := by
  have renders := remains.renders
  have trimmed := renders.filled_and_trimmed.2.trim_self
  have rank : expression.rank = 0 := by
    rcases renders.eq_bracketed separates group with rfl | ⟨inner, rfl⟩ <;> rfl
  have free := remains.isBracket separates
  have expanded : store.expand short = .ok full :=
    ClauseStore.expand_of_abridges remains.abridges (renders.isClean separates) length
  obtain ⟨digits, number, named, rfl⟩ := eq_marker_of_abridges remains.abridges group free
  have both : (full.contains '(' && full.contains ')') = true := by
    obtain ⟨inner, rfl, -⟩ := group
    simp
  have more : ¬(full = Marker.ofDigits digits ∨ full.trim = text) := by
    rw [trimmed]
    rintro (same | same)
    · rw [same] at both
      exact absurd (free '(' (by simp_all)) (by decide)
    · exact other same
  have shape := Remains.shape_marker separates renders rank group number named
  exact readShape_atom shape expanded (fun none => absurd (both.symm.trans none) (by decide))
    (fun _ same => absurd same more) fun _ => hidden

/-- What remains of an expression is read with the levels below. Where it may hide groups, the
expression is read again. -/
theorem readShape_remains (separates : IsGap gap) {store : ClauseStore} {expression : Expression}
    {full short text : Text} {cost : Nat} (reads : Reads reader gap levels read)
    (remains : Remains gap store.Names expression full short) (apart : IsGroup full → full ≠ text)
    (low : expression.height ≤ levels) (length : full.byteLength ≤ store.maxExpansion)
    (cheap : outlay (expression.height - 1 - 1) full.byteLength ≤ cost)
    (hidden : full ≠ text → store.Gives cost (Outcome reader gap expression) (read store full)) :
    store.Gives cost (Outcome reader gap expression)
      (reader.readShape read text short store) := by
  by_cases group : IsGroup full
  · exact readShape_marker separates remains group (apart group) length (hidden (apart group))
  · cases expression with
    | token word =>
      cases remains with
      | marker renders rank grouped number named => exact absurd grouped group
      | token valid => exact readShape_token valid length text
    | vacant =>
      cases remains with
      | marker renders rank grouped number named => exact absurd grouped group
    | group inner =>
      cases remains with
      | marker renders rank grouped number named => exact absurd grouped group
    | negation operand =>
      exact readShape_negation separates reads remains group low length cheap hidden
    | joined junction first further =>
      have bound : heightOfAll (first :: further) = (joined junction first further).height - 1 :=
        rfl
      exact (readShape_joined separates reads remains (Nat.le_of_eq bound) low length text).weaken
        cheap

/-! ## All levels -/

/-- Reading with one level more reads expressions of one level more. -/
theorem reads_succ (separates : IsGap gap)
    (reads : Reads reader gap levels (reader.readExpression levels)) :
    Reads reader gap (levels + 1) (reader.readExpression (levels + 1)) := by
  intro expression store text full trim renders low length
  obtain ⟨filled, trimmed⟩ := renders.filled_and_trimmed
  rw [Reader.readExpression, trim]
  by_cases empty : full = ['(', ')']
  · subst empty
    have group : IsGroup ('(' :: [] ++ [')']) := isGroup_of_free (by simp)
    rw [if_pos (.inr rfl)]
    rcases renders.eq_bracketed separates group with rfl | ⟨inner, rfl⟩
    · exact ClauseStore.Yields.weaken (.pure .vacant) (Nat.zero_le _)
    · have written : Renders gap (.group inner) ('(' :: [] ++ [')']) := renders
      exact absurd rfl (written.trim_of_group separates).filled_and_trimmed.1
  have extracted := ClauseStore.extract_yields (renders.balanced separates)
    (renders.isClean separates) trimmed length (renders.nestsWithin separates)
  have total := outlay_level (Nat.le_refl (expression.height - 1)) full.byteLength
  rw [if_neg (by simp [filled, empty])]
  refine (extracted.bind (fun _ => False.elim) fun rule next known grows => ?_).weaken total
  obtain ⟨free, residue⟩ := known
  have fits : full.byteLength ≤ next.maxExpansion := by
    rw [grows.maxExpansion]
    exact length
  show next.Gives _ _ (if rule = [] then _ else _)
  -- Extraction takes brackets around the whole off, so what they hold is read at this level.
  cases residue with
  | whole several abridges =>
    have remains := renders.remains separates abridges free
    rw [if_neg (remains.isOperand separates).filled]
    exact readShape_remains separates reads remains (fun group => absurd group several) (by omega)
      fits (Nat.le_refl _) fun other => absurd rfl other
  | @inner inside rule balanced abridges =>
    rcases renders.eq_bracketed separates ⟨inside, rfl, balanced⟩ with rfl | ⟨inner, rfl⟩
    · have none : Text.trim inside = [] :=
        Text.trim_of_blank (separates.isBlank renders.gaps_of_vacant)
      rw [none] at abridges
      rw [if_pos (abridges.eq_nil_iff.mpr rfl)]
      exact ClauseStore.Yields.weaken (.pure .vacant) (Nat.zero_le _)
    · have written := renders.trim_of_group separates
      have remains := written.remains separates abridges free
      have shorter := byteLength_trim_lt inside
      have other : Text.trim inside ≠ '(' :: inside ++ [')'] := fun same => by
        rw [same] at shorter
        exact Nat.lt_irrefl _ shorter
      have fewer := Nat.le_of_lt shorter
      have below : inner.height < levels := Nat.lt_of_succ_lt_succ low
      have cheap := outlay_mono (Nat.le_refl (inner.height - 1)) fewer
      have again := reads inner next _ _ written.filled_and_trimmed.2.trim_self written below
        (Nat.le_trans fewer fits)
      have gives := readShape_remains separates reads remains (fun _ => other)
        (Nat.le_of_lt below) (Nat.le_trans fewer fits)
        (outlay_mono (Nat.sub_le _ _) (Nat.le_refl _)) fun _ => again
      rw [if_neg (remains.isOperand separates).filled]
      exact gives.mono (fun _ _ => .group) (fun _ => .group) cheap

/-- Reading with some levels reads all expressions of less levels. -/
theorem reads_levels (separates : IsGap gap) (reader : Reader Leaf) (levels : Nat) :
    Reads reader gap levels (reader.readExpression levels) := by
  induction levels with
  | zero => exact fun expression store text full trim renders low => absurd low (Nat.not_lt_zero _)
  | succ levels ih => exact reads_succ separates ih

end Expression

end AccessRules
