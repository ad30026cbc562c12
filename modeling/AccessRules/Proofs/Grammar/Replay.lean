import AccessRules.Proofs.Grammar.Derivation
import AccessRules.Proofs.Grammar.Remains

/-!
# Reading derived texts

What is derived from a balanced text is what every reading of it gives, with any sound store and at
any levels, unless a limit is exceeded. The groups may get other numbers than when the text was
read before, but the text without them is divided into the same parts.
-/
namespace AccessRules

open AccessRules.Bracket

namespace Reader

variable {Leaf : Type} {reader : Reader Leaf}

/-- The outcome is the condition with a store that continues the one before, unless a limit is
exceeded. -/
def Repeats (store : ClauseStore) (condition : Condition Leaf) :
    Except RuleError (Condition Leaf × ClauseStore) → Prop :=
  Settles False fun (answer, next) => answer = condition ∧ store.Continues next

/-- Whatever is in a sound store, the text is read as the condition. -/
def Replays (reader : Reader Leaf) (text : Text) (condition : Condition Leaf) : Prop :=
  ∀ (levels : Nat) (store : ClauseStore), store.Sound →
    Repeats store condition (reader.readExpression levels store text)

/-- Whatever names the groups of the text have, what is left of it without them is read as the
condition. A group that is the whole text must not be the text that is being read. -/
def Reshapes (reader : Reader Leaf) (full : Text) (condition : Condition Leaf) : Prop :=
  ∀ (levels : Nat) (store : ClauseStore) (text rule : Text), store.Sound →
    Abridges store.Names full rule → Parted rule → (IsGroup full → full ≠ text) →
      Repeats store condition (reader.readShape (reader.readExpression levels) text rule store)

/-- Reading goes on with a store that continues the one before. -/
theorem Repeats.after {store middle : ClauseStore} {condition : Condition Leaf}
    {result : Except RuleError (Condition Leaf × ClauseStore)} (continues : store.Continues middle)
    (repeats : Repeats middle condition result) : Repeats store condition result :=
  Ends.mono repeats fun _ good => ⟨good.1, continues.trans good.2⟩

/-- Only the trimmed text is read. -/
theorem readExpression_trim (levels : Nat) (store : ClauseStore) (text : Text) :
    reader.readExpression levels store text.trim = reader.readExpression levels store text := by
  cases levels with
  | zero => rfl
  | succ levels => simp only [readExpression, text.isTrimmed_trim.trim_self]

/-- A segment is expanded to its part. -/
theorem expand_repeats {store : ClauseStore} {full short : Text} (sound : store.Sound)
    (clean : IsClean full) (abridges : Abridges store.Names full short) :
    Settles False (fun text => text = full) (store.expand short) := by
  have kept : Abridges (store.Keeps False) full short :=
    abridges.mono fun _ body named => ⟨body, named, .inl rfl⟩
  refine (ClauseStore.expand_settles sound kept clean.isIntact.isTame).mono fun text good => ?_
  exact good.2.2.resolve_right fun risk => risk.1

/-- Operands whose parts are read again are read as their conditions. -/
theorem readOperands_repeats {junction : Junction} {rule : Text} {names : Text → Text → Prop}
    {parts : List (Text × Condition Leaf)} {segments : List Text} (levels : Nat)
    (each : List.Forall₂ (Abridges names) (parts.map Prod.fst) segments)
    (replays : ∀ part ∈ parts, Text.trim part.1 ≠ [] ∧ IsClean part.1 ∧
      Replays reader part.1 part.2) {store : ClauseStore} (sound : store.Sound)
    (known : ∀ digits body, names digits body → store.Names digits body) :
    Settles False (fun (operands, next) => operands = parts.map Prod.snd ∧ store.Continues next)
      (readOperands (reader.readExpression levels) junction rule store segments) := by
  induction parts generalizing store segments with
  | nil =>
    cases each
    exact ⟨rfl, .refl sound⟩
  | cons part parts ih =>
    cases each with
    | @cons _ segment _ segments abridges further =>
      obtain ⟨filled, clean, again⟩ := replays part (by simp)
      have kept := abridges.mono known
      rw [readOperands, if_neg (mt kept.trim.eq_nil_iff.mp filled)]
      refine (expand_repeats sound clean kept).bind fun text same => ?_
      subst same
      refine (again levels store sound).bind fun (operand, middle) ⟨same, continues⟩ => ?_
      have rest := ih further (fun other mem => replays other (by simp [mem])) continues.sound
        fun digits body named => continues.names _ _ (known _ _ named)
      refine rest.bind fun (operands, next) ⟨others, goes⟩ => ?_
      exact ⟨congrArg₂ List.cons same others, continues.trans goes⟩

/-! ## One level -/

/-- What is left of a divided text is read as its parts joined. -/
theorem reshapes_joined {full short : Text} {names : Text → Text → Prop} {junction : Junction}
    {parts : List (Text × Condition Leaf)} (clean : IsClean full)
    (functional : ∀ digits body other, names digits body → names digits other → body = other)
    (divides : Divides names junction full short (parts.map Prod.fst) (junction.segments short))
    (parted : Parted short) (shape : Shape.of short = .joined junction (junction.segments short))
    (replays : ∀ part ∈ parts, Text.trim part.1 ≠ [] ∧ Replays reader part.1 part.2) :
    Reshapes reader full (junction.join (parts.map Prod.snd)) := by
  intro levels store text rule sound abridges parted_rule other
  have twins := Twins.of_parted divides.abridges abridges parted parted_rule
  obtain ⟨texts, first, second⟩ := twins.divides junction
  obtain rfl := divides.parts_unique functional clean first
  have cleans : ∀ part ∈ parts, Text.trim part.1 ≠ [] ∧ IsClean part.1 ∧
      Replays reader part.1 part.2 := fun part mem =>
    ⟨(replays part mem).1, clean.part (divides.separates.infix_of_mem (List.mem_map_of_mem mem)),
      (replays part mem).2⟩
  rw [readShape, twins.shape_joined shape]
  refine (readOperands_repeats levels second.forall₂ cleans sound fun _ _ => id).bind
    fun (operands, next) ⟨same, continues⟩ => ?_
  exact ⟨congrArg junction.join same, continues⟩

/-- What is left of a negation is read as one. -/
theorem reshapes_negation {full word operand short : Text} {names : Text → Text → Prop}
    {condition : Condition Leaf} (clean : IsClean full) (trimmed : full.IsTrimmed)
    (whole : full = word ++ operand) (abridges : Abridges names operand short)
    (parted : Parted (word ++ short)) (shape : Shape.of (word ++ short) = .negation short)
    (replays : Replays reader operand condition) : Reshapes reader full (.not condition) := by
  intro levels store text rule sound abridges_rule parted_rule other
  subst whole
  have before : Abridges names (word ++ operand) (word ++ short) :=
    (Abridges.refl names word).append abridges
  have twins := Twins.of_parted before abridges_rule parted parted_rule
  obtain ⟨first, inside, back, split, same, rfl, shaped, further⟩ :=
    twins.shape_negation trimmed shape
  obtain rfl := List.append_cancel_right same
  obtain rfl := List.append_cancel_left split
  have clean_operand : IsClean operand := clean.part (List.suffix_append _ _).isInfix
  rw [readShape, shaped]
  refine (expand_repeats sound clean_operand further.symm.abridges).bind fun expanded same => ?_
  subst same
  refine (replays levels store sound).bind fun (answer, next) ⟨same, continues⟩ => ?_
  exact ⟨congrArg Condition.not same, continues⟩

/-- A token is read as the readers of tokens say. -/
theorem reshapes_token {full : Text} {condition : Condition Leaf} (clean : IsClean full)
    (free : ∀ c ∈ full, isBracket c = false) (trimmed : full.IsTrimmed)
    (shape : Shape.of full = .atom) (read : reader.readToken full = .ok condition) :
    Reshapes reader full condition := by
  intro levels store text rule sound abridges parted other
  have opens : '(' ∉ full := fun mem => absurd (free '(' mem) (by decide)
  obtain rfl := abridges.eq_of_unbracketed opens
  rw [readShape, shape]
  refine (expand_repeats sound clean abridges).bind fun expanded same => ?_
  subst same
  have bare : (expanded.contains '(' && expanded.contains ')') = false := by simp [opens]
  rw [bare, trimmed.trim_self, read]
  exact ⟨rfl, .refl sound⟩

/-- A marker for a group is read by reading the group. -/
theorem reshapes_group {full : Text} {condition : Condition Leaf} (clean : IsClean full)
    (group : IsGroup full) (trimmed : full.IsTrimmed) (replays : Replays reader full condition) :
    Reshapes reader full condition := by
  intro levels store text rule sound abridges parted other
  have free := abridges.free_of_parted parted group.balanced
  obtain ⟨digits, number, named, rfl⟩ :=
    Expression.eq_marker_of_abridges abridges group free
  rw [readShape, Shape.of_marker number]
  refine (expand_repeats sound clean abridges).bind fun expanded same => ?_
  subst same
  obtain ⟨inner, rfl, balanced_inner⟩ := group
  have both : (('(' :: inner ++ [')']).contains '(' && ('(' :: inner ++ [')']).contains ')') =
      true := by simp
  have moved : ¬('(' :: inner ++ [')'] = Marker.ofDigits digits ∨
      Text.trim ('(' :: inner ++ [')']) = text) := by
    rw [trimmed.trim_self, not_or]
    refine ⟨by simp [Marker.ofDigits], other ⟨inner, rfl, balanced_inner⟩⟩
  rw [both, if_pos rfl, if_neg moved]
  exact replays levels store sound

/-! ## All levels -/

/-- Extraction leaves the residue of a balanced clean text. -/
theorem extract_repeats {store : ClauseStore} {full : Text} (sound : store.Sound)
    (clean : IsClean full) (trimmed : full.IsTrimmed) (balanced : Balanced full) :
    Settles False (fun (rule, next) => store.Continues next ∧ Residue next.Names full rule ∧
      Parted rule) (store.extract full) := by
  refine (ClauseStore.extract_settles sound clean.isIntact.isTame trimmed (.inr balanced)).mono
    fun (rule, next) ⟨continues, residue, parted, _⟩ => ⟨continues, ?_, parted⟩
  cases residue with
  | whole several abridges =>
    exact .whole several (abridges.mono fun _ _ => ClauseStore.keeps_false)
  | inner inside abridges => exact .inner inside (abridges.mono fun _ _ => ClauseStore.keeps_false)

/-- A text that is no group is read as what is left of it without its groups. -/
theorem replays_of_reshapes {text : Text} {condition : Condition Leaf} (clean : IsClean text.trim)
    (balanced : Balanced text.trim) (filled : text.trim ≠ []) (bare : ¬IsGroup text.trim)
    (reshapes : Reshapes reader text.trim condition) : Replays reader text condition := by
  intro levels store sound
  cases levels with
  | zero => exact .inl rfl
  | succ levels =>
    have pair : IsGroup ('(' :: [] ++ [')']) := isGroup_of_free (by simp)
    have several : text.trim ≠ ['(', ')'] := fun same => bare (same ▸ pair)
    rw [readExpression, if_neg (not_or.mpr ⟨filled, several⟩)]
    refine (extract_repeats sound clean text.isTrimmed_trim balanced).bind ?_
    rintro ⟨rule, middle⟩ ⟨continues, residue, parted⟩
    generalize whole : text.trim = full at residue
    cases residue with
    | whole _ abridges =>
      subst whole
      dsimp only
      rw [if_neg (mt abridges.eq_nil_iff.mp filled)]
      exact (reshapes levels middle text.trim rule continues.sound abridges parted
        fun group => absurd group bare).after continues
    | @inner inside _ within abridges => exact absurd ⟨inside, whole, within⟩ bare

/-- A group is read as what it holds. -/
theorem replays_group {text inside : Text} {condition : Condition Leaf}
    (clean : IsClean text.trim) (whole : text.trim = '(' :: inside ++ [')'])
    (balanced : Balanced inside) (vacant : inside.trim = [] → condition = .literal true)
    (reshapes : inside.trim ≠ [] → Reshapes reader inside.trim condition) :
    Replays reader text condition := by
  intro levels store sound
  cases levels with
  | zero => exact .inl rfl
  | succ levels =>
    have group : IsGroup text.trim := ⟨inside, whole, balanced⟩
    rw [readExpression]
    split
    · rename_i empty
      refine ⟨(vacant ?_).symm, .refl sound⟩
      rcases empty with none | pair
      · simp [none] at whole
      · have within : [')'] = inside ++ [')'] := (List.cons.inj (pair.symm.trans whole)).2
        rw [List.self_eq_append_left.mp within]
        rfl
    · refine (extract_repeats sound clean text.isTrimmed_trim group.balanced).bind ?_
      rintro ⟨rule, middle⟩ ⟨continues, residue, parted⟩
      have shorter := byteLength_trim_lt inside
      generalize split : text.trim = full at residue
      cases residue with
      | whole several abridges => exact absurd group (split ▸ several)
      | @inner other _ within abridges =>
        rw [whole] at split
        obtain rfl : inside = other := List.append_cancel_right (List.cons.inj split).2
        dsimp only
        split
        · rename_i empty
          exact ⟨(vacant (abridges.eq_nil_iff.mp empty)).symm, continues⟩
        · rename_i filled
          have reads := reshapes (mt abridges.eq_nil_iff.mpr filled)
          refine (reads levels middle _ rule continues.sound abridges parted ?_).after continues
          rintro - same
          rw [same] at shorter
          exact Nat.lt_irrefl _ shorter

end Reader

open Reader

/-- A text is neither empty nor one group if what is left of it without groups is no atom. -/
theorem Abridges.filled_and_bare {names : Text → Text → Prop} {full short : Text}
    (abridges : Abridges names full short) (free : ∀ c ∈ short, isBracket c = false)
    (shape : Shape.of short ≠ .atom) : full ≠ [] ∧ ¬IsGroup full := by
  constructor
  · rintro rfl
    obtain rfl := abridges.eq_nil_iff.mpr rfl
    exact shape rfl
  · intro group
    obtain ⟨digits, number, -, rfl⟩ := Expression.eq_marker_of_abridges abridges group free
    exact shape (Shape.of_marker number)

/-- A derived text is read again as its condition, and what is left of it without its groups is. -/
theorem Derives.replays {Leaf : Type} {reader : Reader Leaf} {text : Text}
    {condition : Condition Leaf} (derives : Derives reader text condition)
    (balanced : Balanced text) (unmarked : Unmarked text) :
    (text.trim = [] → condition = .literal true) ∧
      (text.trim ≠ [] → Reshapes reader text.trim condition) ∧ Replays reader text condition := by
  induction derives with
  | @blank text none =>
    refine ⟨fun _ => rfl, fun some => absurd none some, fun levels store sound => ?_⟩
    cases levels with
    | zero => exact .inl rfl
    | succ levels =>
      rw [readExpression, if_pos (.inl none)]
      exact ⟨rfl, .refl sound⟩
  | @group text inside condition whole balanced_inside further ih =>
    have clean := (Derives.group whole balanced_inside further).isClean_trim unmarked
    have within : inside <:+: text := by
      have first : inside <:+: '(' :: inside ++ [')'] := ⟨['('], [')'], rfl⟩
      exact (whole ▸ first).trans text.trim_isInfix
    obtain ⟨vacant, reshapes, -⟩ := ih balanced_inside (unmarked.part within)
    have replays := replays_group clean whole balanced_inside vacant reshapes
    have replays_trim : Replays reader text.trim condition := fun levels store sound => by
      rw [readExpression_trim]
      exact replays levels store sound
    refine ⟨fun none => by simp [none] at whole, fun _ => ?_, replays⟩
    exact reshapes_group clean ⟨inside, whole, balanced_inside⟩ text.isTrimmed_trim replays_trim
  | @joined text short names junction parts functional divides parted shape filled each ih =>
    have clean := (Derives.joined functional divides parted shape filled each).isClean_trim unmarked
    have balanced_trim := balanced_trim_iff.mpr balanced
    have free := divides.abridges.free_of_parted parted balanced_trim
    obtain ⟨some, bare⟩ := divides.abridges.filled_and_bare free (by simp [shape])
    have replays : ∀ part ∈ parts, Text.trim part.1 ≠ [] ∧ Replays reader part.1 part.2 := by
      intro part mem
      have mem_text : part.1 ∈ parts.map Prod.fst := List.mem_map_of_mem mem
      have within := (divides.separates.infix_of_mem mem_text).trans text.trim_isInfix
      exact ⟨filled part mem,
        (ih part mem (divides.balanced free part.1 mem_text) (unmarked.part within)).2.2⟩
    have reshapes := reshapes_joined clean functional divides parted shape replays
    exact ⟨fun none => absurd none some, fun _ => reshapes,
      replays_of_reshapes clean balanced_trim some bare reshapes⟩
  | @negation text word operand short names condition whole written abridges parted shape further
      ih =>
    have clean :=
      (Derives.negation whole written abridges parted shape further).isClean_trim unmarked
    have balanced_trim := balanced_trim_iff.mpr balanced
    have joined : Abridges names text.trim (word ++ short) :=
      whole ▸ (Abridges.refl names word).append abridges
    have free := joined.free_of_parted parted balanced_trim
    obtain ⟨some, bare⟩ := joined.filled_and_bare free (by simp [shape])
    have balanced_operand : Balanced operand := abridges.balanced_iff.mpr
      (balanced_of_free fun c mem => free c (List.mem_append_right word mem))
    have within : operand <:+: text :=
      (whole ▸ (List.suffix_append word operand).isInfix : operand <:+: text.trim).trans
        text.trim_isInfix
    have replays := (ih balanced_operand (unmarked.part within)).2.2
    have reshapes := reshapes_negation clean text.isTrimmed_trim whole abridges parted shape replays
    exact ⟨fun none => absurd none some, fun _ => reshapes,
      replays_of_reshapes clean balanced_trim some bare reshapes⟩
  | @token text condition filled free shape read =>
    have clean := (Derives.token filled free shape read).isClean_trim unmarked
    have bare : ¬IsGroup text.trim := by
      rintro ⟨inner, same, -⟩
      exact absurd (free '(' (by simp [same])) (by decide)
    have reshapes := reshapes_token clean free text.isTrimmed_trim shape read
    exact ⟨fun none => absurd none filled, fun _ => reshapes,
      replays_of_reshapes clean (balanced_of_free free) filled bare reshapes⟩

namespace Reader

variable {Leaf : Type} {reader : Reader Leaf}

/-- The rule is accepted as the condition, unless a limit is exceeded. -/
def AcceptsUpToLimits (reader : Reader Leaf) (rule : Text) (condition : Condition Leaf) : Prop :=
  (∃ excess, reader.read rule = .error (.exceeded excess)) ∨ reader.read rule = .ok condition

/-- A balanced rule from which a condition is derived is accepted as the condition, unless a limit
is exceeded. -/
theorem accepts_of_derives {rule : Text} {condition : Condition Leaf}
    (derives : Derives reader (rule.map plainSpace) condition) (balanced : Balanced rule)
    (unmarked : Unmarked rule) : reader.AcceptsUpToLimits rule condition := by
  have settled : Settles False (fun answer => answer = condition) (reader.read rule) := by
    unfold read
    dsimp only
    split
    · exact .inl rfl
    · split
      · exact .inl rfl
      · rw [unmarked.find?_eq_none, plainSpaces_eq_map]
        have plain : Balanced (rule.map plainSpace) := balanced_map_plainSpace.mpr balanced
        have replays := (derives.replays plain unmarked.map_plainSpace).2.2
        exact (replays reader.limits.levels _ (sound_ofLimits _)).bind fun _ good => good.1
  unfold AcceptsUpToLimits
  generalize reader.read rule = result at settled ⊢
  cases result with
  | ok answer => exact .inr (congrArg Except.ok settled)
  | error error =>
    have exceeded : error.isExceeded = true := settled.resolve_right id
    cases error with
    | exceeded excess => exact .inl ⟨excess, rfl⟩
    | malformed => contradiction
    | unrecognized => contradiction
    | markup => contradiction

end Reader

end AccessRules
