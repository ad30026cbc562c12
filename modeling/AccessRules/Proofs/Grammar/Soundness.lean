import AccessRules.Proofs.Grammar.Derivation
import AccessRules.Proofs.Grammar.Rendering

/-!
# Soundness of the grammar

Without readers of tokens only the literals are tokens. Every balanced rule that is then accepted
is blank or a written form of an expression that is compiled to the answer, with blanks of any
script between its parts. So a rule with a missing operand, with a keyword that touches a bracket
or with two operands side by side is refused, however deep the place is.
-/
namespace AccessRules

open AccessRules.Bracket

/-! ## Literals as tokens -/

/-- A letter is a word character. -/
theorem isWordCharacter_of_isAlpha {c : Char} (alpha : c.isAlpha = true) :
    Text.isWordCharacter c = true := by
  have code := toNat_of_isAlpha alpha
  have small : c.toNat < 0x80 := by omega
  simp [Text.isWordCharacter, small, Char.isAlphanum, alpha]

namespace Expression

/-- A word of letters that is no keyword may be written as a token. -/
theorem isToken_of_isAlpha {word : Text} (filled : word ≠ [])
    (letters : ∀ c ∈ word, c.isAlpha = true)
    (unjoined : ∀ junction : Junction, word.lower ≠ junction.keyword)
    (affirmative : word.lower ≠ "not".toList) : IsToken word := by
  have solid : ∀ c ∈ word, Text.isBlank c = false := fun c mem => isBlank_of_isAlpha (letters c mem)
  have words : word.words = [word] := Text.words_of_solid filled solid
  have unmarked : Unmarked word := by
    intro digits some decimal written
    have mark : '@' ∈ word := written.subset (by simp [Marker.ofDigits])
    exact absurd (letters _ mark) (by decide)
  refine ⟨filled, (Text.isTrimmed_of_solid solid).trim_self, fun c mem => ?_,
    unmarked.find?_eq_none, fun part mem junction => ?_, fun part mem => ?_, fun junction => ?_⟩
  · have alpha := letters c mem
    refine ⟨?_, ?_, ?_, ?_, ?_⟩ <;> rintro rfl <;> exact absurd alpha (by decide)
  · rw [words, List.mem_singleton] at mem
    rw [mem]
    exact unjoined junction
  · obtain rfl : word = part := by simpa [words] using mem
    exact affirmative
  · constructor
    · by_contra starts
      have begun : junction.starts word = true := by simpa using starts
      obtain ⟨rest, found, ends⟩ := (Option.any_eq_true _ _).mp begun
      obtain ⟨written, rfl, lower⟩ := Text.afterWord?_eq_some_iff.mp found
      cases rest with
      | nil => exact unjoined junction (by rwa [List.append_nil])
      | cons c rest =>
        have inside := isWordCharacter_of_isAlpha (letters c (by simp))
        simp [Junction.endsWord, inside] at ends
    · by_contra finishes
      obtain ⟨front, written, rfl, lower, ends⟩ :=
        Junction.finishes_iff.mp (by simpa using finishes)
      rcases List.eq_nil_or_concat front with rfl | ⟨front, c, rfl⟩
      · exact unjoined junction lower
      · have inside := isWordCharacter_of_isAlpha (letters c (by simp))
        rw [ends c (by simp)] at inside
        contradiction

/-- Literals consist of small letters. -/
theorem isLower_of_literal {literal : Text} (known : literal ∈ ["true".toList, "false".toList]) :
    ∀ c ∈ literal, c.isLower = true := by
  simp only [List.mem_cons, List.not_mem_nil, or_false] at known
  rcases known with rfl | rfl <;> exact List.all_eq_true.mp (by decide)

/-- A literal in any case may be written as a token. -/
theorem isToken_of_literal {word : Text}
    (known : word.lower ∈ ["true".toList, "false".toList]) : IsToken word := by
  refine isToken_of_isAlpha ?_ (fun c => Text.isAlpha_of_lower_eq rfl (isLower_of_literal known))
    (fun junction same => ?_) fun same => ?_
  · rintro rfl
    exact absurd known (by decide)
  · rw [same] at known
    cases junction <;> exact absurd known (by decide)
  · rw [same] at known
    exact absurd known (by decide)

end Expression

namespace Reader

variable {Leaf : Type} {reader : Reader Leaf}

/-- Without readers of tokens, a token that is accepted is a literal. -/
theorem literal_of_readToken {token : Text} {condition : Condition Leaf}
    (bare : reader.tokenReaders = []) (accepted : reader.readToken token = .ok condition) :
    token.lower ∈ ["true".toList, "false".toList] := by
  unfold readToken at accepted
  split at accepted
  · rename_i same
    exact List.mem_cons.mpr (.inl (beq_iff_eq.mp same))
  · split at accepted
    · rename_i same
      exact List.mem_cons_of_mem _ (List.mem_singleton.mpr (beq_iff_eq.mp same))
    · rw [bare] at accepted
      contradiction

end Reader

/-! ## Divided texts -/

/-- The text is divided at the keyword of a junction, once its groups are taken out. -/
def IsDivided (junction : Junction) (text : Text) : Prop :=
  ∃ names short, Abridges names text short ∧ Parted short ∧ junction.split? short ≠ none

/-- A text is not divided if one abridgement that leaves no group is not split. -/
theorem Abridges.not_isDivided {names : Text → Text → Prop} {junction : Junction}
    {full short : Text} (abridges : Abridges names full short) (parted : Parted short)
    (unsplit : junction.split? short = none) : ¬IsDivided junction full := by
  rintro ⟨others, other, again, parted_other, some⟩
  exact some ((Twins.of_parted abridges again parted parted_other).split?_eq_none unsplit)

/-- A text is not divided without the blanks around it if an abridgement that leaves no bracket is
not split. -/
theorem Abridges.not_isDivided_trim {names : Text → Text → Prop} {junction : Junction}
    {full short : Text} (abridges : Abridges names full short)
    (free : ∀ c ∈ short, isBracket c = false) (unsplit : junction.split? short = none) :
    ¬IsDivided junction full.trim := by
  have opening : '(' ∉ short.trim := fun mem =>
    absurd (free _ (short.trim_isInfix.subset mem)) (by decide)
  exact abridges.trim.not_isDivided (parted_of_not_mem opening)
    (Junction.split?_eq_none_of_part unsplit short.trim_isInfix)

/-- The parts of a balanced text are not divided at keywords that none of its segments has. -/
theorem Divides.not_isDivided {names : Text → Text → Prop} {junction other : Junction}
    {full short : Text} {parts segments : List Text}
    (divides : Divides names junction full short parts segments)
    (free : ∀ c ∈ short, isBracket c = false)
    (unsplit : ∀ segment ∈ segments, other.split? segment = none) :
    ∀ part ∈ parts, ¬IsDivided other (Text.trim part) := by
  induction divides with
  | last abridges =>
    intro part mem
    rw [List.mem_singleton.mp mem]
    exact abridges.not_isDivided_trim free (unsplit _ (by simp))
  | cons first boundary further ih =>
    intro part mem
    rcases List.mem_cons.mp mem with rfl | later
    · exact first.not_isDivided_trim (fun c inside => free c (by simp [inside]))
        (unsplit _ (by simp))
    · exact ih (fun c inside => free c (by simp [inside]))
        (fun segment inside => unsplit segment (by simp [inside])) part later

/-- No part of a balanced text is divided at a keyword that binds as loosely as the one the text
is divided at. -/
theorem Divides.tight {names : Text → Text → Prop} {junction other : Junction}
    {full short : Text} {parts : List Text}
    (divides : Divides names junction full short parts (junction.segments short))
    (shape : Shape.of short = .joined junction (junction.segments short))
    (free : ∀ c ∈ short, isBracket c = false) (loose : junction.rank ≤ other.rank) :
    ∀ part ∈ parts, ¬IsDivided other (Text.trim part) := by
  refine divides.not_isDivided free fun segment mem => ?_
  obtain ⟨-, first, -⟩ := Shape.of_eq_joined_iff.mp shape
  have inside := (junction.separates_segments short).infix_of_mem mem
  cases junction with
  | or =>
    cases other with
    | or => exact Junction.split?_of_mem_segments mem
    | and => exact absurd loose (by decide)
  | and =>
    cases other with
    | or => exact Junction.split?_eq_none_of_part (first rfl) inside
    | and => exact Junction.split?_of_mem_segments mem

/-! ## Blanks between parts -/

/-- Blanks at the ends of two texts belong to what stands between them. -/
theorem Text.trim_between {front back : Text} (begun : front.trim ≠ []) (ended : back.trim ≠ [])
    (between : Text) :
    ∃ lead trail, (∀ c ∈ lead, isBlank c = true) ∧ (∀ c ∈ trail, isBlank c = true) ∧
      Text.trim (front ++ between ++ back) =
        front.trim ++ (lead ++ between ++ trail) ++ back.trim := by
  obtain ⟨first, lead, split_front, blank_first, blank_lead⟩ := front.exists_eq_trim
  obtain ⟨trail, last, split_back, blank_trail, blank_last⟩ := back.exists_eq_trim
  refine ⟨lead, trail, blank_lead, blank_trail, ?_⟩
  have trimmed := front.isTrimmed_trim.append begun back.isTrimmed_trim ended
    (lead ++ between ++ trail)
  rw [← trimmed.trim_eq blank_first blank_last]
  conv_lhs => rw [split_front, split_back]
  simp

namespace Expression

/-- Operands with boundaries of blanks between them are a written form of their junction, and a
single operand is one of itself. -/
theorem renders_of_divides {names : Text → Text → Prop} {junction : Junction} {full short : Text}
    {parts segments : List Text} {first : Expression} {further : List Expression}
    (divides : Divides names junction full short parts segments)
    (free : ∀ c ∈ short, isBracket c = false)
    (operands : List.Forall₂ (fun part expression =>
      Renders Text.isBlank expression (Text.trim part) ∧ expression.rank < junction.rank)
      parts (first :: further)) :
    (further = [] → Renders Text.isBlank first full.trim) ∧
      (further ≠ [] → Renders Text.isBlank (.joined junction first further) full.trim) := by
  induction divides generalizing first further with
  | last abridges =>
    cases operands with
    | cons operand none =>
      cases none
      exact ⟨fun _ => operand.1, fun some => absurd rfl some⟩
  | @cons part segment lead word trail full short parts segments abridges boundary later ih =>
    cases operands with
    | cons operand rest =>
      cases rest with
      | nil => cases later
      | @cons next second others further another remaining =>
        refine ⟨fun none => absurd none (List.cons_ne_nil _ _), fun _ => ?_⟩
        have tail := ih (fun c mem => free c (by simp [mem])) (.cons another remaining)
        have blank_lead : ∀ c ∈ lead, Text.isBlank c = true := fun c mem =>
          Junction.isBlank_of_leads (boundary.leading c mem) (free c (by simp [mem]))
        have blank_trail : ∀ c ∈ trail, Text.isBlank c = true := fun c mem =>
          Junction.isBlank_of_trails (boundary.trailing c mem) (free c (by simp [mem]))
        have filled : full.trim ≠ [] := by
          cases further with
          | nil => exact (tail.1 rfl).filled_and_trimmed.1
          | cons third further => exact (tail.2 (List.cons_ne_nil _ _)).filled_and_trimmed.1
        obtain ⟨before, after, blank_before, blank_after, whole⟩ :=
          Text.trim_between operand.1.filled_and_trimmed.1 filled (lead ++ word ++ trail)
        have link : IsLink Text.isBlank junction (before ++ lead) word (trail ++ after) := by
          refine ⟨by simp [boundary.begun], by simp [boundary.unfinished], fun c mem => ?_,
            boundary.written⟩
          simp only [List.mem_append] at mem
          rcases mem with (mem | mem) | mem | mem
          · exact blank_before c mem
          · exact blank_lead c mem
          · exact blank_trail c mem
          · exact blank_after c mem
        have regroup : before ++ (lead ++ word ++ trail) ++ after =
            before ++ lead ++ word ++ (trail ++ after) := by simp
        rw [whole, regroup]
        cases further with
        | nil => exact .pair link operand.1 operand.2 (tail.1 rfl) another.2
        | cons third further =>
          exact .more link operand.1 operand.2 (tail.2 (List.cons_ne_nil _ _))

/-! ## Expressions of derived texts -/

variable {Leaf : Type} {reader : Reader Leaf}

/-- The text is a written form of the expression, which is compiled to the condition; only a text
that is divided at the keyword of a junction is a written form of that junction. -/
structure Spells (reader : Reader Leaf) (expression : Expression) (text : Text)
    (condition : Condition Leaf) : Prop where
  /-- The text is a written form of it. -/
  renders : Renders Text.isBlank expression text.trim
  /-- It is compiled to the condition. -/
  compiles : expression.compile reader = .ok condition
  /-- Junctions come from keywords. -/
  divided : ∀ junction : Junction, expression.rank = junction.rank → IsDivided junction text.trim

/-- Expressions that bind tightest come from no keyword. -/
theorem Spells.of_unary {expression : Expression} {text : Text} {condition : Condition Leaf}
    (unary : expression.rank = 0) (renders : Renders Text.isBlank expression text.trim)
    (compiles : expression.compile reader = .ok condition) :
    Spells reader expression text condition :=
  ⟨renders, compiles, fun junction loose => absurd junction.rank_pos (by omega)⟩

/-- An expression binds as tight as no junction, or as one of them. -/
theorem rank_cases (expression : Expression) :
    expression.rank = 0 ∨ ∃ junction : Junction, expression.rank = junction.rank := by
  cases expression with
  | joined junction first further => exact .inr ⟨junction, rfl⟩
  | _ => exact .inl rfl

/-- An expression binds tighter than a junction if its text is divided at no keyword that binds as
loosely. -/
theorem Spells.rank_lt {expression : Expression} {text : Text} {condition : Condition Leaf}
    {junction : Junction} (spells : Spells reader expression text condition)
    (tight : ∀ other : Junction, junction.rank ≤ other.rank → ¬IsDivided other text.trim) :
    expression.rank < junction.rank := by
  rcases expression.rank_cases with unary | ⟨other, rank⟩
  · rw [unary]
    exact junction.rank_pos
  · by_contra loose
    exact tight other (by omega) (spells.divided other rank)

/-- A list of expressions is compiled one by one. -/
theorem compileAll_eq_ok {expressions : List Expression} {conditions : List (Condition Leaf)}
    (each : List.Forall₂ (fun expression condition => expression.compile reader = .ok condition)
      expressions conditions) : compileAll reader expressions = .ok conditions := by
  induction each with
  | nil => rfl
  | cons first further ih =>
    rw [compileAll, first, ih]
    rfl

/-- A group of an expression, or of blanks, is a written form. -/
theorem spells_group {text inside : Text} {condition : Condition Leaf}
    (whole : text.trim = '(' :: inside ++ [')'])
    (inner : (inside.trim = [] ∧ condition = .literal true) ∨
      ∃ expression, Spells reader expression inside condition) :
    ∃ expression, Spells reader expression text condition := by
  obtain ⟨before, after, split, blank_before, blank_after⟩ := inside.exists_eq_trim
  have blanks : ∀ c ∈ before ++ after, Text.isBlank c = true := fun c mem =>
    (List.mem_append.mp mem).elim (blank_before c) (blank_after c)
  rcases inner with ⟨none, rfl⟩ | ⟨expression, spells⟩
  · rw [none, List.append_nil] at split
    refine ⟨.vacant, .of_unary rfl ?_ rfl⟩
    rw [whole]
    exact .vacant (split ▸ blanks)
  · refine ⟨.group expression, .of_unary rfl ?_ spells.compiles⟩
    rw [whole, split]
    exact .group blanks spells.renders

/-- What a negation in a trimmed text negates is not blank. -/
theorem filled_of_negated {text word operand : Text} (whole : text.trim = word ++ operand)
    (written : word.lower = "not ".toList) : operand.trim ≠ [] := by
  intro none
  obtain ⟨letters, rfl, negates⟩ := eq_append_space_of_lower written
  obtain ⟨before, after, split, blank_before, blank_after⟩ := operand.exists_eq_trim
  have blank : ∀ c ∈ [' '] ++ operand, Text.isBlank c = true := by
    rw [split, none, List.append_nil]
    simp only [List.cons_append, List.nil_append, List.forall_mem_cons]
    exact ⟨by decide, fun c mem => (List.mem_append.mp mem).elim (blank_before c) (blank_after c)⟩
  have solid := Text.isTrimmed_of_solid (solid_of_negation negates)
  have trimmed := solid.trim_eq (fun c mem => absurd mem List.not_mem_nil : ∀ c ∈ [], _) blank
  have same : letters ++ [' '] ++ operand = letters := by
    rw [← whole, ← text.isTrimmed_trim.trim_self, whole]
    simpa using trimmed
  simpa using congrArg List.length same

/-- A negation of an operand that is divided at no keyword is a written form. -/
theorem spells_negation {text word operand : Text} {expression : Expression}
    {condition : Condition Leaf} (whole : text.trim = word ++ operand)
    (written : word.lower = "not ".toList)
    (tight : ∀ junction : Junction, ¬IsDivided junction operand.trim)
    (spells : Spells reader expression operand condition) :
    ∃ expression, Spells reader expression text (.not condition) := by
  obtain ⟨letters, rfl, negates⟩ := eq_append_space_of_lower written
  obtain ⟨before, after, split, blank_before, blank_after⟩ := operand.exists_eq_trim
  have unary : expression.rank = 0 := by
    rcases expression.rank_cases with unary | ⟨junction, rank⟩
    · exact unary
    · exact absurd (spells.divided junction rank) (tight junction)
  have space : ∀ c ∈ [' '] ++ before, Text.isBlank c = true := by
    simp only [List.cons_append, List.nil_append, List.forall_mem_cons]
    exact ⟨by decide, blank_before⟩
  have renders : Renders Text.isBlank (.negation expression)
      (letters ++ ([' '] ++ before) ++ operand.trim) :=
    .negation negates (by simp) space unary spells.renders
  -- Nothing stands behind the operand, since the whole text is trimmed.
  have same : text.trim = letters ++ ([' '] ++ before) ++ operand.trim := by
    have none : ∀ c ∈ ([] : Text), Text.isBlank c = true := by simp
    have trimmed := renders.filled_and_trimmed.2.trim_eq none blank_after
    rw [← text.isTrimmed_trim.trim_self, whole]
    conv_lhs => rw [split]
    simpa using trimmed
  refine ⟨.negation expression, .of_unary rfl (same ▸ renders) ?_⟩
  rw [compile, spells.compiles]
  rfl

/-- Operands that are written forms, with keywords between them, are a written form of the
junction. -/
theorem spells_joined {text short : Text} {names : Text → Text → Prop} {junction : Junction}
    {parts : List (Text × Condition Leaf)}
    (divides : Divides names junction text.trim short (parts.map Prod.fst)
      (junction.segments short))
    (shape : Shape.of short = .joined junction (junction.segments short))
    (free : ∀ c ∈ short, isBracket c = false)
    (each : ∀ part ∈ parts, ∃ expression, Spells reader expression part.1 part.2) :
    ∃ expression, Spells reader expression text (junction.join (parts.map Prod.snd)) := by
  have some : Nonempty Expression := ⟨.vacant⟩
  choose! form spells using each
  have split := (Shape.of_eq_joined_iff.mp shape).1
  have operands : List.Forall₂ (fun part expression =>
      Renders Text.isBlank expression (Text.trim part) ∧ expression.rank < junction.rank)
      (parts.map Prod.fst) (parts.map form) := by
    rw [List.forall₂_map_left_iff, List.forall₂_map_right_iff, List.forall₂_same]
    exact fun part mem => ⟨(spells part mem).renders, (spells part mem).rank_lt fun other loose =>
      divides.tight shape free loose part.1 (List.mem_map_of_mem mem)⟩
  have compiles : compileAll reader (parts.map form) = .ok (parts.map Prod.snd) := by
    refine compileAll_eq_ok ?_
    rw [List.forall₂_map_left_iff, List.forall₂_map_right_iff, List.forall₂_same]
    exact fun part mem => (spells part mem).compiles
  have count := divides.forall₂.length_eq
  rw [List.length_map, ← List.length_map form] at count
  generalize parts.map form = expressions at operands compiles count
  match expressions with
  | [] =>
    have separates := junction.separates_segments short
    rw [List.length_eq_zero_iff.mp count.symm] at separates
    cases separates
  | [alone] =>
    obtain ⟨segment, single⟩ := List.length_eq_one_iff.mp count.symm
    have joined := Junction.operands?_of_split split
    rw [Junction.operands?, single] at joined
    contradiction
  | first :: second :: further =>
    have renders := (renders_of_divides divides free operands).2 (List.cons_ne_nil _ _)
    rw [text.isTrimmed_trim.trim_self] at renders
    refine ⟨.joined junction first (second :: further), renders, ?_, fun other rank => ?_⟩
    · rw [compile_joined, compiles]
      rfl
    · obtain rfl : junction = other := Junction.rank_inj rank
      have opening : '(' ∉ short := fun mem => absurd (free _ mem) (by decide)
      exact ⟨names, short, divides.abridges, parted_of_not_mem opening, split⟩

end Expression

namespace Derives

variable {Leaf : Type} {reader : Reader Leaf} {text : Text} {condition : Condition Leaf}

/-- Without readers of tokens, a balanced text from which a condition is derived is blank or a
written form of an expression that is compiled to the condition. -/
theorem spells (bare : reader.tokenReaders = []) (derives : Derives reader text condition)
    (balanced : Balanced text) :
    (text.trim = [] ∧ condition = .literal true) ∨
      ∃ expression, Expression.Spells reader expression text condition := by
  induction derives with
  | blank none => exact .inl ⟨none, rfl⟩
  | group whole inner further ih => exact .inr (Expression.spells_group whole (ih inner))
  | joined functional divides parted shape filled each ih =>
    have free := divides.abridges.free_of_parted parted (balanced_trim_iff.mpr balanced)
    refine .inr (Expression.spells_joined divides shape free fun part mem => ?_)
    have whole := divides.balanced free part.1 (List.mem_map_of_mem mem)
    exact (ih part mem whole).resolve_left fun none => filled part mem none.1
  | @negation text word operand short names condition whole written abridges parted shape further
      ih =>
    have joined : Abridges names text.trim (word ++ short) :=
      whole ▸ (Abridges.refl names word).append abridges
    have free := joined.free_of_parted parted (balanced_trim_iff.mpr balanced)
    have free_short : ∀ c ∈ short, isBracket c = false := fun c mem =>
      free c (List.mem_append_right word mem)
    have unsplit := (Shape.of_eq_negation_iff.mp shape).1
    have tight : ∀ junction : Junction, ¬IsDivided junction operand.trim := fun junction =>
      abridges.not_isDivided_trim free_short (Junction.split?_eq_none_of_part (unsplit junction)
        (List.suffix_append word short).isInfix)
    have inner := ih (abridges.balanced_iff.mpr (balanced_of_free free_short))
    obtain ⟨expression, spells⟩ := inner.resolve_left fun none =>
      Expression.filled_of_negated whole written none.1
    exact .inr (Expression.spells_negation whole written tight spells)
  | @token text condition filled free shape read =>
    have known := Reader.literal_of_readToken bare read
    exact .inr ⟨.token text.trim, .of_unary rfl (.token (Expression.isToken_of_literal known))
      read⟩

end Derives

/-! ## Tabs and line ends -/

namespace Expression

variable {Leaf : Type} {reader : Reader Leaf}

/-- Only blanks are read as blanks. -/
theorem blank_of_map_plainSpace {blanks : Text}
    (gaps : ∀ c ∈ blanks.map plainSpace, Text.isBlank c = true) :
    ∀ c ∈ blanks, Text.isBlank c = true := by
  simpa [isBlank_plainSpace] using gaps

/-- Only a link is read as one. -/
theorem link_of_map_plainSpace {text before word after : Text} {junction : Junction}
    (link : IsLink Text.isBlank junction before word after)
    (same : text.map plainSpace = before ++ word ++ after) :
    ∃ lead trail, text = lead ++ word ++ trail ∧
      IsLink Text.isBlank junction lead word trail := by
  obtain ⟨front, trail, rfl, begun, rfl⟩ := List.map_eq_append_iff.mp same
  obtain ⟨lead, letters, rfl, rfl, written⟩ := List.map_eq_append_iff.mp begun
  obtain rfl := eq_of_map_plainSpace (Junction.isAlpha_of_mem link.written) written
  have gaps := link.gaps
  rw [← List.map_append] at gaps
  exact ⟨lead, trail, rfl, by simpa using link.leading, by simpa using link.trailing,
    blank_of_map_plainSpace gaps, link.written⟩

/-- The operands of a junction that is compiled are compiled. -/
theorem compiles_joined {junction : Junction} {first : Expression} {further : List Expression}
    {condition : Condition Leaf}
    (compiles : compile reader (.joined junction first further) = .ok condition) :
    ∃ head tail, first.compile reader = .ok head ∧ compileAll reader further = .ok tail := by
  rw [compile] at compiles
  obtain ⟨head, leading, compiles⟩ := bind_eq_ok.mp compiles
  obtain ⟨tail, trailing, -⟩ := bind_eq_ok.mp compiles
  exact ⟨head, tail, leading, trailing⟩

/-- Without readers of tokens, only a written form is read as one. -/
theorem Renders.of_map_plainSpace {expression : Expression} {text : Text}
    {condition : Condition Leaf} (bare : reader.tokenReaders = [])
    (renders : Renders Text.isBlank expression (text.map plainSpace))
    (compiles : expression.compile reader = .ok condition) :
    Renders Text.isBlank expression text := by
  generalize same : text.map plainSpace = plain at renders
  induction renders generalizing text condition with
  | @token word valid =>
    have known := Reader.literal_of_readToken bare compiles
    have letters : ∀ c ∈ word, c.isAlpha = true := fun c =>
      Text.isAlpha_of_lower_eq rfl (isLower_of_literal known)
    obtain rfl := eq_of_map_plainSpace letters same
    exact .token valid
  | vacant gaps =>
    obtain ⟨inside, rfl, rfl⟩ := bracketed_of_map_plainSpace same
    exact .vacant (blank_of_map_plainSpace gaps)
  | @group inner before middle after gaps renders ih =>
    obtain ⟨inside, rfl, split⟩ := bracketed_of_map_plainSpace same
    obtain ⟨front, last, rfl, begun, rfl⟩ := List.map_eq_append_iff.mp split
    obtain ⟨lead, between, rfl, rfl, within⟩ := List.map_eq_append_iff.mp begun
    rw [← List.map_append] at gaps
    exact .group (blank_of_map_plainSpace gaps) (ih compiles within)
  | @negation operand word space rest written filled gaps unary renders ih =>
    obtain ⟨front, last, rfl, begun, within⟩ := List.map_eq_append_iff.mp same
    obtain ⟨letters, blanks, rfl, negates, rfl⟩ := List.map_eq_append_iff.mp begun
    obtain rfl := eq_of_map_plainSpace (isAlpha_of_negation written) negates
    obtain ⟨inner, further, -⟩ := bind_eq_ok.mp compiles
    exact .negation written (by simpa using filled) (blank_of_map_plainSpace gaps) unary
      (ih further within)
  | @pair junction first second front before word after back link left tight right tight_right
      ih_first ih_second =>
    obtain ⟨leading, last, rfl, begun, ended⟩ := List.map_eq_append_iff.mp same
    obtain ⟨start, between, rfl, started, linked⟩ := List.map_eq_append_iff.mp begun
    obtain ⟨lead, trail, rfl, joined⟩ := link_of_map_plainSpace link linked
    obtain ⟨head, tail, compiled, others⟩ := compiles_joined compiles
    obtain ⟨next, later, -⟩ := bind_eq_ok.mp others
    exact .pair joined (ih_first compiled started) tight (ih_second later ended) tight_right
  | @more junction first second further front before word after back link left tight right
      ih_first ih_rest =>
    obtain ⟨leading, last, rfl, begun, ended⟩ := List.map_eq_append_iff.mp same
    obtain ⟨start, between, rfl, started, linked⟩ := List.map_eq_append_iff.mp begun
    obtain ⟨lead, trail, rfl, joined⟩ := link_of_map_plainSpace link linked
    obtain ⟨head, tail, compiled, others⟩ := compiles_joined compiles
    have rest : compile reader (.joined junction second further) = .ok (junction.join tail) := by
      rw [compile_joined, others]
      rfl
    exact .more joined (ih_first compiled started) tight (ih_rest rest ended)

end Expression

namespace Reader

open Expression

variable {Leaf : Type}

/-- Every balanced rule that is accepted without readers of tokens is a rule of the grammar: it is
blank and always holds, or it is, between blanks, a written form of an expression whose gaps are
blanks and whose tree is the answer. -/
theorem renders_of_read {reader : Reader Leaf} {rule : Text} {condition : Condition Leaf}
    (bare : reader.tokenReaders = []) (balanced : Balanced rule)
    (accepted : reader.read rule = .ok condition) :
    (rule.trim = [] ∧ condition = .literal true) ∨
      ∃ expression, Renders Text.isBlank expression rule.trim ∧
        expression.compile reader = .ok condition := by
  have spelled := (derives_of_read accepted).spells bare (balanced_map_plainSpace.mpr balanced)
  rcases spelled with ⟨none, rfl⟩ | ⟨expression, spells⟩
  · rw [trim_map_plainSpace] at none
    exact .inl ⟨List.map_eq_nil_iff.mp none, rfl⟩
  · have renders := spells.renders
    rw [trim_map_plainSpace] at renders
    exact .inr ⟨expression, renders.of_map_plainSpace bare spells.compiles, spells.compiles⟩

/-- A rule with a tab after its negation, a wide blank before a keyword and a vacant pair of
brackets is one of the grammar. -/
theorem renders_of_read_blanks :
    let reader : Reader Text := {}
    let rule : Text := " Not\t( TRUE\u2003or false )  AND () ".toList
    let condition : Condition Text :=
      .and [.not (.or [.literal true, .literal false]), .literal true]
    reader.tokenReaders = [] ∧ Balanced rule ∧ reader.read rule = .ok condition ∧
      ((rule.trim = [] ∧ condition = .literal true) ∨
        ∃ expression, Renders Text.isBlank expression rule.trim ∧
          expression.compile reader = .ok condition) := by
  have balanced : Balanced " Not\t( TRUE\u2003or false )  AND () ".toList :=
    balanced_iff.mpr (by decide)
  have accepted : read {} " Not\t( TRUE\u2003or false )  AND () ".toList =
      .ok (.and [.not (.or [.literal true, .literal false]), .literal true] : Condition Text) := by
    rfl
  exact ⟨rfl, balanced, accepted, renders_of_read rfl balanced accepted⟩

end Reader

end AccessRules
