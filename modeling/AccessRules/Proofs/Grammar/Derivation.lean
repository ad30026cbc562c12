import AccessRules.Proofs.Rule.Division
import AccessRules.Proofs.Rule.PlainSpaces
import AccessRules.Proofs.Rule.Reading
import AccessRules.Proofs.Rule.Recovery
import Mathlib.Data.List.Chain

/-!
# Derivations of accepted texts

An accepted text is read as a condition for a reason that lies in the text alone: it is blank, it
is a group, it is divided at keywords into accepted parts, it is a negation of an accepted operand
or it is a token. Which numbers the groups got in the store, and what else the store holds, does
not matter. A garbled text has no derivation, so a text of which a group came back in another form
is refused, and every accepted text was put together again as it was.
-/
namespace AccessRules

open AccessRules.Bracket

variable {Leaf : Type}

/-- The text is read as the condition. -/
inductive Derives (reader : Reader Leaf) : Text → Condition Leaf → Prop where
  | blank {text : Text} (none : text.trim = []) : Derives reader text (.literal true)
  | group {text inside : Text} {condition : Condition Leaf}
      (whole : text.trim = '(' :: inside ++ [')']) (balanced : Balanced inside)
      (further : Derives reader inside condition) : Derives reader text condition
  | joined {text short : Text} {names : Text → Text → Prop} {junction : Junction}
      {parts : List (Text × Condition Leaf)}
      (functional : ∀ digits body other, names digits body → names digits other → body = other)
      (divides : Divides names junction text.trim short (parts.map Prod.fst)
        (junction.segments short))
      (parted : Parted short) (shape : Shape.of short = .joined junction (junction.segments short))
      (filled : ∀ part ∈ parts, Text.trim part.1 ≠ [])
      (each : ∀ part ∈ parts, Derives reader part.1 part.2) :
      Derives reader text (junction.join (parts.map Prod.snd))
  | negation {text word operand short : Text} {names : Text → Text → Prop}
      {condition : Condition Leaf} (whole : text.trim = word ++ operand)
      (written : word.lower = "not ".toList) (abridges : Abridges names operand short)
      (parted : Parted (word ++ short)) (shape : Shape.of (word ++ short) = .negation short)
      (further : Derives reader operand condition) : Derives reader text (.not condition)
  | token {text : Text} {condition : Condition Leaf} (filled : text.trim ≠ [])
      (free : ∀ c ∈ text.trim, isBracket c = false) (shape : Shape.of text.trim = .atom)
      (read : reader.readToken text.trim = .ok condition) : Derives reader text condition

/-! ## Tidy texts -/

/-- The first character may stand before the second one: no angle bracket follows a closing bracket
and no group an angle bracket. -/
def IsTidyPair (c d : Char) : Prop := (c = ')' → d ≠ '<') ∧ (c = '>' → d ≠ '(')

/-- No angle bracket follows a closing bracket, and no group begins after an angle bracket. -/
def IsTidy (text : Text) : Prop := text.IsChain IsTidyPair

namespace IsTidy

/-- What neither closes a group nor is an angle bracket may stand before everything. -/
theorem pair_of_left {c : Char} (bracket : c ≠ ')') (angle : c ≠ '>') (d : Char) :
    IsTidyPair c d :=
  ⟨fun same => absurd same bracket, fun same => absurd same angle⟩

/-- What neither opens a group nor is an angle bracket may stand after everything. -/
theorem pair_of_right {d : Char} (bracket : d ≠ '(') (angle : d ≠ '<') (c : Char) :
    IsTidyPair c d :=
  ⟨fun _ => angle, fun _ => bracket⟩

/-- A tidy text is not garbled. -/
theorem not_garbled {text : Text} (tidy : IsTidy text) : ¬Garbled text := by
  intro garbled
  have pair := List.IsChain.infix tidy garbled
  simp [IsTidyPair] at pair

/-- A tidy text without markers is clean. -/
theorem isClean {text : Text} (tidy : IsTidy text) (unmarked : Unmarked text) : IsClean text := by
  refine ⟨unmarked, fun touching => ?_⟩
  have pair := List.IsChain.infix tidy touching
  simp [IsTidyPair] at pair

/-- Text that neither closes a group nor has angle brackets may stand before a tidy one. -/
theorem prepend {front text : Text} (tidy : IsTidy text) (other : ∀ c ∈ front, c ≠ ')' ∧ c ≠ '>') :
    IsTidy (front ++ text) := by
  induction front with
  | nil => exact tidy
  | cons c front ih =>
    have first := other c (by simp)
    exact List.isChain_cons.mpr ⟨fun d _ => pair_of_left first.1 first.2 d,
      ih fun d mem => other d (by simp [mem])⟩

/-- Text that neither opens a group nor has angle brackets may stand after a tidy one. -/
theorem append {text back : Text} (tidy : IsTidy text) (other : ∀ c ∈ back, c ≠ '(' ∧ c ≠ '<') :
    IsTidy (text ++ back) := by
  induction back generalizing text with
  | nil => rwa [List.append_nil]
  | cons c back ih =>
    have first := other c (by simp)
    have more : IsTidy (text ++ [c]) := by
      refine List.isChain_append.mpr ⟨tidy, .singleton c, fun d _ e head => ?_⟩
      obtain rfl : c = e := by simpa using head
      exact pair_of_right first.1 first.2 d
    simpa using ih more fun d mem => other d (by simp [mem])

/-- Tidy texts may be joined where one ends in what may stand before everything. -/
theorem join {front back : Text} {c : Char} (first : IsTidy (front ++ [c])) (last : IsTidy back)
    (bracket : c ≠ ')') (angle : c ≠ '>') : IsTidy (front ++ [c] ++ back) := by
  refine List.isChain_append.mpr ⟨first, last, fun d final e _ => ?_⟩
  obtain rfl : c = d := by simpa using final
  exact pair_of_left bracket angle e

/-- A text is tidy if it is so without the blanks around it. -/
theorem of_trim {text : Text} (tidy : IsTidy text.trim) : IsTidy text := by
  have other : ∀ c, Text.isBlank c = true → (c ≠ ')' ∧ c ≠ '>') ∧ c ≠ '(' ∧ c ≠ '<' := by
    intro c blank
    refine ⟨⟨?_, ?_⟩, ?_, ?_⟩ <;> rintro rfl <;> exact absurd blank (by decide)
  obtain ⟨front, back, split, before, after⟩ := text.exists_eq_trim
  rw [split]
  exact (tidy.prepend fun c mem => (other c (before c mem)).1).append
    fun c mem => (other c (after c mem)).2

/-- Tidy texts with a boundary between them are tidy. -/
theorem boundary {junction : Junction} {front lead word trail back : Text} (first : IsTidy front)
    (boundary : junction.IsBoundary lead word trail) (last : IsTidy back) :
    IsTidy (front ++ (lead ++ word ++ trail) ++ back) := by
  have letter : ∀ c ∈ word, (c ≠ ')' ∧ c ≠ '>') ∧ c ≠ '(' ∧ c ≠ '<' := by
    intro c mem
    have alpha := Junction.isAlpha_of_mem boundary.written c mem
    refine ⟨⟨?_, ?_⟩, ?_, ?_⟩ <;> rintro rfl <;> exact absurd alpha (by decide)
  have leading : ∀ c ∈ lead ++ word, c ≠ '(' ∧ c ≠ '<' := by
    intro c mem
    rcases List.mem_append.mp mem with before | inside
    · have lead := boundary.leading c before
      constructor <;> rintro rfl <;> exact absurd lead (by decide)
    · exact (letter c inside).2
  have trailing : ∀ c ∈ trail, c ≠ ')' ∧ c ≠ '>' := by
    intro c mem
    have trail := boundary.trailing c mem
    constructor <;> rintro rfl <;> exact absurd trail (by decide)
  have earlier : IsTidy (front ++ (lead ++ word)) := first.append leading
  have later : IsTidy (trail ++ back) := last.prepend trailing
  rcases List.eq_nil_or_concat word with rfl | ⟨begun, c, rfl⟩
  · cases junction <;> exact absurd boundary.written (by decide)
  · have final := (letter c (by simp)).1
    rw [List.concat_eq_append] at earlier ⊢
    have ended : IsTidy ((front ++ (lead ++ begun)) ++ [c]) := by simpa using earlier
    simpa using ended.join later final.1 final.2

end IsTidy

namespace Derives

variable {reader : Reader Leaf} {text : Text} {condition : Condition Leaf}

/-- Blanks around a text do not matter. -/
theorem of_trim_eq {other : Text} (derives : Derives reader text condition)
    (same : other.trim = text.trim) : Derives reader other condition := by
  cases derives with
  | blank none => exact .blank (same.trans none)
  | group whole balanced further => exact .group (same.trans whole) balanced further
  | joined functional divides parted shape filled each =>
    rw [← same] at divides
    exact .joined functional divides parted shape filled each
  | negation whole written abridges parted shape further =>
    exact .negation (same.trans whole) written abridges parted shape further
  | token filled free shape read =>
    rw [← same] at filled free shape read
    exact .token filled free shape read

/-- Only tidy texts have derivations. -/
theorem isTidy (derives : Derives reader text condition) : IsTidy text := by
  induction derives with
  | blank none =>
    apply IsTidy.of_trim
    rw [none]
    exact .nil
  | group whole balanced further ih =>
    apply IsTidy.of_trim
    rw [whole]
    have closes : ∀ c ∈ [')'], c ≠ '(' ∧ c ≠ '<' := by simp
    have opens : ∀ c ∈ ['('], c ≠ ')' ∧ c ≠ '>' := by simp
    exact (ih.append closes).prepend opens
  | joined functional divides parted shape filled each ih =>
    apply IsTidy.of_trim
    refine divides.separates.whole_of_parts IsTidy.boundary fun part mem => ?_
    obtain ⟨pair, inside, rfl⟩ := List.mem_map.mp mem
    exact ih pair inside
  | @negation text word operand short names condition whole written abridges parted shape further
      ih =>
    apply IsTidy.of_trim
    rw [whole]
    have closes : ')' ∉ word := Text.not_mem_of_lower written (by decide)
    have angle : '>' ∉ word := Text.not_mem_of_lower written (by decide)
    exact ih.prepend fun c mem =>
      ⟨fun same => closes (same ▸ mem), fun same => angle (same ▸ mem)⟩
  | token filled free shape read =>
    apply IsTidy.of_trim
    refine List.Pairwise.isChain (List.pairwise_of_forall_mem_list fun c mem d inside => ?_)
    constructor
    · rintro rfl
      exact absurd (free _ mem) (by decide)
    · rintro - rfl
      exact absurd (free _ inside) (by decide)

/-- A derived text without markers is clean. -/
theorem isClean_trim (derives : Derives reader text condition) (unmarked : Unmarked text) :
    IsClean text.trim :=
  (derives.isTidy.isClean unmarked).part text.trim_isInfix

end Derives

/-! ## Reading -/

/-- Reading tabs and line ends as spaces writes no marker. -/
theorem Unmarked.map_plainSpace {text : Text} (unmarked : Unmarked text) :
    Unmarked (text.map plainSpace) := by
  rintro digits filled decimal ⟨front, back, split⟩
  obtain ⟨rest, right, rfl, same, -⟩ := List.map_eq_append_iff.mp split.symm
  obtain ⟨left, marker, rfl, -, written⟩ := List.map_eq_append_iff.mp same
  have solid : ∀ c ∈ Marker.ofDigits digits, c ≠ ' ' := by
    rintro c mem rfl
    exact Marker.not_mem_ofDigits (by decide) (by decide) decimal mem
  have kept : ∀ c ∈ marker, plainSpace c = id c := fun c mem =>
    plainSpace_of_ne (solid _ (written ▸ List.mem_map_of_mem mem))
  rw [List.map_congr_left kept, List.map_id] at written
  exact unmarked digits filled decimal ⟨left, right, by rw [written]⟩

/-- A marker is still one where tabs and line ends are read as spaces. -/
theorem Unmarked.of_map_plainSpace {text : Text} (unmarked : Unmarked (text.map plainSpace)) :
    Unmarked text := by
  intro digits filled decimal inside
  have kept : (Marker.ofDigits digits).map plainSpace = Marker.ofDigits digits := by
    rw [map_plainSpace_eq_self_iff]
    intro c mem
    refine ⟨?_, ?_, ?_⟩ <;> rintro rfl <;>
      exact Marker.not_mem_ofDigits (by decide) (by decide) decimal mem
  exact unmarked digits filled decimal (kept ▸ inside.map plainSpace)

namespace Reader

variable {reader : Reader Leaf} {levels : Nat}
  {read : ClauseStore → Text → Except RuleError (Condition Leaf × ClauseStore)}

/-- What the function reads is derived, and it only adds to the store. -/
def Justifies (reader : Reader Leaf)
    (read : ClauseStore → Text → Except RuleError (Condition Leaf × ClauseStore)) : Prop :=
  ∀ (store next : ClauseStore) (text : Text) (condition : Condition Leaf), store.Sound →
    Unmarked text → read store text = .ok (condition, next) →
      Derives reader text condition ∧ store.Continues next

/-- What is read after it was expanded was put together again as it was. -/
theorem eq_of_expand (justifies : Justifies reader read) {store next : ClauseStore}
    {full short expanded : Text} {condition : Condition Leaf} (sound : store.Sound)
    (abridges : Abridges (store.Keeps True) full short) (unmarked : Unmarked full)
    (expansion : store.expand short = .ok expanded)
    (success : read store expanded = .ok (condition, next)) : expanded = full := by
  obtain ⟨kept, -, same⟩ :=
    (ClauseStore.expand_settles sound abridges ⟨unmarked, .inl trivial⟩).good_of_ok expansion
  obtain ⟨derives, -⟩ := justifies store next expanded condition sound kept success
  exact same.resolve_right fun garbled => derives.isTidy.not_garbled garbled.2

/-- If a part is read that a short text abridges, the part itself was read. -/
theorem derives_of_expand (justifies : Justifies reader read) {store next : ClauseStore}
    {full short expanded : Text} {condition : Condition Leaf} (sound : store.Sound)
    (abridges : Abridges (store.Keeps True) full short) (unmarked : Unmarked full)
    (expansion : store.expand short = .ok expanded)
    (success : read store expanded = .ok (condition, next)) :
    Derives reader full condition ∧ Abridges store.Names full short ∧ store.Continues next := by
  obtain ⟨kept, replaces, -⟩ :=
    (ClauseStore.expand_settles sound abridges ⟨unmarked, .inl trivial⟩).good_of_ok expansion
  obtain rfl := eq_of_expand justifies sound abridges unmarked expansion success
  obtain ⟨derives, continues⟩ := justifies store next expanded condition sound kept success
  exact ⟨derives, replaces, continues⟩

/-- Operands that are read are derived, each from its part of the full text. -/
theorem derives_of_readOperands (justifies : Justifies reader read) {junction : Junction}
    {rule : Text} {names : Text → Text → Prop} {store next : ClauseStore}
    {texts segments : List Text} {operands : List (Condition Leaf)} (sound : store.Sound)
    (known : ∀ digits body, names digits body → store.Keeps True digits body)
    (each : List.Forall₂ (Abridges names) texts segments)
    (unmarked : ∀ text ∈ texts, Unmarked text)
    (success : readOperands read junction rule store segments = .ok (operands, next)) :
    ∃ parts : List (Text × Condition Leaf), parts.map Prod.fst = texts ∧
      parts.map Prod.snd = operands ∧
      (∀ part ∈ parts, Text.trim part.1 ≠ [] ∧ Derives reader part.1 part.2) ∧
      List.Forall₂ (Abridges next.Names) texts segments ∧ store.Continues next := by
  induction each generalizing store operands with
  | nil =>
    obtain ⟨rfl, rfl⟩ := Prod.mk.inj (Except.ok.inj success)
    exact ⟨[], rfl, rfl, by simp, .nil, .refl sound⟩
  | @cons text segment texts segments abridges further ih =>
    obtain ⟨expanded, operand, middle, others, filled, expansion, answer, rest, rfl⟩ :=
      readOperands_cons_ok success
    obtain ⟨derives, replaces, continues⟩ := derives_of_expand justifies sound
      (abridges.mono known) (unmarked text (by simp)) expansion answer
    obtain ⟨parts, rfl, rfl, derived, replaced, goes⟩ := ih continues.sound
      (fun digits body named => continues.keeps _ _ (known _ _ named))
      (fun other mem => unmarked other (by simp [mem])) rest
    refine ⟨(text, operand) :: parts, rfl, rfl, fun part mem => ?_,
      .cons (replaces.mono (continues.trans goes).names) replaced, continues.trans goes⟩
    rcases List.mem_cons.mp mem with rfl | later
    · exact ⟨mt replaces.trim.eq_nil_iff.mpr filled, derives⟩
    · exact derived part later

/-- What is read of a text without its groups is derived from the text. -/
theorem derives_of_readsShape (justifies : Justifies reader read) {text full rule : Text}
    {store next : ClauseStore} {condition : Condition Leaf} (sound : store.Sound)
    (abridges : Abridges (store.Keeps True) full rule) (unmarked : Unmarked full)
    (trimmed : full.IsTrimmed) (filled : full ≠ []) (parted : Parted rule)
    (kinds : '(' ∈ rule ↔ ')' ∈ rule)
    (reads : ReadsShape reader read text rule store condition next) :
    Derives reader full condition ∧ store.Continues next := by
  cases reads with
  | @joined junction segments operands next shape answers =>
    obtain ⟨-, -, rfl⟩ := Shape.of_eq_joined_iff.mp shape
    obtain ⟨texts, divides⟩ := abridges.divides junction
    obtain ⟨parts, rfl, rfl, derived, replaced, continues⟩ := derives_of_readOperands justifies
      sound (fun _ _ => id) divides.forall₂
      (fun part mem => unmarked.part (divides.separates.infix_of_mem mem)) answers
    have functional : ∀ digits body other, next.Names digits body → next.Names digits other →
        body = other := fun _ _ _ => ClauseStore.Names.functional
    have renamed := divides.rename replaced
    rw [← trimmed.trim_self] at renamed
    exact ⟨.joined functional renamed parted shape
      (fun part mem => (derived part mem).1) (fun part mem => (derived part mem).2), continues⟩
  | negation shape expansion answer =>
    obtain ⟨-, -, found⟩ := Shape.of_eq_negation_iff.mp shape
    obtain ⟨word, rfl, written⟩ := Text.afterWord?_eq_some_iff.mp found
    have free : '@' ∉ word := Text.not_mem_of_lower written (by decide)
    obtain ⟨whole, rfl, rest⟩ := abridges.split_front free
    have inside : Unmarked whole := unmarked.part (List.suffix_append word whole).isInfix
    obtain ⟨derives, replaces, continues⟩ :=
      derives_of_expand justifies sound rest inside expansion answer
    exact ⟨.negation trimmed.trim_self written replaces parted shape derives, continues⟩
  | hidden shape expansion both gained answer =>
    obtain ⟨derives, -, continues⟩ :=
      derives_of_expand justifies sound abridges unmarked expansion answer
    exact ⟨derives, continues⟩
  | @token expanded condition shape expansion without token =>
    -- A token has no brackets: those of the rule would be in its expansion too.
    obtain ⟨-, replaces, kept⟩ :=
      (ClauseStore.expand_settles sound abridges ⟨unmarked, .inl trivial⟩).good_of_ok expansion
    obtain rfl : rule = expanded := by
      rcases not_and_or.mp without with opens | closes
      · exact replaces.eq_of_unbracketed opens
      · exact replaces.eq_of_unclosing closes
    have opens : '(' ∉ rule := fun mem => without ⟨mem, kinds.mp mem⟩
    have closes : ')' ∉ rule := mt kinds.mpr opens
    obtain rfl := kept.resolve_right fun garbled => closes (garbled.2.subset (by simp))
    have bare := free_of_not_mem opens closes
    rw [← trimmed.trim_self] at filled shape bare
    exact ⟨.token filled bare shape token, .refl sound⟩

/-- What is read at some levels is derived. -/
theorem justifies_readExpression (reader : Reader Leaf) (levels : Nat) :
    Justifies reader (reader.readExpression levels) := by
  induction levels with
  | zero =>
    intro store next text condition sound unmarked success
    simp [readExpression] at success
  | succ levels ih =>
    intro store next text condition sound unmarked success
    have unmarked_trim : Unmarked text.trim := unmarked.part text.trim_isInfix
    have extracts {rule : Text} {middle : ClauseStore}
        (extraction : store.extract text.trim = .ok (rule, middle)) :=
      (ClauseStore.extract_settles sound ⟨unmarked_trim, .inl trivial⟩ text.isTrimmed_trim
        (.inl trivial)).good_of_ok extraction
    obtain ⟨_, ⟨⟩, reads⟩ := readsExpression_of_ok success
    cases reads with
    | vacant empty =>
      refine ⟨?_, .refl sound⟩
      rcases empty with none | pair
      · exact .blank none
      · have vacant : text.trim = '(' :: [] ++ [')'] := pair
        exact .group vacant (balanced_of_free (by simp)) (.blank rfl)
    | emptied filled extraction =>
      obtain ⟨continues, residue, -⟩ := extracts extraction
      generalize whole : text.trim = full at residue
      cases residue with
      | whole several abridges =>
        exact absurd (whole.trans (abridges.eq_nil_iff.mp rfl)) filled.1
      | inner balanced abridges =>
        exact ⟨.group whole balanced (.blank (abridges.eq_nil_iff.mp rfl)), continues⟩
    | shaped filled extraction some reads =>
      obtain ⟨continues, residue, parted, kinds⟩ := extracts extraction
      generalize whole : text.trim = full at residue
      cases residue with
      | whole several abridges =>
        subst whole
        obtain ⟨derives, goes⟩ := derives_of_readsShape ih continues.sound abridges unmarked_trim
          text.isTrimmed_trim filled.1 parted kinds reads
        exact ⟨derives.of_trim_eq text.isTrimmed_trim.trim_self.symm, continues.trans goes⟩
      | @inner inside _ balanced abridges =>
        -- Brackets around the whole are taken off, and what they hold is read at this level.
        have within : inside <:+: '(' :: inside ++ [')'] := ⟨['('], [')'], rfl⟩
        have unmarked_inside : Unmarked inside.trim :=
          unmarked_trim.part (whole ▸ inside.trim_isInfix.trans within)
        obtain ⟨derives, goes⟩ := derives_of_readsShape ih continues.sound abridges
          unmarked_inside inside.isTrimmed_trim (mt abridges.eq_nil_iff.mpr some) parted kinds reads
        exact ⟨.group whole balanced (derives.of_trim_eq inside.isTrimmed_trim.trim_self.symm),
          continues.trans goes⟩

/-- The store that a reader starts with is sound. -/
theorem sound_ofLimits (limits : Limits) : (ClauseStore.ofLimits limits).Sound :=
  ⟨fun clause mem => absurd mem (Array.not_mem_empty clause),
    fun clause mem => absurd mem (Array.not_mem_empty clause)⟩

/-- What is accepted is read with plain spaces, at as many levels as the limits allow. -/
theorem readExpression_of_read {rule : Text} {condition : Condition Leaf}
    (accepted : reader.read rule = .ok condition) :
    Unmarked rule ∧ ∃ next, reader.readExpression reader.limits.levels
      (.ofLimits reader.limits) (plainSpaces rule) = .ok (condition, next) := by
  unfold read at accepted
  dsimp only at accepted
  repeat' split at accepted
  all_goals try contradiction
  rename_i none
  obtain ⟨⟨outcome, last⟩, success, same⟩ := bind_eq_ok.mp accepted
  obtain rfl := Except.ok.inj same
  exact ⟨unmarked_of_find? none, last, success⟩

/-- What is accepted is derived, with tabs and line ends read as spaces. -/
theorem derives_of_read {rule : Text} {condition : Condition Leaf}
    (accepted : reader.read rule = .ok condition) :
    Derives reader (rule.map plainSpace) condition := by
  obtain ⟨unmarked, next, success⟩ := readExpression_of_read accepted
  rw [plainSpaces_eq_map] at success
  exact (justifies_readExpression reader _ _ next _ condition (sound_ofLimits _)
    unmarked.map_plainSpace success).1

end Reader

end AccessRules
