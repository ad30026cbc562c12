import AccessRules.Proofs.Rule.Division
import AccessRules.Proofs.Rule.IntactClauses

/-!
# Refusals of parts

A refusal quotes the part at fault. Where groups have been taken out of the part and not put back,
it quotes their markers, which are not in the text that was given. This happens only if brackets of
the text are left over, or if a marker that lacks its last mark stands before a group of it: what
stores expand and extract is followed here, with what is to blame for each refusal.
-/
namespace AccessRules

open AccessRules.Bracket

/-- The part that a refusal quotes. -/
def RuleError.quoted? : RuleError → Option Text
  | malformed _ fragment => fragment
  | unrecognized token => some token
  | exceeded _ => none
  | markup _ => none

/-- A store refuses for an exceeded limit or for a marker that names no clause. -/
def RuleError.IsOfStore (error : RuleError) : Prop :=
  error.isExceeded = true ∨ ∃ marker, error = .malformed .unknownMarker (some marker)

/-- A refusal quotes no marker, or the text is to blame that it does. -/
inductive Blames (text : Text) : RuleError → Prop where
  | clear {error : RuleError} (unmarked : ∀ part ∈ error.quoted?, Unmarked part) :
      Blames text error
  | bracket {part : Text} (stray : ¬Balanced text) :
      Blames text (.malformed .missingBracket (some part))
  | operand {junction : Junction} {part : Text} (stray : ¬Balanced text) :
      Blames text (.malformed (.missingOperand junction) (some part))
  | marker {part : Text} (unended : HasUnended text) :
      Blames text (.malformed .unknownMarker (some part))

/-- A refusal that quotes a text without markers quotes no marker. -/
theorem Blames.of_unmarked {text part : Text} {cause : Malformation} (unmarked : Unmarked part) :
    Blames text (.malformed cause (some part)) := by
  refine .clear fun other quoted => ?_
  obtain rfl := Option.some.inj quoted
  exact unmarked

/-- A refusal for an exceeded limit quotes nothing. -/
theorem Blames.of_isExceeded {text : Text} {error : RuleError}
    (exceeded : error.isExceeded = true) : Blames text error := by
  cases error with
  | exceeded excess => exact .clear (by simp [RuleError.quoted?])
  | _ => contradiction

/-- What a store refuses for a limit or for an unended marker of the text is to be blamed on it. -/
theorem RuleError.IsOfStore.blames {text : Text} {error : RuleError} (kind : error.IsOfStore)
    (cause : error.isExceeded = true ∨ HasUnended text) : Blames text error := by
  rcases cause with exceeded | unended
  · exact .of_isExceeded exceeded
  · rcases kind with exceeded | ⟨marker, rfl⟩
    · exact .of_isExceeded exceeded
    · exact .marker unended

/-- The further text is read in the place of the text or of a part of it. -/
structure Succeeds (text further : Text) : Prop where
  /-- No marker is written in it or arises in it. -/
  intact : IsIntact further
  /-- No bracket is left over in it if none is in the text. -/
  balanced : Balanced text → Balanced further

/-- What a further text is to blame for can be blamed on the text. -/
theorem Succeeds.blames {text further : Text} {error : RuleError} (succeeds : Succeeds text further)
    (blames : Blames further error) : Blames text error := by
  cases blames with
  | clear unmarked => exact .clear unmarked
  | bracket stray => exact .bracket (mt succeeds.balanced stray)
  | operand stray => exact .operand (mt succeeds.balanced stray)
  | marker unended => exact absurd unended succeeds.intact.ended

/-- A text without markers is tame, at its own risk. -/
theorem Unmarked.isTame {text : Text} (unmarked : Unmarked text) :
    IsTame (HasUnended text) text :=
  ⟨unmarked, Classical.em _⟩

/-- What is left of a text abridges a part of it. -/
theorem Residue.exists_part {names : Text → Text → Prop} {full rule : Text}
    (residue : Residue names full rule) (trimmed : full.IsTrimmed) :
    ∃ part : Text, part <:+: full ∧ part.IsTrimmed ∧ Abridges names part rule := by
  cases residue with
  | whole several abridges => exact ⟨full, List.infix_rfl, trimmed, abridges⟩
  | @inner inside _ balanced abridges =>
    exact ⟨inside.trim, inside.trim_isInfix.trans ⟨['('], [')'], rfl⟩, inside.isTrimmed_trim,
      abridges⟩

namespace ClauseStore

/-! ## What stores refuse -/

/-- Clauses are put in the place of markers, or refused as a store does. -/
theorem substitute_ends (store : ClauseStore) (used : Nat) (finds : List (Text × Text)) :
    Ends RuleError.IsOfStore (fun _ => True) (store.substitute used finds) := by
  induction finds generalizing used with
  | nil => exact trivial
  | cons find finds ih =>
    unfold substitute
    split
    · exact .inr ⟨_, rfl⟩
    · dsimp only
      split
      · exact .inl rfl
      · exact (ih _).bind fun _ _ => trivial

/-- A text is expanded in passes, or refused as a store does. -/
theorem expandWithin_ends (store : ClauseStore) (passes : Nat) (text : Text) :
    Ends RuleError.IsOfStore (fun _ => True) (store.expandWithin passes text) := by
  induction passes generalizing text with
  | zero => exact trivial
  | succ passes ih =>
    rw [expandWithin]
    split
    · exact trivial
    · exact (store.substitute_ends _ _).bind fun replaced _ => ih _

/-- A text is expanded, or refused as a store does. -/
theorem expand_ends (store : ClauseStore) (text : Text) :
    Ends RuleError.IsOfStore (fun _ => True) (store.expand text) := by
  refine (store.expandWithin_ends _ text).bind fun expanded _ => ?_
  split
  · exact .inl rfl
  · exact trivial

/-- A clause is stored, or refused as a store does. -/
theorem push_ends (store : ClauseStore) (clause : Text) :
    Ends RuleError.IsOfStore (fun _ => True) (store.push clause) := by
  unfold push
  dsimp only
  split
  · exact .inl rfl
  · exact trivial

/-- Groups are captured, or refused as a store does. -/
theorem capture_ends (store : ClauseStore) (finds : List (Text × Text)) :
    Ends RuleError.IsOfStore (fun _ => True) (store.capture finds) := by
  induction finds generalizing store with
  | nil => exact trivial
  | cons find finds ih =>
    refine (store.expand_ends _).bind fun clause _ => (store.push_ends clause).bind ?_
    rintro ⟨marker, middle⟩ -
    exact (ih middle).bind fun _ _ => trivial

/-- Groups are extracted in passes, or refused as a store does. -/
theorem extractWithin_ends (passes : Nat) (store : ClauseStore) (text : Text) :
    Ends RuleError.IsOfStore (fun _ => True) (extractWithin passes store text) := by
  induction passes generalizing store text with
  | zero => exact trivial
  | succ passes ih =>
    rw [extractWithin]
    dsimp only
    split
    · exact trivial
    · refine (store.capture_ends _).bind ?_
      rintro ⟨marked, middle⟩ -
      exact ih middle _

/-! ## What is left of a text -/

variable {store next : ClauseStore} {text rule : Text}

/-- The rule is what is left of a part of the text, with markers of the store for its groups. -/
structure Remnant (store : ClauseStore) (text rule : Text) : Prop where
  /-- No group is left. -/
  parted : Parted rule
  /-- No bracket is left if none is left over in the text. -/
  free : Balanced text → ∀ c ∈ rule, isBracket c = false
  /-- It abridges a part of the text. -/
  abridges : ∃ full, full <:+: text ∧ Abridges (store.Keeps (HasUnended text)) full rule

/-- What is left has the same markers in a store that goes on. -/
theorem Remnant.mono (remnant : store.Remnant text rule) (continues : store.Continues next) :
    next.Remnant text rule := by
  obtain ⟨full, inside, abridges⟩ := remnant.abridges
  exact ⟨remnant.parted, remnant.free, full, inside, abridges.mono continues.keeps⟩

/-- Segments of what is left are left of parts of the text. -/
theorem Remnant.segment {junction : Junction} {segment : Text} (remnant : store.Remnant text rule)
    (mem : segment ∈ junction.segments rule) : store.Remnant text segment := by
  have within := (junction.separates_segments rule).infix_of_mem mem
  obtain ⟨full, inside, abridges⟩ := remnant.abridges
  obtain ⟨parts, divides⟩ := abridges.divides junction
  obtain ⟨part, among, left⟩ := divides.exists_part mem
  exact ⟨remnant.parted.part within,
    fun balanced c mem => remnant.free balanced c (within.subset mem),
    part, (divides.separates.infix_of_mem among).trans inside, left⟩

/-- What follows a word of what is left is left of a part of the text. -/
theorem Remnant.suffix {word operand : Text} (remnant : store.Remnant text (word ++ operand))
    (unmarked : '@' ∉ word) : store.Remnant text operand := by
  have within : operand <:+: word ++ operand := (List.suffix_append word operand).isInfix
  obtain ⟨full, inside, abridges⟩ := remnant.abridges
  obtain ⟨part, rfl, left⟩ := abridges.split_front unmarked
  exact ⟨remnant.parted.part within,
    fun balanced c mem => remnant.free balanced c (within.subset mem),
    part, (List.suffix_append word part).isInfix.trans inside, left⟩

/-- What is left of a text is expanded to a text that is read in its place, or the text is to
blame. -/
theorem Remnant.expand (remnant : store.Remnant text rule) (intact : store.Intact)
    (unmarked : Unmarked text) : Ends (Blames text) (Succeeds text) (store.expand rule) := by
  obtain ⟨full, inside, abridges⟩ := remnant.abridges
  have settles := expand_settles intact.toSound abridges (unmarked.isTame.part inside)
  have whole := settles.and_of_ok fun expanded success =>
    intact.expand remnant.parted.not_hasUnended success
  have ends := (whole.and (store.expand_ends rule)).weaken fun error ⟨cause, kind⟩ =>
    RuleError.IsOfStore.blames kind cause
  refine ends.mono ?_
  rintro expanded ⟨⟨again, -, replaces, -⟩, -⟩
  exact ⟨again, fun balanced =>
    replaces.balanced_iff.mpr (balanced_of_free (remnant.free balanced))⟩

/-- The next store has intact clauses and goes on with those of the store before. -/
structure Extends (store next : ClauseStore) : Prop where
  /-- All clauses are intact. -/
  intact : next.Intact
  /-- Clauses keep their names. -/
  continues : store.Continues next

/-- A store of intact clauses goes on with them. -/
theorem Extends.refl (intact : store.Intact) : store.Extends store :=
  ⟨intact, .refl intact.toSound⟩

/-- One store after another. -/
theorem Extends.trans {middle : ClauseStore} (first : store.Extends middle)
    (second : middle.Extends next) : store.Extends next :=
  ⟨second.intact, first.continues.trans second.continues⟩

/-- Groups are taken out of a text, or the text is to blame. -/
theorem Intact.extract_ends (intact : store.Intact) (unmarked : Unmarked text) :
    Ends (Blames text) (fun (rule, next) => store.Extends next ∧ rule.IsTrimmed ∧
      next.Remnant text rule) (store.extract text.trim) := by
  have tame := unmarked.isTame.part text.trim_isInfix
  have settles := extractWithin_settles intact.toSound (.refl _ text.trim) tame
    text.isTrimmed_trim IsGroup.head? (Nat.le_refl _)
  have ends := (settles.and (extractWithin_ends _ store text.trim)).weaken
    fun error ⟨cause, kind⟩ => RuleError.IsOfStore.blames kind cause
  have extraction : Ends (Blames text) (fun (rule, next) => store.Continues next ∧
      rule.IsTrimmed ∧ next.Remnant text rule) (store.extract text.trim) := by
    refine ends.bind ?_
    rintro ⟨rule, next⟩ ⟨⟨continues, residue, parted⟩, -⟩
    have free (balanced : Balanced text) : ∀ c ∈ rule, isBracket c = false :=
      parted.free_of_balanced (residue.balanced (balanced_trim_iff.mpr balanced))
    dsimp only
    split
    · rename_i mixed
      refine .bracket fun balanced => ?_
      simp [not_mem_of_free (free balanced)] at mixed
    · obtain ⟨part, inside, trimmed, abridges⟩ := residue.exists_part text.isTrimmed_trim
      exact ⟨continues, abridges.isTrimmed trimmed, parted, free, part,
        inside.trans text.trim_isInfix, abridges⟩
  have known := extraction.and_of_ok fun _ success => intact.extract success
  refine known.mono ?_
  rintro ⟨rule, next⟩ ⟨still, continues, remnant⟩
  exact ⟨⟨still, continues⟩, remnant⟩

end ClauseStore

end AccessRules
