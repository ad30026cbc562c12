import AccessRules.Proofs.Rule.RespacedShapes
import AccessRules.Proofs.Rule.StoredText

/-!
# Stores of respaced rules

Groups are taken out of a respaced text and put back in step with the text itself. The stores of
both hold the same groups, respaced in one of them, and there they take no more bytes. So nothing
exceeds a limit there that does not do so here.
-/
namespace AccessRules

open AccessRules.Bracket

/-! ## Results in step -/

/-- A value goes with a value that is like it, and a refusal with a refusal, unless it is for an
exceeded limit. -/
def Mirrors {α β : Type} (same : α → β → Prop) : Except RuleError α → Except RuleError β → Prop
  | .ok value, result => ∃ other, result = .ok other ∧ same value other
  | .error error, result => error.isExceeded = true ∨ ∃ other, result = .error other

namespace Mirrors

variable {α β γ δ : Type} {same : α → β → Prop} {first : Except RuleError α}
  {second : Except RuleError β}

/-- Two refusals go with each other. -/
theorem of_errors (error other : RuleError) :
    Mirrors same (.error error : Except RuleError α) (.error other) := .inr ⟨other, rfl⟩

/-- Anything goes with a refusal for an exceeded limit. -/
theorem of_exceeded (excess : Excess) (result : Except RuleError β) :
    Mirrors same (.error (.exceeded excess) : Except RuleError α) result := .inl rfl

/-- Steps that go with each other make up runs that do. -/
theorem bind {next : α → Except RuleError γ} {further : β → Except RuleError δ}
    {like : γ → δ → Prop} (mirrors : Mirrors same first second)
    (later : ∀ value other, first = .ok value → same value other →
      Mirrors like (next value) (further other)) :
    Mirrors like (first >>= next) (second >>= further) := by
  cases first with
  | error error =>
    rcases mirrors with exceeded | ⟨other, rfl⟩
    · exact .inl exceeded
    · exact .inr ⟨other, rfl⟩
  | ok value =>
    obtain ⟨other, rfl, alike⟩ := mirrors
    exact later value other rfl alike

/-- Unless a limit is exceeded, a result has the same values as the one that goes with it. -/
theorem ok_iff {first second : Except RuleError α} (mirrors : Mirrors Eq first second)
    (within : ∀ error, first = .error error → error.isExceeded = false) (value : α) :
    first = .ok value ↔ second = .ok value := by
  cases first with
  | error error =>
    obtain ⟨other, rfl⟩ := mirrors.resolve_left (by simp [within error rfl])
    constructor <;> exact fun same => nomatch same
  | ok answer =>
    obtain ⟨_, rfl, rfl⟩ := mirrors
    exact Iff.rfl

end Mirrors

/-! ## Parts of abridged texts -/

namespace Abridges

variable {names : Text → Text → Prop} {full short part : Text}

/-- A part without brackets is in the abridged text or in a group. -/
theorem isInfix_short (abridges : Abridges names full short)
    (free : ∀ c ∈ part, isBracket c = false) (inside : part <:+: full) :
    part <:+: short ∨ ∃ digits body, names digits body ∧ part <:+: body := by
  have lacks : '(' ∉ part ∧ ')' ∉ part := not_mem_of_free free
  induction abridges with
  | nil => exact .inl inside
  | @char c full short further ih =>
    rcases List.infix_cons_iff.mp inside with ⟨rest, first⟩ | later
    · have whole := Abridges.char c further
      rw [← first] at whole
      obtain ⟨front, back, split, left, -⟩ :=
        whole.split_full (.inl (unclosed_eq_zero_of_not_mem lacks.1))
      obtain rfl := left.eq_of_unbracketed lacks.1
      exact .inl (split ▸ (List.prefix_append _ _).isInfix)
    · exact (ih later).imp_left fun found => found.trans (List.suffix_cons c _).isInfix
  | @group digits body full short number group named further ih =>
    obtain ⟨inner, rfl, -⟩ := group
    have split : '(' :: inner ++ [')'] ++ full = ('(' :: inner) ++ ')' :: full := by simp
    rw [split] at inside
    rcases infix_append_cons lacks.2 inside with earlier | later
    · exact .inr ⟨digits, _, named, earlier.trans (List.prefix_append _ _).isInfix⟩
    · exact (ih later).imp_left fun found => found.trans (List.suffix_append _ _).isInfix

/-- A part of the abridged text that has no marks is in the full text. -/
theorem isInfix_full (abridges : Abridges names full short)
    (free : ∀ c ∈ part, Marker.isMark c = false) (inside : part <:+: short) :
    part <:+: full := by
  obtain ⟨front, back, rfl⟩ := inside
  by_cases filled : part = []
  · rw [filled]
    exact List.nil_infix
  · have last : ∀ c ∈ (front ++ part).getLast?, Marker.isMark c = false := by
      intro c final
      rw [List.getLast?_append_of_ne_nil _ filled] at final
      exact free c (List.mem_of_getLast? final)
    have first : ∀ c ∈ part.head?, Marker.isMark c = false :=
      fun c head => free c (List.mem_of_head? head)
    obtain ⟨whole, right, rfl, start, -⟩ := abridges.split_short (.inl last)
    obtain ⟨left, middle, rfl, -, between⟩ := start.split_short (.inr first)
    have unmarked : '@' ∉ part := fun mem => absurd (free _ mem) (by decide)
    obtain rfl := between.eq_of_unmarked unmarked
    exact ⟨left, right, rfl⟩

end Abridges

namespace NegatesWith

variable {gap : Char → Bool} {names : Text → Text → Prop}

/-- What holds of negations in a text holds in its parts. -/
theorem part {text inner : Text} (negates : NegatesWith gap text) (inside : inner <:+: text) :
    NegatesWith gap inner :=
  fun word c written blank found => negates word c written blank (found.trans inside)

/-- What holds of negations in a text and in groups holds in the text with the groups put back. -/
theorem of_short {full short : Text} (negates : NegatesWith gap short)
    (abridges : Abridges names full short)
    (groups : ∀ digits body, names digits body → NegatesWith gap body) :
    NegatesWith gap full := by
  intro word c written blank found
  have free : ∀ d ∈ word ++ [c], isBracket d = false := by
    intro d mem
    rcases List.mem_append.mp mem with letter | last
    · exact isBracket_of_isAlpha (isAlpha_of_negation written d letter)
    · exact isBracket_of_isBlank (List.mem_singleton.mp last ▸ blank)
  rcases abridges.isInfix_short free found with inside | ⟨digits, body, named, inside⟩
  · exact negates word c written blank inside
  · exact groups digits body named word c written blank inside

/-- What holds of negations in a text holds if groups are taken out of it. -/
theorem of_full {full short : Text} (negates : NegatesWith gap full)
    (abridges : Abridges names full short) : NegatesWith gap short := by
  intro word c written blank found
  have free : ∀ d ∈ word ++ [c], Marker.isMark d = false := by
    intro d mem
    rcases List.mem_append.mp mem with letter | last
    · exact isMark_of_isAlpha (isAlpha_of_negation written d letter)
    · exact isMark_of_isBlank (List.mem_singleton.mp last ▸ blank)
  exact negates word c written blank (abridges.isInfix_full free found)

end NegatesWith

/-! ## Stores in step -/

namespace ClauseStore

/-- The other store holds the groups of the store, respaced, and has as much room for more. In the
groups of the store only gaps follow the word for negation. -/
structure Respaced (respace : Char → Char) (gap : Char → Bool) (store other : ClauseStore) : Prop
    extends Sound store where
  /-- The groups are respaced. -/
  clauses : other.clauses = store.clauses.map (List.map respace)
  /-- They take no more bytes. -/
  stored : other.stored ≤ store.stored
  /-- Texts may expand to as many bytes. -/
  expansion : other.maxExpansion = store.maxExpansion
  /-- Groups may take as many bytes together. -/
  room : other.maxStored = store.maxStored
  /-- Only gaps follow the word for negation. -/
  negates : ∀ clause ∈ store.clauses, NegatesWith gap clause

variable {respace : Char → Char} {gap : Char → Bool} {store other : ClauseStore}

/-- Empty stores hold the same groups. -/
theorem respaced_ofLimits (limits : Limits) :
    (ofLimits limits).Respaced respace gap (ofLimits limits) where
  grouped clause mem := absurd mem (Array.not_mem_empty clause)
  unmarked clause mem := absurd mem (Array.not_mem_empty clause)
  clauses := by simp [ofLimits]
  stored := Nat.le_refl _
  expansion := rfl
  room := rfl
  negates clause mem := absurd mem (Array.not_mem_empty clause)

/-- Markers name the same groups. -/
theorem Respaced.clause?_eq (respaced : store.Respaced respace gap other) (digits : Text) :
    other.clause? digits = (store.clause? digits).map (List.map respace) := by
  unfold clause?
  rw [respaced.clauses]
  cases Marker.index? digits with
  | none => rfl
  | some index => simp

section

variable (respacing : IsRespacing respace)
include respacing

/-- The same groups are put in the place of markers. -/
theorem Respaced.substitute (respaced : store.Respaced respace gap other) {used fewer : Nat}
    (less : fewer ≤ used) (finds : List (Text × Text)) :
    Mirrors (fun replaced other => other = replaced.map respace) (store.substitute used finds)
      (other.substitute fewer (finds.map (Prod.map id (List.map respace)))) := by
  induction finds generalizing used fewer with
  | nil => exact ⟨[], rfl, rfl⟩
  | cons find finds ih =>
    obtain ⟨digits, after⟩ := find
    rw [List.map_cons, Prod.map, id, ClauseStore.substitute, ClauseStore.substitute,
      respaced.clause?_eq, respaced.expansion]
    cases store.clause? digits with
    | none => exact .of_errors _ _
    | some clause =>
      have bytes := respacing.byteLength_le clause
      have more := respacing.byteLength_le after
      dsimp only [Option.map_some]
      by_cases long : store.maxExpansion < used + clause.byteLength
      · rw [if_pos long]
        exact .of_exceeded _ _
      · rw [if_neg long, if_neg (by omega)]
        apply (ih (by omega)).bind
        rintro others _ - rfl
        exact ⟨_, rfl, by simp⟩

/-- As many passes give the same text. -/
theorem Respaced.expandWithin (respaced : store.Respaced respace gap other) (passes : Nat)
    (text : Text) :
    Mirrors (fun expanded other => other = expanded.map respace) (store.expandWithin passes text)
      (other.expandWithin passes (text.map respace)) := by
  induction passes generalizing text with
  | zero => exact ⟨_, rfl, rfl⟩
  | succ passes ih =>
    rw [ClauseStore.expandWithin, ClauseStore.expandWithin, respacing.markers_map]
    by_cases none : (Text.cut Marker.read? text).finds.isEmpty = true
    · rw [if_pos none, if_pos ((Text.Cut.isEmpty_map _).trans none)]
      exact ⟨_, rfl, rfl⟩
    · rw [if_neg none, if_neg (mt (Text.Cut.isEmpty_map _).symm.trans none)]
      apply (respaced.substitute respacing (respacing.byteLength_le _) _).bind
      rintro replaced _ - rfl
      dsimp only [Text.Cut.map]
      rw [← List.map_append]
      exact ih _

/-- A respaced text is expanded to the expanded text, respaced. -/
theorem Respaced.expand (respaced : store.Respaced respace gap other) (text : Text) :
    Mirrors (fun expanded other => other = expanded.map respace) (store.expand text)
      (other.expand (text.map respace)) := by
  unfold ClauseStore.expand
  rw [respaced.clauses, Array.size_map, respaced.expansion]
  apply (respaced.expandWithin respacing _ text).bind
  rintro expanded _ - rfl
  have bytes := respacing.byteLength_le expanded
  by_cases long : store.maxExpansion < expanded.byteLength
  · rw [if_pos long]
    exact .of_exceeded _ _
  · rw [if_neg long, if_neg (by omega)]
    exact ⟨_, rfl, rfl⟩

end

/-- Only gaps follow the word for negation in an expanded text. -/
theorem Respaced.negates_expand (respaced : store.Respaced respace gap other) {text expanded : Text}
    (negates : NegatesWith gap text) (expansion : store.expand text = .ok expanded) :
    NegatesWith gap expanded :=
  negates.of_short (abridges_of_expand respaced.toSound expansion).2
    fun _ body named => respaced.negates body (Names.mem named).1

section

variable (respacing : IsRespacing respace)
include respacing

/-- A group is stored under the same marker. -/
theorem Respaced.push (respaced : store.Respaced respace gap other) {clause : Text}
    (group : IsGroup clause) (unmarked : Unmarked clause) (negates : NegatesWith gap clause) :
    Mirrors (fun stored further => further.1 = stored.1.map respace ∧
      stored.2.Respaced respace gap further.2) (store.push clause)
      (other.push (clause.map respace)) := by
  have bytes := respacing.byteLength_le clause
  have room := respaced.stored
  have number : (Marker.render store.clauses.size).map respace =
      Marker.render store.clauses.size := by
    refine respacing.map_of_solid fun c => isBlank_of_mem_ofDigits fun d mem => ?_
    exact Text.isDecimalDigit_of_isDigit (Text.isDigit_of_mem_decimal mem)
  cases pushed : store.push clause with
  | error error =>
    unfold ClauseStore.push at pushed
    dsimp only at pushed
    split at pushed
    · obtain rfl := Except.error.inj pushed
      exact .of_exceeded _ _
    · contradiction
  | ok stored =>
    obtain ⟨marker, next⟩ := stored
    have sound := respaced.toSound.push group unmarked pushed
    have kept := forall_clauses_of_push respaced.negates negates pushed
    unfold ClauseStore.push at pushed ⊢
    dsimp only at pushed ⊢
    split at pushed
    · contradiction
    · rename_i fits
      obtain ⟨rfl, rfl⟩ := Prod.mk.inj (Except.ok.inj pushed)
      rw [respaced.room, if_neg (by omega), respaced.clauses, Array.size_map]
      exact ⟨_, rfl, number.symm, sound, by simp, Nat.add_le_add room bytes,
        respaced.expansion, rfl, kept⟩

/-- The same groups are captured. -/
theorem Respaced.capture {text : Text} {cut : Text.Cut Text} (cuts : Text.IsCut group? text cut)
    (respaced : store.Respaced respace gap other) (negates : NegatesWith gap text) :
    Mirrors (fun marked further => further.1 = marked.1.map respace ∧
      marked.2.Respaced respace gap further.2) (store.capture cut.finds)
      (other.capture (cut.finds.map (Prod.map (List.map respace) (List.map respace)))) := by
  induction cuts generalizing store other with
  | nil => exact ⟨_, rfl, rfl, respaced⟩
  | @skip c text cut refused further ih =>
    exact ih respaced (negates.part (List.suffix_cons c text).isInfix)
  | @find text rest inner cut accepted further ih =>
    obtain ⟨rfl, free⟩ := group?_eq_some_iff.mp accepted
    have whole : '(' :: inner ++ ')' :: rest = ('(' :: inner ++ [')']) ++ rest := by simp
    have brackets : ('(' :: inner ++ [')']).map respace = '(' :: inner.map respace ++ [')'] := by
      simp [respacing.eq_self (c := '(') (by decide), respacing.eq_self (c := ')') (by decide)]
    rw [whole] at negates
    rw [List.map_cons, Prod.map, ClauseStore.capture, ClauseStore.capture, ← brackets]
    apply (respaced.expand respacing _).bind
    rintro clause _ expansion rfl
    obtain ⟨unmarked, abridges⟩ := abridges_of_expand respaced.toSound expansion
    have kept := respaced.negates_expand (negates.part (List.prefix_append _ _).isInfix) expansion
    apply (respaced.push respacing (abridges.isGroup (isGroup_of_free free)) unmarked kept).bind
    rintro ⟨marker, middle⟩ ⟨_, store⟩ - ⟨rfl, stores⟩
    apply (ih stores (negates.part (List.suffix_append _ _).isInfix)).bind
    rintro ⟨others, next⟩ ⟨_, last⟩ - ⟨rfl, stores⟩
    exact ⟨_, rfl, by simp, stores⟩

/-- The same groups are taken out, pass by pass. -/
theorem Respaced.extractWithin (respaced : store.Respaced respace gap other) (passes : Nat)
    {text : Text} (negates : NegatesWith gap text) :
    Mirrors (fun rule further => further.1 = rule.1.map respace ∧
        rule.2.Respaced respace gap further.2 ∧ NegatesWith gap rule.1)
      (extractWithin passes store text) (extractWithin passes other (text.map respace)) := by
  have unwrapped {text : Text} (negates : NegatesWith gap text) : NegatesWith gap (unwrap text) :=
    negates.part (unwrap_spec text).2
  induction passes generalizing store other text with
  | zero =>
    rw [ClauseStore.extractWithin, ClauseStore.extractWithin, respacing.unwrap_map]
    exact ⟨_, rfl, rfl, respaced, unwrapped negates⟩
  | succ passes ih =>
    have inside := unwrapped negates
    have cuts := Text.isCut_cut shortens_group? (unwrap text)
    rw [ClauseStore.extractWithin, ClauseStore.extractWithin, respacing.unwrap_map,
      respacing.groups_map]
    by_cases none : (groups (unwrap text)).finds.isEmpty = true
    · rw [if_pos none, if_pos ((Text.Cut.isEmpty_map _).trans none)]
      exact ⟨_, rfl, rfl, respaced, inside⟩
    · rw [if_neg none, if_neg (mt (Text.Cut.isEmpty_map _).symm.trans none)]
      apply (respaced.capture respacing cuts inside).bind
      rintro ⟨marked, middle⟩ ⟨_, store⟩ captured ⟨rfl, stores⟩
      dsimp only [Text.Cut.map, groups]
      rw [← List.map_append]
      exact ih stores (inside.of_full (hides_of_capture cuts captured).1)

/-- A respaced text is extracted to what is left of the text, respaced. -/
theorem Respaced.extract (respaced : store.Respaced respace gap other) {text : Text}
    (negates : NegatesWith gap text) :
    Mirrors (fun rule further => further.1 = rule.1.map respace ∧
        rule.2.Respaced respace gap further.2 ∧ NegatesWith gap rule.1)
      (store.extract text) (other.extract (text.map respace)) := by
  unfold ClauseStore.extract
  rw [respacing.count_eq (by decide)]
  apply (respaced.extractWithin respacing _ negates).bind
  rintro ⟨rule, next⟩ ⟨_, last⟩ - ⟨rfl, stores, kept⟩
  dsimp only
  rw [respacing.contains_eq (by decide), respacing.contains_eq (by decide)]
  split
  · exact .of_errors _ _
  · exact ⟨_, rfl, rfl, stores, kept⟩

end

end ClauseStore

end AccessRules
