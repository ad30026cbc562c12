import AccessRules.Proofs.Rule.StrayBracket
import AccessRules.Rule.ClauseStore
import Mathlib.Logic.Relation

/-!
# What extraction and expansion leave

Extraction abridges a text pass by pass and expansion does the reverse, both by groups only. So
brackets without a partner are never created or lost, and when no innermost group is left, all
brackets of an extracted text are without a partner.
-/
namespace AccessRules

open AccessRules.Bracket Relation

/-- A sequenced computation succeeds exactly if its parts do. -/
theorem bind_eq_ok {ε α β : Type} {first : Except ε α} {next : α → Except ε β} {answer : β} :
    (first >>= next) = .ok answer ↔ ∃ value, first = .ok value ∧ next value = .ok answer := by
  cases first <;> simp [bind, Except.bind]

/-- Some groups of the full text are replaced by some markers. -/
abbrev Hides : (full short : Text) → Prop := Abridges fun _ _ => True

/-- What holds of an expanded text holds of the text it was expanded from. -/
theorem unfolds_induction {property : Text → Prop} {full short : Text}
    (unfolds : ReflTransGen Hides full short)
    (step : ∀ {full short : Text}, Hides full short → property full → property short)
    (holds : property full) : property short := by
  induction unfolds with
  | refl => exact holds
  | tail further last ih => exact step last ih

/-- A group is expanded to a group. -/
theorem isGroup_of_unfolds {full short : Text} (unfolds : ReflTransGen Hides full short)
    (group : IsGroup short) : IsGroup full := by
  induction unfolds with
  | refl => exact group
  | tail further last ih => exact ih (last.isGroup group)

/-- What is no mark is kept when a text is expanded. -/
theorem mem_of_unfolds {full short : Text} {c : Char} (unfolds : ReflTransGen Hides full short)
    (other : Marker.isMark c = false) (mem : c ∈ short) : c ∈ full := by
  induction unfolds with
  | refl => exact mem
  | tail further last ih => exact ih (last.mem_full mem other)

namespace ClauseStore

variable {store : ClauseStore}

/-- Every stored clause is a bracket group. -/
def Grouped (store : ClauseStore) : Prop := ∀ clause ∈ store.clauses, IsGroup clause

/-- The digits name the clause. -/
def Names (store : ClauseStore) (digits clause : Text) : Prop := store.clause? digits = some clause

/-- A named clause is stored, and its name is a number. -/
theorem Names.mem {digits clause : Text} (named : store.Names digits clause) :
    clause ∈ store.clauses ∧ ∀ c ∈ digits, c.isDigit = true := by
  obtain ⟨index, indexed, found⟩ := Option.bind_eq_some_iff.mp named
  unfold Marker.index? at indexed
  split at indexed
  · rename_i number
    exact ⟨Array.mem_of_getElem? found, List.all_eq_true.mp number⟩
  · contradiction

/-! ## Expansion -/

/-- A marker is replaced by the clause that its digits name. -/
theorem clause_of_substitute {digits after replaced : Text} {finds : List (Text × Text)}
    {used : Nat} (success : store.substitute used ((digits, after) :: finds) = .ok replaced) :
    ∃ clause others used, store.Names digits clause ∧ store.substitute used finds = .ok others ∧
      replaced = clause ++ after ++ others := by
  unfold substitute at success
  split at success
  · contradiction
  · rename_i clause named
    dsimp only at success
    split at success
    · contradiction
    · obtain ⟨others, rest, same⟩ := bind_eq_ok.mp success
      exact ⟨clause, others, _, named, rest, (Except.ok.inj same).symm⟩

/-- Clauses are put in the place of the markers that name them. -/
theorem abridges_of_substitute (grouped : store.Grouped) {text : Text} {cut : Text.Cut Text}
    (cuts : Text.IsCut Marker.read? text cut) {used : Nat} {replaced : Text}
    (success : store.substitute used cut.finds = .ok replaced) :
    Abridges store.Names (cut.lead ++ replaced) text := by
  induction cuts generalizing used replaced with
  | nil =>
    obtain rfl := Except.ok.inj success
    exact .nil
  | @skip c text cut refused further ih => exact .char c (ih success)
  | @find text rest digits cut accepted further ih =>
    obtain ⟨rfl, filled, -⟩ := Marker.read?_eq_some_iff.mp accepted
    obtain ⟨clause, others, used, named, rest, rfl⟩ := clause_of_substitute success
    have stored := Names.mem named
    simpa using Abridges.group ⟨filled, stored.2⟩ (grouped clause stored.1) named (ih rest)

/-- What is expanded was expanded in passes and fits. -/
theorem expandWithin_of_expand {text expanded : Text}
    (success : store.expand text = .ok expanded) :
    store.expandWithin (store.clauses.size + 1) text = .ok expanded ∧
      expanded.byteLength ≤ store.maxExpansion := by
  obtain ⟨unchecked, expansion, checked⟩ := bind_eq_ok.mp success
  split at checked
  · contradiction
  · rename_i fits
    obtain rfl := Except.ok.inj checked
    exact ⟨expansion, Nat.not_lt.mp fits⟩

/-- Expansion only replaces markers by groups. -/
theorem unfolds_of_expand (grouped : store.Grouped) {text expanded : Text}
    (success : store.expand text = .ok expanded) : ReflTransGen Hides expanded text := by
  have passes : ∀ (passes : Nat) (text expanded : Text),
      store.expandWithin passes text = .ok expanded → ReflTransGen Hides expanded text := by
    intro passes
    induction passes with
    | zero =>
      intro text expanded success
      obtain rfl := Except.ok.inj success
      exact .refl
    | succ passes ih =>
      intro text expanded success
      unfold expandWithin at success
      dsimp only at success
      split at success
      · obtain rfl := Except.ok.inj success
        exact .refl
      · obtain ⟨replaced, substituted, rest⟩ := bind_eq_ok.mp success
        have cuts := Text.isCut_cut Marker.shortens_read? text
        have pass := abridges_of_substitute grouped cuts substituted
        exact (ih _ _ rest).tail (pass.mono fun _ _ _ => trivial)
  exact passes _ _ _ (expandWithin_of_expand success).1

/-! ## Capture -/

/-- A clause is stored under the next index if there is room for it. -/
theorem push_eq_ok_iff {clause marker : Text} {next : ClauseStore} :
    store.push clause = .ok (marker, next) ↔
      store.stored + clause.byteLength ≤ store.maxStored ∧
        marker = Marker.render store.clauses.size ∧
        next = { store with
          clauses := store.clauses.push clause, stored := store.stored + clause.byteLength } := by
  unfold ClauseStore.push
  dsimp only
  split
  · rename_i full
    refine ⟨fun refused => by contradiction, fun stored => ?_⟩
    exact absurd stored.1 (Nat.not_le_of_lt full)
  · rename_i room
    simp only [Except.ok.injEq, Prod.mk.injEq, Nat.not_lt.mp room, true_and]
    exact and_congr eq_comm eq_comm

/-- Storing a clause gives the marker of the next index and adds the clause. -/
theorem eq_of_push {clause marker : Text} {next : ClauseStore}
    (success : store.push clause = .ok (marker, next)) :
    marker = Marker.render store.clauses.size ∧ next.clauses = store.clauses.push clause := by
  obtain ⟨-, rfl, rfl⟩ := push_eq_ok_iff.mp success
  exact ⟨rfl, rfl⟩

/-- What holds of all clauses and of the stored one holds of all clauses afterwards. -/
theorem forall_clauses_of_push {good : Text → Prop} {clause marker : Text} {next : ClauseStore}
    (each : ∀ other ∈ store.clauses, good other) (fresh : good clause)
    (success : store.push clause = .ok (marker, next)) : ∀ other ∈ next.clauses, good other := by
  intro other mem
  rw [(eq_of_push success).2] at mem
  rcases Array.mem_push.mp mem with old | rfl
  · exact each other old
  · exact fresh

/-- Storing a group keeps all clauses groups. -/
theorem Grouped.push {clause marker : Text} {next : ClauseStore} (grouped : store.Grouped)
    (group : IsGroup clause) (success : store.push clause = .ok (marker, next)) :
    next.Grouped :=
  forall_clauses_of_push grouped group success

/-- Captured groups are replaced by markers, and clauses stay groups. -/
theorem hides_of_capture {text : Text} {cut : Text.Cut Text} (cuts : Text.IsCut group? text cut)
    {store next : ClauseStore} {marked : Text}
    (success : store.capture cut.finds = .ok (marked, next)) :
    Hides text (cut.lead ++ marked) ∧ (store.Grouped → next.Grouped) := by
  induction cuts generalizing store marked with
  | nil =>
    obtain ⟨rfl, rfl⟩ := Prod.mk.inj (Except.ok.inj success)
    exact ⟨.nil, id⟩
  | @skip c text cut refused further ih =>
    obtain ⟨hides, kept⟩ := ih success
    exact ⟨.char c hides, kept⟩
  | @find text rest inner cut accepted further ih =>
    obtain ⟨rfl, free⟩ := group?_eq_some_iff.mp accepted
    unfold capture at success
    obtain ⟨clause, expanded, success⟩ := bind_eq_ok.mp success
    obtain ⟨⟨marker, middle⟩, pushed, success⟩ := bind_eq_ok.mp success
    obtain ⟨⟨others, last⟩, captured, same⟩ := bind_eq_ok.mp success
    obtain ⟨rfl, rfl⟩ := Prod.mk.inj (Except.ok.inj same)
    have group := isGroup_of_free free
    obtain ⟨hides, kept⟩ := ih captured
    refine ⟨?_, fun grouped => ?_⟩
    · obtain ⟨rfl, -⟩ := eq_of_push pushed
      have number := Marker.isNumber_decimal store.clauses.size
      simpa [Marker.render] using Abridges.group number group trivial hides
    · have whole := isGroup_of_unfolds (unfolds_of_expand grouped expanded) group
      exact kept (grouped.push whole pushed)

/-- With every captured group an opening bracket is gone. -/
theorem count_of_capture {text : Text} {cut : Text.Cut Text} (cuts : Text.IsCut group? text cut)
    {store next : ClauseStore} {marked : Text}
    (success : store.capture cut.finds = .ok (marked, next)) :
    (cut.lead ++ marked).count '(' + cut.finds.length = text.count '(' := by
  induction cuts generalizing store marked with
  | nil =>
    obtain ⟨rfl, -⟩ := Prod.mk.inj (Except.ok.inj success)
    rfl
  | @skip c text cut refused further ih =>
    have fewer := ih success
    simp only [List.cons_append, List.count_cons]
    omega
  | @find text rest inner cut accepted further ih =>
    obtain ⟨rfl, free⟩ := group?_eq_some_iff.mp accepted
    unfold capture at success
    obtain ⟨clause, expanded, success⟩ := bind_eq_ok.mp success
    obtain ⟨⟨marker, middle⟩, pushed, success⟩ := bind_eq_ok.mp success
    obtain ⟨⟨others, last⟩, captured, same⟩ := bind_eq_ok.mp success
    obtain ⟨rfl, rfl⟩ := Prod.mk.inj (Except.ok.inj same)
    obtain ⟨rfl, -⟩ := eq_of_push pushed
    have fewer := ih captured
    have number := Marker.isNumber_decimal store.clauses.size
    have unmarked : (Marker.render store.clauses.size).count '(' = 0 :=
      List.count_eq_zero.mpr fun mem => by
        simpa [isBracket] using Marker.isBracket_of_mem number mem
    have free : inner.count '(' = 0 :=
      List.count_eq_zero.mpr fun mem => by simpa [isBracket] using free _ mem
    simp only [List.nil_append, List.count_append, List.count_cons, List.length_cons] at *
    simp [unmarked, free]
    omega

/-! ## Extraction -/

end ClauseStore

/-- Strays at keywords are not lost from the short text to the full one, and no bracket without a
partner is. -/
structure Preserves (full short : Text) : Prop where
  /-- Strays at keywords of the short text are those of the full one. -/
  strays : StraysAtKeywords short → StraysAtKeywords full
  /-- As many closing brackets have no partner. -/
  unopened : unopened full = unopened short
  /-- As many opening brackets have no partner. -/
  unclosed : unclosed full = unclosed short

namespace Preserves

/-- One change after another. -/
theorem trans {full middle short : Text} (first : Preserves full middle)
    (second : Preserves middle short) : Preserves full short :=
  ⟨first.strays ∘ second.strays, first.unopened.trans second.unopened,
    first.unclosed.trans second.unclosed⟩

/-- Hidden groups hide no strays. -/
theorem of_hides {full short : Text} (hides : Hides full short) : Preserves full short :=
  ⟨hides.straysAtKeywords_iff.mpr, hides.unmatched_eq.1, hides.unmatched_eq.2⟩

/-- Balanced texts have no strays. -/
theorem of_balanced {full short : Text} (whole : Balanced full) (rest : Balanced short) :
    Preserves full short := by
  have kept := whole.straysAtKeywords
  rw [balanced_iff] at whole rest
  exact ⟨fun _ => kept, by omega, by omega⟩

/-- Blanks at the ends are no brackets. -/
theorem of_trim (text : Text) : Preserves text text.trim := by
  obtain ⟨front, back, split, before, after⟩ := text.exists_eq_trim
  have same : Bracket.unopened (front ++ text.trim ++ back) = Bracket.unopened text.trim ∧
      Bracket.unclosed (front ++ text.trim ++ back) = Bracket.unclosed text.trim :=
    unmatched_surround (fun c mem => isBracket_of_isBlank (before c mem))
      fun c mem => isBracket_of_isBlank (after c mem)
  rw [← split] at same
  exact ⟨StraysAtKeywords.of_trim, same.1, same.2⟩

/-- Brackets around the whole text have each other for partners. -/
theorem of_unwrap (text : Text) : Preserves text (unwrap text) := by
  unfold unwrap
  split
  · rename_i inner whole
    obtain ⟨group, free⟩ := group?_eq_some_iff.mp whole
    refine (of_trim text).trans (.trans (of_balanced ?_ (balanced_of_free free)) (of_trim inner))
    rw [group]
    exact (isGroup_of_free free).balanced
  · exact of_trim text

end Preserves

/-- Taking brackets off opens none. -/
theorem Bracket.count_unwrap_le (text : Text) : (unwrap text).count '(' ≤ text.count '(' := by
  have trimmed : ∀ text : Text, text.trim.count '(' ≤ text.count '(' := fun text => by
    obtain ⟨front, back, split, -, -⟩ := text.exists_eq_trim
    conv_rhs => rw [split]
    simp only [List.count_append]
    omega
  unfold unwrap
  split
  · rename_i inner whole
    obtain ⟨group, -⟩ := group?_eq_some_iff.mp whole
    have outer := trimmed text
    have within := trimmed inner
    rw [group] at outer
    simp only [List.cons_append, List.count_cons, List.count_append] at outer
    omega
  · exact trimmed text

namespace ClauseStore

/-- Extraction keeps strays, and goes on until the text is parted if there are enough passes. -/
theorem preserves_of_extractWithin {passes : Nat} {store next : ClauseStore}
    {text extracted : Text} (grouped : store.Grouped)
    (success : extractWithin passes store text = .ok (extracted, next)) :
    Preserves text extracted ∧ next.Grouped ∧
      (text.count '(' ≤ passes → Parted extracted) := by
  induction passes generalizing store text with
  | zero =>
    obtain ⟨rfl, rfl⟩ := Prod.mk.inj (Except.ok.inj success)
    refine ⟨.of_unwrap text, grouped, fun none before after same => ?_⟩
    have fewer := count_unwrap_le text
    simp only [same, List.count_append, List.count_cons_self] at fewer
    omega
  | succ passes ih =>
    have unwrapped := Preserves.of_unwrap text
    have fewer := count_unwrap_le text
    have cuts := Text.isCut_cut shortens_group? (unwrap text)
    unfold extractWithin groups at success
    dsimp only at success
    split at success
    · rename_i none
      obtain ⟨rfl, rfl⟩ := Prod.mk.inj (Except.ok.inj success)
      have absent := (cuts.finds_eq_nil_iff rfl).mp (List.isEmpty_iff.mp none)
      exact ⟨unwrapped, grouped, fun _ => parted_of_no_group absent⟩
    · rename_i some
      obtain ⟨⟨marked, middle⟩, captured, rest⟩ := bind_eq_ok.mp success
      dsimp only at rest
      obtain ⟨hides, kept⟩ := hides_of_capture cuts captured
      have counts := count_of_capture cuts captured
      obtain ⟨preserves, still, parted⟩ := ih (kept grouped) rest
      have taken := List.length_pos_of_ne_nil (mt List.isEmpty_iff.mpr some)
      exact ⟨unwrapped.trans (.trans (.of_hides hides) preserves), still,
        fun enough => parted (by omega)⟩

/-- What is extracted was extracted in passes and has brackets of both kinds or of none. -/
theorem extractWithin_of_extract {store next : ClauseStore} {text extracted : Text}
    (success : store.extract text = .ok (extracted, next)) :
    extractWithin (text.count '(') store text = .ok (extracted, next) ∧
      ('(' ∈ extracted ↔ ')' ∈ extracted) := by
  obtain ⟨⟨unchecked, middle⟩, extraction, checked⟩ := bind_eq_ok.mp success
  dsimp only at checked
  split at checked
  · contradiction
  · rename_i both
    obtain ⟨rfl, rfl⟩ := Prod.mk.inj (Except.ok.inj checked)
    simp only [bne_iff_ne, ne_eq, Decidable.not_not] at both
    refine ⟨extraction, ?_⟩
    rw [← List.contains_iff_mem, ← List.contains_iff_mem, both]

/-- An extracted text is parted, keeps the strays of the full text and has brackets of both kinds
or of none. -/
theorem preserves_of_extract {store next : ClauseStore} {text extracted : Text}
    (grouped : store.Grouped) (success : store.extract text = .ok (extracted, next)) :
    Preserves text extracted ∧ next.Grouped ∧ Parted extracted ∧
      ('(' ∈ extracted ↔ ')' ∈ extracted) := by
  obtain ⟨extraction, kinds⟩ := extractWithin_of_extract success
  obtain ⟨preserves, kept, parted⟩ := preserves_of_extractWithin grouped extraction
  exact ⟨preserves, kept, parted (Nat.le_refl _), kinds⟩

end ClauseStore

end AccessRules
