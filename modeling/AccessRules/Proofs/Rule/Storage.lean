import AccessRules.Proofs.Rule.Growth
import AccessRules.Proofs.Rule.Pairing

/-!
# Storing groups and getting them back

The groups of an intact text are taken out in no more passes than its bracket pairs nest, and each
part of what is left expands to the part of the full text that it abridges. The store only grows, by
at most the bytes of the text for each pass, so taking groups out fails only if there is no room for
that. A balanced text is extracted to a text without brackets.
-/
namespace AccessRules

open AccessRules.Bracket

namespace ClauseStore

variable {store : ClauseStore}

/-- Groups are captured, and the text is abridged by their markers. What stands before the text may
be abridged already. -/
theorem capture_yields {text : Text} {cut : Text.Cut Text} (cuts : Text.IsCut group? text cut)
    {store : ClauseStore} {full front : Text} (abridges : Abridges store.Names full (front ++ text))
    (intact : IsIntact full)
    (length : full.byteLength ≤ store.maxExpansion) :
    store.Yields full.byteLength
      (fun marked next => Abridges next.Names full (front ++ (cut.lead ++ marked)))
      (fun _ => False) (store.capture cut.finds) := by
  induction cuts generalizing store full front with
  | nil => exact (Yields.pure abridges).weaken (Nat.zero_le _)
  | @skip c text cut refused further ih =>
    have shifted : Abridges store.Names full ((front ++ [c]) ++ text) := by simpa using abridges
    refine (ih shifted intact length).mono (fun marked next rest => ?_) (fun _ => id) ?_
    · simpa using rest
    · exact Nat.le_refl _
  | @find text rest inner cut accepted further ih =>
    obtain ⟨rfl, free⟩ := group?_eq_some_iff.mp accepted
    have opening : Abridges store.Names full (front ++ '(' :: (inner ++ ')' :: rest)) := abridges
    obtain ⟨left, tail, rfl, first, later⟩ := opening.split_short_char rfl
    obtain ⟨whole, right, rfl, inside, last⟩ := later.split_short_char rfl
    have group : Abridges store.Names ('(' :: whole ++ [')']) ('(' :: inner ++ [')']) :=
      .char '(' (inside.append (.refl _ [')']))
    have intactGroup : IsIntact ('(' :: whole ++ [')']) := intact.part ⟨left, right, by simp⟩
    have intactRight : IsIntact right :=
      intact.part ⟨left ++ '(' :: whole ++ [')'], [], by simp⟩
    have bytes : Text.byteLength (left ++ '(' :: (whole ++ ')' :: right)) =
        left.byteLength + Text.byteLength ('(' :: whole ++ [')']) + Text.byteLength right := by
      simp only [Text.byteLength_append, Text.byteLength_cons, Text.byteLength_nil]
      omega
    have expanded : store.expand ('(' :: inner ++ [')']) = .ok ('(' :: whole ++ [')']) :=
      expand_of_intact group intactGroup (by omega)
    have captured : store.Yields
        (Text.byteLength ('(' :: whole ++ [')']) + (Text.byteLength right + 0))
        (fun marked next => Abridges next.Names (left ++ '(' :: (whole ++ ')' :: right))
          (front ++ ([] ++ marked)))
        (fun _ => False) (store.capture ((inner, cut.lead) :: cut.finds)) := by
      rw [capture, expanded]
      -- The group is stored first, then the groups after it.
      refine (push_yields store _).bind (fun _ => id) fun marker middle stored growth => ?_
      obtain ⟨rfl, named⟩ := stored
      have start : Abridges middle.Names right ([] ++ rest) := last.mono growth.names
      have fits : Text.byteLength right ≤ middle.maxExpansion := by
        rw [growth.maxExpansion]
        omega
      refine (ih start intactRight fits).bind (fun _ => id) fun marked next remains grows =>
        Yields.pure ?_
      have number := Marker.isNumber_decimal store.clauses.size
      have balanced := group.isGroup (isGroup_of_free free)
      have both := growth.trans grows
      have marker := Abridges.group number balanced (grows.names _ _ named) remains
      have joined := (first.mono both.names).append marker
      simpa [Marker.render] using joined
    exact captured.weaken (by omega)

end ClauseStore

/-! ## Nesting -/

namespace Bracket

/-- What is left of the full text nests brackets no deeper than so many levels, one more if the full
text is a single group. -/
def NestsWithin (full text : Text) (bound : Nat) : Prop :=
  nesting text ≤ bound ∨ IsGroup full ∧ nesting text ≤ bound + 1

end Bracket

/-! ## Trimming -/

namespace Abridges

variable {names : Text → Text → Prop} {full short : Text}

/-- Only the empty text is abridged to nothing. -/
theorem eq_nil_iff (abridges : Abridges names full short) : short = [] ↔ full = [] := by
  constructor
  · rintro rfl
    exact abridges.eq_of_unmarked List.not_mem_nil
  · rintro rfl
    exact abridges.eq_of_unbracketed List.not_mem_nil

/-- An abridged text has no blanks at its ends if the full one has none. -/
theorem isTrimmed (abridges : Abridges names full short) (trimmed : full.IsTrimmed) :
    short.IsTrimmed := by
  have mark : Text.isBlank '@' = false := by decide
  refine ⟨fun c head => ?_, fun c last => ?_⟩
  · cases abridges with
    | nil => simp at head
    | char d further => exact trimmed.first c (by simpa using head)
    | group number group named further =>
      obtain rfl : '@' = c := by simpa [Marker.ofDigits] using head
      exact mark
  · have final := trimmed.last
    clear trimmed
    induction abridges with
    | nil => simp at last
    | @char d full short further ih =>
      by_cases done : short = []
      · obtain rfl := further.eq_nil_iff.mp done
        subst done
        exact final c last
      · have more : full ≠ [] := mt further.eq_nil_iff.mpr done
        rw [← List.singleton_append, List.getLast?_append_of_ne_nil _ done] at last
        rw [← List.singleton_append, List.getLast?_append_of_ne_nil _ more] at final
        exact ih last final
    | @group digits body full short number group named further ih =>
      by_cases done : short = []
      · subst done
        rw [List.append_nil, Marker.getLast?_ofDigits] at last
        obtain rfl := Option.some.inj last
        exact mark
      · have more : full ≠ [] := mt further.eq_nil_iff.mpr done
        rw [List.getLast?_append_of_ne_nil _ done] at last
        rw [List.getLast?_append_of_ne_nil _ more] at final
        exact ih last final

/-- Trimming both texts takes the same blanks away. -/
theorem trim (abridges : Abridges names full short) :
    Abridges names full.trim short.trim := by
  obtain ⟨front, back, split, before, after⟩ := full.exists_eq_trim
  have opens : '(' ∉ front := fun mem => absurd (before _ mem) (by decide)
  have closes : ')' ∉ back := fun mem => absurd (after _ mem) (by decide)
  have unopening : '(' ∉ back := fun mem => absurd (after _ mem) (by decide)
  rw [split, List.append_assoc] at abridges
  obtain ⟨first, rest, rfl, start, later⟩ :=
    abridges.split_full (.inl (unclosed_eq_zero_of_not_mem opens))
  obtain ⟨middle, last, rfl, inside, ends⟩ :=
    later.split_full (.inr (unopened_eq_zero_of_not_mem closes))
  obtain rfl := start.eq_of_unbracketed opens
  obtain rfl := ends.eq_of_unbracketed unopening
  have trimmed := inside.isTrimmed full.isTrimmed_trim
  rw [← List.append_assoc, trimmed.trim_eq before after]
  exact inside

end Abridges

/-- What stands between brackets is shorter than with them. -/
theorem byteLength_trim_lt (inside : Text) :
    Text.byteLength (Text.trim inside) < Text.byteLength ('(' :: inside ++ [')']) := by
  have trimmed := inside.byteLength_trim_le
  have opening := Char.utf8Size_pos '('
  rw [List.cons_append, Text.byteLength_cons, Text.byteLength_append]
  omega

/-! ## Extraction -/

/-- What is left of a balanced text when its groups are taken out: of a single group what it
holds, of another text itself, each abridged. -/
inductive Residue (names : Text → Text → Prop) : (full rule : Text) → Prop where
  | whole {full rule : Text} (several : ¬IsGroup full) (abridges : Abridges names full rule) :
      Residue names full rule
  | inner {inside rule : Text} (balanced : Balanced inside)
      (abridges : Abridges names (Text.trim inside) rule) :
      Residue names ('(' :: inside ++ [')']) rule

/-- What is left of a text under some names is left of it under more names. -/
theorem Residue.mono {names others : Text → Text → Prop} {full rule : Text}
    (residue : Residue names full rule)
    (more : ∀ digits body, names digits body → others digits body) : Residue others full rule := by
  cases residue with
  | whole several abridges => exact .whole several (abridges.mono more)
  | inner balanced abridges => exact .inner balanced (abridges.mono more)

/-- Blanks around a text do not matter to its balance. -/
theorem Bracket.balanced_trim_iff {text : Text} : Balanced text.trim ↔ Balanced text := by
  obtain ⟨front, back, split, before, after⟩ := text.exists_eq_trim
  have front_free : ∀ c ∈ front, isBracket c = false :=
    fun c mem => isBracket_of_isBlank (before c mem)
  have back_free : ∀ c ∈ back, isBracket c = false :=
    fun c mem => isBracket_of_isBlank (after c mem)
  conv_rhs => rw [split]
  rw [balanced_iff, balanced_iff, (unmatched_surround front_free back_free).1,
    (unmatched_surround front_free back_free).2]

/-- What is left of a balanced text is balanced. -/
theorem Residue.balanced {names : Text → Text → Prop} {full rule : Text}
    (residue : Residue names full rule) (balanced : Balanced full) : Balanced rule := by
  cases residue with
  | whole several abridges => exact abridges.balanced_iff.mp balanced
  | inner within abridges => exact abridges.balanced_iff.mp (balanced_trim_iff.mpr within)

/-- A text that opens no bracket is parted. -/
theorem Bracket.parted_of_not_mem {text : Text} (free : '(' ∉ text) : Parted text :=
  fun before after same => absurd (same ▸ List.mem_append_right before (by simp)) free

namespace ClauseStore

variable {store : ClauseStore}

/-- Where an innermost group is found, a bracket opens. -/
theorem mem_of_finds {text : Text} {cut : Text.Cut Text} (cuts : Text.IsCut group? text cut)
    (filled : cut.finds ≠ []) : '(' ∈ text := by
  by_contra unopening
  refine filled ((cuts.finds_eq_nil_iff rfl).mpr fun front back split => ?_)
  cases found : group? back with
  | none => rfl
  | some answer =>
    obtain ⟨inner, rest⟩ := answer
    obtain ⟨rfl, -⟩ := group?_eq_some_iff.mp found
    exact absurd (by simp [split]) unopening

/-- A text that is unwrapped to one without brackets is extracted in any number of passes. -/
theorem extractWithin_of_free {text : Text} (passes : Nat)
    (free : ∀ c ∈ unwrap text, isBracket c = false) :
    extractWithin passes store text = .ok (unwrap text, store) := by
  cases passes with
  | zero => rfl
  | succ passes =>
    have cuts := Text.isCut_cut shortens_group? (unwrap text)
    have none : (Text.cut group? (unwrap text)).finds = [] := by
      by_contra filled
      exact absurd (free '(' (mem_of_finds cuts filled)) (by decide)
    simp [extractWithin, groups, none]

/-- A trimmed text is unwrapped if it is one innermost group, and else left as it is. -/
theorem unwrap_cases {text : Text} (trimmed : text.IsTrimmed) :
    (∃ inner, text = '(' :: inner ++ [')'] ∧ (∀ c ∈ inner, isBracket c = false) ∧
        unwrap text = Text.trim inner) ∨
      unwrap text = text ∧ ∀ inner, group? text ≠ some (inner, []) := by
  unfold unwrap
  rw [trimmed.trim_self]
  split
  · rename_i inner found
    obtain ⟨group, free⟩ := group?_eq_some_iff.mp found
    exact .inl ⟨inner, group, free, rfl⟩
  · rename_i other
    exact .inr ⟨rfl, fun inner => other inner⟩

/-- Trimming adds no brackets. -/
theorem trim_free {text : Text} (free : ∀ c ∈ text, isBracket c = false) :
    ∀ c ∈ text.trim, isBracket c = false := by
  obtain ⟨front, back, split, -, -⟩ := text.exists_eq_trim
  exact fun c mem => free c (by rw [split]; simp [mem])

/-- A trimmed text that is unwrapped to one with groups is left as it is. -/
theorem unwrap_of_mem {text : Text} (trimmed : text.IsTrimmed) (opens : '(' ∈ unwrap text) :
    unwrap text = text ∧ ∀ inner, group? text ≠ some (inner, []) := by
  rcases unwrap_cases trimmed with ⟨inner, -, free, same⟩ | other
  · rw [same] at opens
    exact absurd (trim_free free _ opens) (by decide)
  · exact other

/-- What is left when no group is left, unwrapped, is the residue of the full text. -/
theorem residue_of_parted {names : Text → Text → Prop} {full text : Text}
    (abridges : Abridges names full text) (trimmed : full.IsTrimmed)
    (start : IsGroup full → text.head? = some '(') (parted : Parted (unwrap text)) :
    Residue names full (unwrap text) := by
  rcases unwrap_cases (abridges.isTrimmed trimmed) with
    ⟨inner, rfl, free, same⟩ | ⟨same, -⟩
  · obtain ⟨whole, rfl, inside⟩ := abridges.split_bracketed
    rw [same]
    exact .inner (inside.balanced_iff.mpr (balanced_of_free free)) inside.trim
  · rw [same] at parted ⊢
    refine .whole (fun group => ?_) abridges
    obtain ⟨rest, rfl⟩ := List.head?_eq_some_iff.mp (start group)
    have closed := (balanced_iff.mp group.balanced).2
    have opened := unopened_eq_zero_of_not_mem (parted [] rest rfl)
    rw [abridges.unmatched_eq.2] at closed
    simp [unclosed, opened] at closed

/-- No innermost group begins where a group around the whole text opens, if others are inside. -/
theorem group?_eq_none {names : Text → Text → Prop} {full text : Text}
    (abridges : Abridges names full text) (group : IsGroup full)
    (several : ∀ inner, group? text ≠ some (inner, [])) : group? text = none := by
  cases accepted : group? text with
  | none => rfl
  | some found =>
    -- A group at the front that is not all of the text would be closed where the full one is not.
    exfalso
    obtain ⟨inner, rest⟩ := found
    obtain ⟨rfl, free⟩ := group?_eq_some_iff.mp accepted
    have split : '(' :: inner ++ ')' :: rest = ('(' :: inner ++ [')']) ++ rest := by simp
    rw [split] at abridges
    have unmarked : ∀ c ∈ ('(' :: inner ++ [')']).getLast?, Marker.isMark c = false := by
      simp only [List.getLast?_concat, Option.mem_some_iff, forall_eq']
      decide
    obtain ⟨left, right, rfl, first, second⟩ := abridges.split_short (.inl unmarked)
    have inside := first.isGroup (isGroup_of_free free)
    have begun : left ≠ [] := fun none => by
      have empty := first.eq_nil_iff.mpr none
      simp at empty
    by_cases unfinished : right = []
    · have done := second.eq_nil_iff.mpr unfinished
      subst done
      exact several inner accepted
    · have opens := (group.open_of_append begun unfinished).1
      exact opens (balanced_iff.mp inside.balanced).2

/-- A pass leaves the bracket that opens a group around the whole text, if others are inside. -/
theorem head_of_cut {names : Text → Text → Prop} {full text : Text} {cut : Text.Cut Text}
    (cuts : Text.IsCut group? text cut) (abridges : Abridges names full text)
    (group : IsGroup full) (start : text.head? = some '(')
    (several : ∀ inner, group? text ≠ some (inner, [])) : cut.lead.head? = some '(' := by
  cases cuts with
  | nil => simp at start
  | skip refused further => simpa using start
  | find accepted further =>
    rw [group?_eq_none abridges group several] at accepted
    contradiction

/-- Where groups are found that are not all of the text, pairs nest at least one level deep, those
around the whole full text apart. -/
theorem bound_pos {names : Text → Text → Prop} {full text : Text} {bound : Nat}
    {cut : Text.Cut Text} (cuts : Text.IsCut group? text cut) (filled : cut.finds ≠ [])
    (within : pairNesting text ≤ bound ∨ IsGroup full ∧ pairNesting text ≤ bound + 1)
    (abridges : Abridges names full text) (start : IsGroup full → text.head? = some '(')
    (several : ∀ inner, group? text ≠ some (inner, [])) : 0 < bound := by
  rcases within with deep | ⟨group, deep⟩
  · exact Nat.lt_of_lt_of_le (pairNestingFrom_pos cuts filled 0) deep
  · -- The group around the whole text is not the only one.
    have refused := group?_eq_none abridges group several
    obtain ⟨rest, rfl⟩ := List.head?_eq_some_iff.mp (start group)
    have closed : unopened rest ≠ 0 := by
      intro none
      have paired := (balanced_iff.mp group.balanced).2
      rw [abridges.unmatched_eq.2] at paired
      simp [unclosed, none] at paired
    have inside := lt_pairNestingFrom_of_refused refused closed 1
    have whole : pairNesting ('(' :: rest) = max 1 (pairNestingFrom 1 rest) := if_pos ⟨rfl, closed⟩
    omega

/-- Groups are extracted from an intact text pass by pass, one level of nested pairs a pass. `text`
is what is left of the full text after some passes. -/
theorem extractWithin_yields {passes bound : Nat} {store : ClauseStore} {full text : Text}
    (abridges : Abridges store.Names full text) (intact : IsIntact full) (trimmed : full.IsTrimmed)
    (start : IsGroup full → text.head? = some '(') (enough : pairNesting text ≤ passes)
    (length : full.byteLength ≤ store.maxExpansion)
    (within : pairNesting text ≤ bound ∨ IsGroup full ∧ pairNesting text ≤ bound + 1) :
    store.Yields (bound * full.byteLength)
      (fun rule next => Residue next.Names full rule ∧ Parted rule) (fun _ => False)
      (extractWithin passes store text) := by
  have cuts := Text.isCut_cut shortens_group? (unwrap text)
  by_cases none : (Text.cut group? (unwrap text)).finds = []
  · have parted := parted_of_no_group ((cuts.finds_eq_nil_iff rfl).mp none)
    have residue := residue_of_parted abridges trimmed start parted
    have done : extractWithin passes store text = .ok (unwrap text, store) := by
      cases passes <;> simp [extractWithin, groups, none]
    rw [done]
    exact (Yields.pure ⟨residue, parted⟩).weaken (Nat.zero_le _)
  obtain ⟨same, several⟩ := unwrap_of_mem (abridges.isTrimmed trimmed) (mem_of_finds cuts none)
  rw [same] at cuts none
  cases passes with
  | zero =>
    have deep := pairNestingFrom_pos cuts none 0
    rw [pairNesting] at enough
    omega
  | succ passes =>
    have front : Abridges store.Names full ([] ++ text) := abridges
    obtain ⟨bound, rfl⟩ := Nat.exists_eq_add_of_le'
      (bound_pos cuts none within abridges start several)
    have pass : extractWithin (passes + 1) store text =
        store.capture (Text.cut group? text).finds >>= fun result =>
          extractWithin passes result.2 ((Text.cut group? text).lead ++ result.1) := by
      rw [extractWithin, same, groups, if_neg (mt List.isEmpty_iff.mp none)]
    have captured := (capture_yields cuts front intact length).with_success
    have rest : ∀ marked middle,
        (store.capture (Text.cut group? text).finds = .ok (marked, middle) ∧
          Abridges middle.Names full ([] ++ ((Text.cut group? text).lead ++ marked))) →
        store.Grows full.byteLength middle →
        middle.Yields (bound * full.byteLength)
          (fun rule next => Residue next.Names full rule ∧ Parted rule) (fun _ => False)
          (extractWithin passes middle ((Text.cut group? text).lead ++ marked)) := by
      rintro marked middle ⟨success, remains⟩ growth
      have flatter : pairNesting ((Text.cut group? text).lead ++ marked) ≤ pairNesting text - 1 :=
        pairNestingFrom_of_capture cuts 0 success
      have begins : IsGroup full →
          ((Text.cut group? text).lead ++ marked).head? = some '(' := fun group => by
        rw [List.head?_append, head_of_cut cuts abridges group (start group) several]
        rfl
      have fits : full.byteLength ≤ middle.maxExpansion := by
        rw [growth.maxExpansion]
        exact length
      rw [List.nil_append] at remains
      refine extractWithin_yields remains intact trimmed begins (by omega) fits ?_
      exact within.imp (by omega) fun ⟨group, deep⟩ => ⟨group, by omega⟩
    rw [pass, Nat.succ_mul, Nat.add_comm]
    exact captured.bind (fun _ => id) rest

/-- A balanced clean text is extracted to a rule without brackets, which is the residue of the
text. -/
theorem extract_yields {full : Text} {bound : Nat} (balanced : Balanced full)
    (clean : IsClean full) (trimmed : full.IsTrimmed)
    (length : full.byteLength ≤ store.maxExpansion) (within : NestsWithin full full bound) :
    store.Yields (bound * full.byteLength)
      (fun rule next => (∀ c ∈ rule, isBracket c = false) ∧ Residue next.Names full rule)
      (fun _ => False) (store.extract full) := by
  have flat := pairNestingFrom_le_nestingFrom full (Nat.le_refl 0)
  have paired : pairNesting full ≤ bound ∨ IsGroup full ∧ pairNesting full ≤ bound + 1 :=
    within.imp (Nat.le_trans flat) (And.imp_right (Nat.le_trans flat))
  have extracted := extractWithin_yields (.refl store.Names full) clean.isIntact trimmed
    IsGroup.head? (pairNesting_le_count full) length paired
  rw [extract]
  show store.Yields (bound * full.byteLength + 0) _ _ _
  refine extracted.bind (fun _ => id) fun rule next ⟨residue, parted⟩ grows => ?_
  have free := parted.free_of_balanced (residue.balanced balanced)
  obtain ⟨opens, closes⟩ := not_mem_of_free free
  show next.Yields 0 _ _ (if _ then _ else _)
  rw [if_neg (by simp [opens, closes])]
  exact Yields.pure ⟨free, residue⟩

/-- A balanced clean text for which there is room is extracted to a rule without brackets, which is
the residue of the text. -/
theorem extract_of_balanced {full : Text} (balanced : Balanced full) (clean : IsClean full)
    (trimmed : full.IsTrimmed) (length : full.byteLength ≤ store.maxExpansion)
    (room : store.stored + nesting full * full.byteLength ≤ store.maxStored) :
    ∃ rule next, store.extract full = .ok (rule, next) ∧
      store.Grows (nesting full * full.byteLength) next ∧ (∀ c ∈ rule, isBracket c = false) ∧
      Residue next.Names full rule :=
  (extract_yields balanced clean trimmed length (.inl (Nat.le_refl _))).of_room room

end ClauseStore

end AccessRules
