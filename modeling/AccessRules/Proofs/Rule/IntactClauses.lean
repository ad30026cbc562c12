import AccessRules.Proofs.Rule.StoredText

/-!
# Expanded texts are intact

No clause of a store and no expanded text has a marker that lacks its last mark before a group,
whatever the text is that groups are taken out of. Where such a marker stood, the marker of the
group made it whole, and the clause that its digits name took its place. So a text that has one is
never what is expanded from the rule that is left of it.
-/
namespace AccessRules

open AccessRules.Bracket

/-! ## Where unended markers stand -/

/-- A marker without its last mark holds no brackets. -/
theorem Marker.not_mem_unended {digits : Text} {c : Char} (bracket : isBracket c = true)
    (decimal : ∀ d ∈ digits, Text.isDecimalDigit d = true) : c ∉ unended digits :=
  mt mem_ofDigits_of_unended (not_mem_of_isBracket bracket decimal)

/-- A parted text has no group, so no marker stands before one. -/
theorem Bracket.Parted.not_hasUnended {text : Text} (parted : Parted text) : ¬HasUnended text := by
  rintro ⟨digits, group, -, -, ⟨inner, rfl, -⟩, front, back, rfl⟩
  refine parted (front ++ Marker.unended digits) (inner ++ [')'] ++ back) (by simp) ?_
  simp

/-- No marker stands before a group that begins the text and holds no other. -/
theorem not_hasUnended_of_free {inner : Text} (free : ∀ c ∈ inner, isBracket c = false) :
    ¬HasUnended ('(' :: inner ++ [')']) := by
  rintro ⟨digits, group, -, -, ⟨middle, rfl, -⟩, written⟩
  rw [List.cons_append] at written
  rcases List.infix_cons_iff.mp written with first | later
  · exact absurd (List.cons_prefix_cons.mp first).1 (by decide)
  · have mem : '(' ∈ inner ++ [')'] := later.subset (by simp)
    simp only [List.mem_append, List.mem_singleton, Char.reduceEq, or_false] at mem
    exact absurd (free '(' mem) (by decide)

/-- A marker before a group lies in one of two texts if the first of them is a group. -/
theorem HasUnended.of_group_append {group text : Text} (unended : HasUnended (group ++ text))
    (grouped : IsGroup group) : HasUnended group ∨ HasUnended text := by
  obtain ⟨digits, body, filled, decimal, inside, written⟩ := unended
  have holds {part : Text} (here : Marker.unended digits ++ body <:+: part) : HasUnended part :=
    ⟨digits, body, filled, decimal, inside, here⟩
  rcases List.infix_append_iff.mp written with first | second | ⟨left, right, same, ends, starts⟩
  · exact .inl (holds first)
  · exact .inr (holds second)
  obtain ⟨before, whole⟩ := ends
  have lacks : ')' ∉ Marker.unended digits := Marker.not_mem_unended rfl decimal
  by_cases begun : left = []
  · rw [begun, List.nil_append] at same
    exact .inr (holds (same ▸ starts.isInfix))
  by_cases unfinished : right = []
  · rw [unfinished, List.append_nil] at same
    exact .inl (holds (same ▸ ⟨before, [], by rw [List.append_nil, whole]⟩))
  -- What the group ends with has its last bracket and closes all that it opens itself.
  have last : ')' ∈ left := by
    obtain ⟨inner, rfl, -⟩ := grouped
    apply List.mem_of_getLast?
    rw [← List.getLast?_append_of_ne_nil before begun, whole, List.getLast?_concat]
  have closed : unclosed left = 0 := by
    have all := (balanced_iff.mp grouped.balanced).2
    have fewer := unclosed_le_append before left
    rw [whole] at fewer
    omega
  rcases List.append_eq_append_iff.mp same with ⟨between, rfl, rfl⟩ | ⟨between, front, -⟩
  · by_cases more : between = []
    · rw [more, List.append_nil] at last
      exact absurd last lacks
    · have opens := (inside.open_of_append more unfinished).1
      have fewer := unclosed_le_append (Marker.unended digits) between
      omega
  · exact absurd (front ▸ List.mem_append_left between last) lacks

/-! ## Expansion -/

/-- A group is abridged to its marker or to a group. -/
theorem Abridges.group_cases {names : Text → Text → Prop} {group short : Text}
    (abridges : Abridges names group short) (grouped : IsGroup group) :
    IsGroup short ∨ ∃ digits, Marker.IsNumber digits ∧ short = Marker.ofDigits digits := by
  generalize same : group = full at abridges
  cases abridges with
  | nil =>
    obtain ⟨inner, rfl, -⟩ := grouped
    contradiction
  | @char c full short further =>
    left
    obtain ⟨inner, rfl, balanced⟩ := grouped
    obtain ⟨rfl, rfl⟩ := List.cons.inj same
    obtain ⟨middle, last, rfl, inside, ends⟩ :=
      further.split_full (.inl (Bracket.balanced_iff.mp balanced).2)
    exact ⟨middle, by rw [ends.eq_of_char]; rfl, inside.balanced_iff.mp balanced⟩
  | @group digits body full short number inside named further =>
    right
    subst same
    have begun : body ≠ [] := by
      obtain ⟨inner, rfl, -⟩ := inside
      simp
    by_cases unfinished : full = []
    · subst unfinished
      rw [further.eq_of_unbracketed List.not_mem_nil, List.append_nil]
      exact ⟨digits, number, rfl⟩
    · exact absurd (Bracket.balanced_iff.mp inside.balanced).2
        (grouped.open_of_append begun unfinished).1

namespace ClauseStore

variable {store next : ClauseStore} {text expanded rule : Text}

/-- All clauses are intact groups. -/
structure Intact (store : ClauseStore) : Prop extends Sound store where
  /-- No marker that lacks its last mark stands before a group in a clause. -/
  ended : ∀ clause ∈ store.clauses, ¬HasUnended clause

/-- Without clauses all of them are intact. -/
theorem intact_of_empty (empty : store.clauses = #[]) : store.Intact := by
  have none (clause : Text) : clause ∉ store.clauses := by simp [empty]
  exact ⟨⟨fun clause mem => absurd mem (none clause), fun clause mem => absurd mem (none clause)⟩,
    fun clause mem => absurd mem (none clause)⟩

/-- Intact clauses leave no unended marker where they are put. -/
theorem not_hasUnended_of_substitute (intact : store.Intact) {text : Text} {cut : Text.Cut Text}
    (cuts : Text.IsCut Marker.read? text cut) (ended : ¬HasUnended text) {used : Nat}
    {replaced : Text} (success : store.substitute used cut.finds = .ok replaced) :
    ¬HasUnended (cut.lead ++ replaced) := by
  induction cuts generalizing used replaced with
  | nil =>
    obtain rfl := Except.ok.inj success
    rintro ⟨digits, group, -, -, -, written⟩
    simp [Marker.unended] at written
  | @skip c text cut refused further ih =>
    rintro ⟨digits, group, filled, decimal, grouped, written⟩
    rcases List.infix_cons_iff.mp written with first | later
    · -- A marker at the front was written there, and so was the group after it, or its marker.
      have abridges := abridges_of_substitute intact.grouped (.skip refused further) success
      obtain ⟨rest, split⟩ := first
      rw [← show Marker.unended digits ++ group ++ rest = c :: cut.lead ++ replaced from split,
        List.append_assoc] at abridges
      have opens : '(' ∉ Marker.unended digits := Marker.not_mem_unended rfl decimal
      obtain ⟨front, back, same, left, right⟩ :=
        abridges.split_full (.inl (unclosed_eq_zero_of_not_mem opens))
      obtain rfl := left.eq_of_unbracketed opens
      obtain ⟨middle, last, rfl, inside, -⟩ :=
        right.split_full (.inl (balanced_iff.mp grouped.balanced).2)
      rcases inside.group_cases grouped with again | ⟨number, -, rfl⟩
      · exact ended ⟨digits, middle, filled, decimal, again, [], last, by simp [same]⟩
      · have read : Marker.read? (c :: text) = some (digits, '<' :: number ++ ['>', '@'] ++ last) :=
          Marker.read?_eq_some_iff.mpr
            ⟨by simp [same, Marker.unended, Marker.ofDigits], filled, decimal⟩
        rw [refused] at read
        contradiction
    · exact ih (fun unended => ended (unended.of_part (List.suffix_cons c text).isInfix)) success
        ⟨digits, group, filled, decimal, grouped, later⟩
  | @find text rest digits cut accepted further ih =>
    obtain ⟨rfl, -, -⟩ := Marker.read?_eq_some_iff.mp accepted
    obtain ⟨clause, others, used, named, later, rfl⟩ := clause_of_substitute success
    have stored := (Names.mem named).1
    rw [List.nil_append, List.append_assoc]
    intro unended
    rcases unended.of_group_append (intact.grouped clause stored) with inside | beyond
    · exact intact.ended clause stored inside
    · exact ih (fun unended => ended (unended.of_part (List.suffix_append _ rest).isInfix)) later
        beyond

/-- What is expanded with intact clauses is intact if no unended marker stood in the text. -/
theorem Intact.expand (intact : store.Intact) (ended : ¬HasUnended text)
    (success : store.expand text = .ok expanded) : IsIntact expanded := by
  have cuts := Text.isCut_cut Marker.shortens_read? text
  have expansion := (expandWithin_of_expand success).1
  rw [expandWithin_of_sound intact.toSound] at expansion
  obtain ⟨replaced, substituted, same⟩ := bind_eq_ok.mp expansion
  obtain rfl := Except.ok.inj same
  exact ⟨unmarked_of_substitute intact.toSound cuts substituted,
    not_hasUnended_of_substitute intact cuts ended substituted⟩

/-- An intact group may be stored. -/
theorem Intact.push {clause marker : Text} (intact : store.Intact) (group : IsGroup clause)
    (whole : IsIntact clause) (success : store.push clause = .ok (marker, next)) :
    next.Intact :=
  ⟨intact.toSound.push group whole.unmarked success,
    forall_clauses_of_push intact.ended whole.ended success⟩

/-- Groups may be taken out of any text, and all clauses stay intact. -/
theorem Intact.extract (intact : store.Intact) (success : store.extract text = .ok (rule, next)) :
    next.Intact := by
  refine invariant_of_extract (fun intact free expansion pushed => ?_) intact success
  have group := (abridges_of_expand intact.toSound expansion).2.isGroup (isGroup_of_free free)
  exact intact.push group (intact.expand (not_hasUnended_of_free free) expansion) pushed

end ClauseStore

end AccessRules
