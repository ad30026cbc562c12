import AccessRules.Proofs.Rule.Extraction

/-!
# Bracket pairs

Two brackets are partners if the text between them is balanced. When the pairs of a text are
cancelled, closing brackets are left and then opening ones. A pass that captures all innermost
groups takes one level of nested pairs away, whatever brackets have no partner.
-/
namespace AccessRules

namespace Bracket

/-! ## Partners -/

/-- The bracket between the two texts is one of a pair: the text up to its partner is balanced. -/
def HasPartner (before : Text) (c : Char) (after : Text) : Prop :=
  (c = '(' ∧ ∃ inner rest, after = inner ++ ')' :: rest ∧ Balanced inner) ∨
    (c = ')' ∧ ∃ front inner, before = front ++ '(' :: inner ∧ Balanced inner)

variable {before after : Text}

/-- An opening bracket has a partner if the text after it closes more than it opens. -/
theorem hasPartner_opening_iff : HasPartner before '(' after ↔ unopened after ≠ 0 := by
  constructor
  · rintro (⟨-, inner, rest, rfl, balanced⟩ | ⟨closing, -⟩)
    · have one : unopened (')' :: rest) = unopened rest + 1 := rfl
      rw [balanced.unopened_append]
      omega
    · exact absurd closing (by decide)
  · intro some
    obtain ⟨inner, rest, split, balanced⟩ := exists_first_unopened some
    exact .inl ⟨rfl, inner, rest, split, balanced⟩

/-- A closing bracket has a partner if the text before it opens more than it closes. -/
theorem hasPartner_closing_iff : HasPartner before ')' after ↔ unclosed before ≠ 0 := by
  constructor
  · rintro (⟨opening, -⟩ | ⟨-, front, inner, rfl, balanced⟩)
    · exact absurd opening (by decide)
    · have one : unclosed ('(' :: inner) = unclosed inner + 1 := by
        simp [unclosed, (balanced_iff.mp balanced).1]
      rw [unclosed_append]
      omega
  · intro some
    obtain ⟨front, inner, split, balanced⟩ := exists_last_unclosed some
    exact .inr ⟨rfl, front, inner, split, balanced⟩

/-- A balanced text has a partner for each bracket. -/
theorem Balanced.hasPartner {c : Char} (balanced : Balanced (before ++ c :: after))
    (bracket : isBracket c = true) : HasPartner before c after := by
  rcases eq_of_isBracket bracket with rfl | rfl
  · exact hasPartner_opening_iff.mpr balanced.unopened_ne_zero
  · exact hasPartner_closing_iff.mpr balanced.unclosed_ne_zero

/-- Of a text without a closing bracket after an opening one no bracket has a partner. -/
theorem Parted.not_hasPartner {c : Char} (parted : Parted (before ++ c :: after))
    (bracket : isBracket c = true) : ¬HasPartner before c after := by
  rcases eq_of_isBracket bracket with rfl | rfl
  · rw [hasPartner_opening_iff]
    exact not_not.mpr (parted.unopened_eq_zero before after rfl)
  · rw [hasPartner_closing_iff]
    exact not_not.mpr (parted.unclosed_eq_zero before after rfl)

end Bracket

namespace Abridges

open AccessRules.Bracket

variable {names : Text → Text → Prop} {full short left right front back : Text} {c : Char}

/-- A bracket without a partner is kept where groups are replaced by markers. -/
theorem split_unmatched (abridges : Abridges names (left ++ c :: right) short)
    (bracket : isBracket c = true) (alone : ¬HasPartner left c right) :
    ∃ front back, short = front ++ c :: back ∧ Abridges names left front ∧
      Abridges names right back := by
  rcases eq_of_isBracket bracket with rfl | rfl
  · have none : unopened right = 0 := not_not.mp (mt hasPartner_opening_iff.mpr alone)
    have same : unopened ('(' :: right) = unopened right - 1 := rfl
    exact abridges.split_full_char (.inr (by omega)) (.inr none)
  · exact abridges.split_full_char (.inl (not_not.mp (mt hasPartner_closing_iff.mpr alone)))
      (.inl rfl)

/-- A bracket has a partner in the full text exactly if it has one where groups are replaced. -/
theorem hasPartner_iff (before : Abridges names left front) (after : Abridges names right back)
    (bracket : isBracket c = true) : HasPartner left c right ↔ HasPartner front c back := by
  rcases eq_of_isBracket bracket with rfl | rfl
  · rw [hasPartner_opening_iff, hasPartner_opening_iff, after.unmatched_eq.1]
  · rw [hasPartner_closing_iff, hasPartner_closing_iff, before.unmatched_eq.2]

end Abridges

namespace Bracket

variable {text : Text}

/-! ## Cancelling pairs -/

/-- The brackets that are left when all pairs are cancelled. -/
def leftover : Text → Text
  | [] => []
  | c :: rest =>
    if c = '(' then
      match leftover rest with
      | ')' :: others => others
      | others => '(' :: others
    else if c = ')' then ')' :: leftover rest
    else leftover rest

/-- Closing brackets are left first, then opening ones. -/
theorem leftover_eq_replicate (text : Text) :
    leftover text = List.replicate (unopened text) ')' ++ List.replicate (unclosed text) '(' := by
  induction text with
  | nil => rfl
  | cons c rest ih =>
    by_cases opens : c = '('
    · subst opens
      cases none : unopened rest with
      | zero =>
        rw [none] at ih
        cases more : unclosed rest with
        | zero => simp [leftover, unopened, unclosed, ih, none, more]
        | succ number =>
          simp [leftover, unopened, unclosed, ih, none, more, List.replicate_succ]
      | succ number => simp [leftover, unopened, unclosed, ih, none, List.replicate_succ]
    · by_cases closes : c = ')'
      · simp [leftover, unopened, unclosed, closes, ih, List.replicate_succ]
      · simp [leftover, unopened, unclosed, opens, closes, ih]

/-- Texts that leave as many brackets of each kind leave the same brackets. -/
theorem leftover_congr {other : Text} (opened : unopened text = unopened other)
    (closed : unclosed text = unclosed other) : leftover text = leftover other := by
  rw [leftover_eq_replicate, leftover_eq_replicate, opened, closed]

/-- A pair with no brackets between can be cancelled. -/
theorem leftover_cancel {front inner back : Text} (free : ∀ c ∈ inner, isBracket c = false) :
    leftover (front ++ ('(' :: inner ++ [')']) ++ back) = leftover (front ++ inner ++ back) := by
  have pair := balanced_iff.mp (isGroup_of_free free).balanced
  have none := balanced_iff.mp (balanced_of_free free)
  apply leftover_congr
  · simp only [unopened_append, pair, none, unclosed_append]
  · simp only [unclosed_append, pair, none]

/-- Of a text without a closing bracket after an opening one all brackets are left. -/
theorem Parted.leftover_eq_filter (parted : Parted text) :
    leftover text = text.filter isBracket := by
  induction text with
  | nil => rfl
  | cons c rest ih =>
    have same := ih (parted.part (List.suffix_cons c rest).isInfix)
    by_cases opens : c = '('
    · subst opens
      have none := unopened_eq_zero_of_not_mem (parted [] rest rfl)
      have kept : isBracket '(' = true := rfl
      rw [List.filter_cons_of_pos kept, ← same]
      simp only [leftover_eq_replicate, unopened, unclosed, none]
      rfl
    · by_cases closes : c = ')'
      · simp [leftover, closes, isBracket, same]
      · simp [leftover, opens, closes, isBracket, same]

/-! ## Nesting -/

/-- Text without brackets has no part in nesting. -/
theorem nestingFrom_free_append {front rest : Text} (free : ∀ c ∈ front, isBracket c = false)
    (depth : Nat) : nestingFrom depth (front ++ rest) = nestingFrom depth rest := by
  induction front with
  | nil => rfl
  | cons c front ih =>
    have other : c ≠ '(' ∧ c ≠ ')' := by simpa [isBracket] using free c (by simp)
    simp only [List.cons_append, nestingFrom, other.1, other.2, ↓reduceIte]
    exact ih fun d mem => free d (by simp [mem])

/-- Text without brackets at the end has no part in nesting. -/
theorem nestingFrom_append_free {text back : Text} (free : ∀ c ∈ back, isBracket c = false)
    (depth : Nat) : nestingFrom depth (text ++ back) = nestingFrom depth text := by
  induction text generalizing depth with
  | nil =>
    have same : nestingFrom depth (back ++ []) = nestingFrom depth [] :=
      nestingFrom_free_append free depth
    simpa using same
  | cons c text ih => simp only [List.cons_append, nestingFrom, ih]

/-- Blanks around a text nest no brackets. -/
theorem nesting_trim (text : Text) : nesting text.trim = nesting text := by
  obtain ⟨front, back, split, before, after⟩ := text.exists_eq_trim
  have front_free : ∀ c ∈ front, isBracket c = false :=
    fun c mem => isBracket_of_isBlank (before c mem)
  have back_free : ∀ c ∈ back, isBracket c = false :=
    fun c mem => isBracket_of_isBlank (after c mem)
  have whole : nesting text = nestingFrom 0 (front ++ text.trim ++ back) := congrArg nesting split
  rw [whole, nestingFrom_append_free back_free, nestingFrom_free_append front_free, nesting]

/-- Brackets nest no deeper than there are opening ones. -/
theorem nestingFrom_le_count (text : Text) (depth : Nat) :
    nestingFrom depth text ≤ depth + text.count '(' := by
  induction text generalizing depth with
  | nil => exact Nat.zero_le _
  | cons c rest ih =>
    have inside := ih (depth + 1)
    have outside := ih (depth - 1)
    have beside := ih depth
    simp only [nestingFrom, List.count_cons]
    by_cases opens : c = '('
    · simp only [opens, ↓reduceIte, beq_self_eq_true]
      omega
    · simp only [opens, ↓reduceIte]
      split <;> omega

/-- A text nests no deeper than it opens brackets. -/
theorem nesting_le_count (text : Text) : nesting text ≤ text.count '(' := by
  have deepest := nestingFrom_le_count text 0
  rwa [Nat.zero_add] at deepest

/-! ## Nested pairs -/

/-- The deepest nesting of bracket pairs in what is left of a text, inside so many pairs. Brackets
without a partner do not count. -/
def pairNestingFrom : (depth : Nat) → Text → Nat
  | _, [] => 0
  | depth, c :: rest =>
    if c = '(' ∧ unopened rest ≠ 0 then max (depth + 1) (pairNestingFrom (depth + 1) rest)
    else if c = ')' then pairNestingFrom (depth - 1) rest
    else pairNestingFrom depth rest

/-- The deepest nesting of bracket pairs. -/
def pairNesting (text : Text) : Nat := pairNestingFrom 0 text

/-- Pairs nest no deeper than brackets. -/
theorem pairNestingFrom_le_nestingFrom (text : Text) {depth deeper : Nat} (less : depth ≤ deeper) :
    pairNestingFrom depth text ≤ nestingFrom deeper text := by
  induction text generalizing depth deeper with
  | nil => exact Nat.zero_le _
  | cons c rest ih =>
    have inside := ih (Nat.add_le_add_right less 1)
    have beside := ih (Nat.le_add_right_of_le (k := 1) less)
    have outside := ih (Nat.sub_le_sub_right less 1)
    have same := ih less
    simp only [pairNestingFrom, nestingFrom]
    by_cases opens : c = '('
    · simp only [opens, true_and, ↓reduceIte, Char.reduceEq]
      split <;> omega
    · simp only [opens, false_and, ↓reduceIte]
      split <;> assumption

/-- A text nests pairs no deeper than it opens brackets. -/
theorem pairNesting_le_count (text : Text) : pairNesting text ≤ text.count '(' := by
  have pairs := pairNestingFrom_le_nestingFrom text (Nat.le_refl 0)
  exact Nat.le_trans pairs (nesting_le_count text)

/-- Text without brackets has no part in the nesting of pairs. -/
theorem pairNestingFrom_free_append {front rest : Text}
    (free : ∀ c ∈ front, isBracket c = false) (depth : Nat) :
    pairNestingFrom depth (front ++ rest) = pairNestingFrom depth rest := by
  induction front with
  | nil => rfl
  | cons c front ih =>
    have other : c ≠ '(' ∧ c ≠ ')' := by simpa [isBracket] using free c (by simp)
    simp only [List.cons_append, pairNestingFrom, other.1, other.2, false_and, ↓reduceIte]
    exact ih fun d mem => free d (by simp [mem])

/-- An innermost group is one level of nesting. -/
theorem pairNestingFrom_group {inner rest : Text} (free : ∀ c ∈ inner, isBracket c = false)
    (depth : Nat) : pairNestingFrom depth ('(' :: inner ++ ')' :: rest) =
      max (depth + 1) (pairNestingFrom depth rest) := by
  have closed : unopened (inner ++ ')' :: rest) ≠ 0 := by
    rw [(balanced_of_free free).unopened_append]
    exact Nat.succ_ne_zero _
  rw [List.cons_append, pairNestingFrom, if_pos ⟨rfl, closed⟩, pairNestingFrom_free_append free]
  simp [pairNestingFrom]

/-- Where an opening bracket has a partner but begins no innermost group, pairs nest deeper. -/
theorem lt_pairNestingFrom_of_refused {rest : Text} (refused : group? ('(' :: rest) = none)
    (closed : unopened rest ≠ 0) (depth : Nat) : depth < pairNestingFrom depth rest := by
  rcases exists_first_bracket rest with free | ⟨front, c, back, rfl, free, rfl | rfl⟩
  · exact absurd (balanced_iff.mp (balanced_of_free free)).1 closed
  · have one : unopened ('(' :: back) = unopened back - 1 := rfl
    rw [(balanced_of_free free).unopened_append] at closed
    have more : unopened back ≠ 0 := by omega
    rw [pairNestingFrom_free_append free, pairNestingFrom, if_pos ⟨rfl, more⟩]
    omega
  · rw [group?_of_free free] at refused
    contradiction

/-- Where an innermost group is found, pairs nest. -/
theorem pairNestingFrom_pos {cut : Text.Cut Text} (cuts : Text.IsCut group? text cut)
    (filled : cut.finds ≠ []) (depth : Nat) : 0 < pairNestingFrom depth text := by
  induction cuts generalizing depth with
  | nil => contradiction
  | skip refused further ih =>
    rw [pairNestingFrom]
    split
    · omega
    · split
      · exact ih filled (depth - 1)
      · exact ih filled depth
  | find accepted further ih =>
    obtain ⟨rfl, free⟩ := group?_eq_some_iff.mp accepted
    rw [pairNestingFrom_group free]
    omega

/-- Capturing all innermost groups takes one level of nested pairs away. -/
theorem pairNestingFrom_of_capture {cut : Text.Cut Text} (cuts : Text.IsCut group? text cut)
    {store next : ClauseStore} {marked : Text} (depth : Nat)
    (success : store.capture cut.finds = .ok (marked, next)) :
    pairNestingFrom depth (cut.lead ++ marked) ≤ pairNestingFrom depth text - 1 := by
  induction cuts generalizing store marked depth with
  | nil =>
    obtain ⟨rfl, -⟩ := Prod.mk.inj (Except.ok.inj success)
    exact Nat.zero_le _
  | @skip c text cut refused further ih =>
    have same := (ClauseStore.hides_of_capture further success).1.unmatched_eq.1
    simp only [List.cons_append, pairNestingFrom, ← same]
    split
    · rename_i paired
      obtain ⟨rfl, closed⟩ := paired
      have deeper := lt_pairNestingFrom_of_refused refused closed (depth + 1)
      have less := ih (depth + 1) success
      omega
    · split
      · exact ih (depth - 1) success
      · exact ih depth success
  | @find text rest inner cut accepted further ih =>
    obtain ⟨rfl, free⟩ := group?_eq_some_iff.mp accepted
    unfold ClauseStore.capture at success
    obtain ⟨clause, expanded, success⟩ := bind_eq_ok.mp success
    obtain ⟨⟨marker, middle⟩, pushed, success⟩ := bind_eq_ok.mp success
    obtain ⟨⟨others, last⟩, captured, same⟩ := bind_eq_ok.mp success
    obtain ⟨rfl, rfl⟩ := Prod.mk.inj (Except.ok.inj same)
    obtain ⟨rfl, -⟩ := ClauseStore.eq_of_push pushed
    have less := ih depth captured
    have number := Marker.isNumber_decimal store.clauses.size
    rw [pairNestingFrom_group free, List.nil_append, List.append_assoc, Marker.render,
      pairNestingFrom_free_append fun c => Marker.isBracket_of_mem number]
    omega

end Bracket

end AccessRules
