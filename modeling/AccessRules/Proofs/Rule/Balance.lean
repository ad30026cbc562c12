import AccessRules.Proofs.Text.Search
import AccessRules.Rule.Bracket
import Mathlib.Data.List.Basic
import Mathlib.Data.List.Induction

/-!
# Balanced brackets

A text leaves some closing brackets without an opening one before them and some opening brackets
without a closing one after them. Both numbers follow from those of its parts, and a text is
balanced exactly if both are zero.
-/
namespace AccessRules.Bracket

/-- The closing brackets that no opening bracket before them matches. -/
def unopened : Text → Nat
  | [] => 0
  | c :: rest =>
    if c = '(' then unopened rest - 1 else if c = ')' then unopened rest + 1 else unopened rest

/-- The opening brackets that no closing bracket after them matches. -/
def unclosed : Text → Nat
  | [] => 0
  | c :: rest => if c = '(' ∧ unopened rest = 0 then unclosed rest + 1 else unclosed rest

/-- No prefix closes more brackets than it opens, and the whole text closes all it opens. -/
structure Balanced (text : Text) : Prop where
  /-- No closing bracket comes too early. -/
  opened : ∀ front, front <+: text → front.count ')' ≤ front.count '('
  /-- No opening bracket is left. -/
  closed : text.count '(' = text.count ')'

/-! ## Brackets without a partner -/

@[simp] theorem unopened_nil : unopened [] = 0 := rfl

@[simp] theorem unclosed_nil : unclosed [] = 0 := rfl

/-- A closing bracket is matched by an opening one that the text before it leaves. -/
theorem unopened_append (left right : Text) :
    unopened (left ++ right) = unopened left + (unopened right - unclosed left) := by
  induction left with
  | nil => simp
  | cons c left ih =>
    simp only [List.cons_append, unopened, unclosed, ih]
    by_cases opens : c = '('
    · simp only [opens, ↓reduceIte, true_and]
      split <;> omega
    · simp only [opens, ↓reduceIte, false_and]
      split <;> omega

/-- An opening bracket is matched by a closing one that the text after it leaves. -/
theorem unclosed_append (left right : Text) :
    unclosed (left ++ right) = unclosed right + (unclosed left - unopened right) := by
  induction left with
  | nil => simp
  | cons c left ih =>
    simp only [List.cons_append, unclosed, unopened_append, ih]
    by_cases opens : c = '('
    · simp only [opens, true_and]
      split <;> split <;> omega
    · simp [opens]

/-- More text after it opens no closing bracket. -/
theorem unopened_le_append (left right : Text) : unopened left ≤ unopened (left ++ right) := by
  rw [unopened_append]
  omega

/-- More text before it closes no opening bracket. -/
theorem unclosed_le_append (left right : Text) : unclosed right ≤ unclosed (left ++ right) := by
  rw [unclosed_append]
  omega

/-- Each bracket has a partner or is counted as being without one. -/
theorem count_add_unclosed (text : Text) :
    text.count ')' + unclosed text = text.count '(' + unopened text := by
  induction text with
  | nil => rfl
  | cons c text ih =>
    simp only [List.count_cons, unclosed, unopened]
    by_cases opens : c = '('
    · simp only [opens]
      by_cases none : unopened text = 0 <;> simp [none] <;> omega
    · by_cases closes : c = ')'
      · simp [closes]; omega
      · simp [opens, closes]; omega

/-- Without closing brackets none is unopened. -/
theorem unopened_eq_zero_of_not_mem {text : Text} (free : ')' ∉ text) : unopened text = 0 := by
  induction text with
  | nil => rfl
  | cons c text ih =>
    simp only [List.mem_cons, not_or] at free
    have none := ih free.2
    unfold unopened
    split
    · omega
    · rw [if_neg (Ne.symm free.1)]
      exact none

/-- Without opening brackets none is unclosed. -/
theorem unclosed_eq_zero_of_not_mem {text : Text} (free : '(' ∉ text) : unclosed text = 0 := by
  induction text with
  | nil => rfl
  | cons c text ih =>
    simp only [List.mem_cons, not_or] at free
    have other : ¬(c = '(' ∧ unopened text = 0) := fun opens => free.1 opens.1.symm
    rw [unclosed, if_neg other]
    exact ih free.2

/-- No prefix closes too much exactly if no closing bracket is unopened. -/
theorem unopened_eq_zero_iff {text : Text} :
    unopened text = 0 ↔ ∀ front, front <+: text → front.count ')' ≤ front.count '(' := by
  constructor
  · rintro none front ⟨back, rfl⟩
    rw [unopened_append] at none
    have counts := count_add_unclosed front
    omega
  · intro opened
    induction text using List.reverseRecOn with
    | nil => rfl
    | append_singleton text c ih =>
      have none := ih fun front start => opened front (start.trans (List.prefix_append _ _))
      have whole := opened _ (List.prefix_refl _)
      have counts := count_add_unclosed text
      rw [unopened_append, none]
      by_cases opens : c = '('
      · simp [opens, unopened]
      · by_cases closes : c = ')'
        · simp [closes, List.count_append, unopened] at whole ⊢
          omega
        · simp [opens, closes, unopened]

/-- A text is balanced exactly if every bracket has a partner. -/
theorem balanced_iff {text : Text} : Balanced text ↔ unopened text = 0 ∧ unclosed text = 0 := by
  have counts := count_add_unclosed text
  constructor
  · intro balanced
    have none := unopened_eq_zero_iff.mpr balanced.opened
    have closed := balanced.closed
    omega
  · rintro ⟨none, all⟩
    exact ⟨unopened_eq_zero_iff.mp none, by omega⟩

/-- A text with neither kind of bracket has none. -/
theorem free_of_not_mem {text : Text} (opens : '(' ∉ text) (closes : ')' ∉ text) :
    ∀ c ∈ text, isBracket c = false := by
  intro c mem
  have first : c ≠ '(' := fun same => opens (same ▸ mem)
  have second : c ≠ ')' := fun same => closes (same ▸ mem)
  simp [isBracket, first, second]

/-- There are two kinds of brackets. -/
theorem eq_of_isBracket {c : Char} (bracket : isBracket c = true) : c = '(' ∨ c = ')' := by
  simpa [isBracket] using bracket

/-- A text has no brackets or a first one. -/
theorem exists_first_bracket (text : Text) :
    (∀ c ∈ text, isBracket c = false) ∨ ∃ front c back, text = front ++ c :: back ∧
      (∀ d ∈ front, isBracket d = false) ∧ (c = '(' ∨ c = ')') := by
  induction text with
  | nil => exact .inl (by simp)
  | cons c text ih =>
    cases bracket : isBracket c with
    | true => exact .inr ⟨[], c, text, rfl, by simp, eq_of_isBracket bracket⟩
    | false =>
      rcases ih with free | ⟨front, d, back, rfl, free, kind⟩
      · exact .inl (List.forall_mem_cons.mpr ⟨bracket, free⟩)
      · exact .inr ⟨c :: front, d, back, rfl, List.forall_mem_cons.mpr ⟨bracket, free⟩, kind⟩

/-- A text without brackets has neither kind. -/
theorem not_mem_of_free {text : Text} (free : ∀ c ∈ text, isBracket c = false) :
    '(' ∉ text ∧ ')' ∉ text :=
  ⟨fun mem => absurd (free _ mem) (by decide), fun mem => absurd (free _ mem) (by decide)⟩

/-- A text without brackets is balanced. -/
theorem balanced_of_free {text : Text} (free : ∀ c ∈ text, isBracket c = false) :
    Balanced text := by
  obtain ⟨opens, closes⟩ := not_mem_of_free free
  exact balanced_iff.mpr
    ⟨unopened_eq_zero_of_not_mem closes, unclosed_eq_zero_of_not_mem opens⟩

/-- Balanced texts in a row are balanced. -/
theorem Balanced.append {left right : Text} (first : Balanced left) (second : Balanced right) :
    Balanced (left ++ right) := by
  rw [balanced_iff] at first second ⊢
  rw [Bracket.unopened_append, Bracket.unclosed_append]
  omega

/-- A balanced text leaves the brackets after it as they are. -/
theorem Balanced.unopened_append {left : Text} (balanced : Balanced left) (right : Text) :
    unopened (left ++ right) = unopened right := by
  rw [balanced_iff] at balanced
  rw [Bracket.unopened_append]
  omega

/-- A balanced text closes no bracket after it. -/
theorem Balanced.unclosed_append {left : Text} (balanced : Balanced left) (right : Text) :
    unclosed (left ++ right) = unclosed right := by
  rw [balanced_iff] at balanced
  rw [Bracket.unclosed_append]
  omega

/-- Text without brackets on both sides leaves the brackets between as they are. -/
theorem unmatched_surround {front text back : Text} (before : ∀ c ∈ front, isBracket c = false)
    (after : ∀ c ∈ back, isBracket c = false) :
    unopened (front ++ text ++ back) = unopened text ∧
      unclosed (front ++ text ++ back) = unclosed text := by
  have frontFree := balanced_iff.mp (balanced_of_free before)
  have backFree := balanced_iff.mp (balanced_of_free after)
  simp only [unopened_append, unclosed_append]
  omega

/-- Before the first closing bracket that is unopened stands a balanced text. -/
theorem exists_first_unopened {text : Text} (some : unopened text ≠ 0) :
    ∃ before after, text = before ++ ')' :: after ∧ Balanced before := by
  induction text using List.reverseRecOn with
  | nil => contradiction
  | append_singleton text c ih =>
    by_cases early : unopened text = 0
    · rw [Bracket.unopened_append, early] at some
      have last : unopened [c] ≠ 0 := by omega
      obtain rfl : c = ')' := by
        by_contra other
        exact last (unopened_eq_zero_of_not_mem (by simpa using Ne.symm other))
      have one : unopened [')'] = 1 := rfl
      exact ⟨text, [], rfl, balanced_iff.mpr ⟨early, by omega⟩⟩
    · obtain ⟨before, after, rfl, balanced⟩ := ih early
      exact ⟨before, after ++ [c], by simp, balanced⟩

/-- After the last opening bracket that is unclosed stands a balanced text. -/
theorem exists_last_unclosed {text : Text} (some : unclosed text ≠ 0) :
    ∃ before after, text = before ++ '(' :: after ∧ Balanced after := by
  induction text with
  | nil => contradiction
  | cons c text ih =>
    by_cases late : unclosed text = 0
    · by_cases here : c = '(' ∧ unopened text = 0
      · exact ⟨[], text, by rw [here.1]; rfl, balanced_iff.mpr ⟨here.2, late⟩⟩
      · rw [unclosed, if_neg here] at some
        exact absurd late some
    · obtain ⟨before, after, rfl, balanced⟩ := ih late
      exact ⟨c :: before, after, rfl, balanced⟩

/-! ## Bracket groups -/

/-- A pair of brackets around a balanced text. -/
def IsGroup (body : Text) : Prop := ∃ inner, body = '(' :: inner ++ [')'] ∧ Balanced inner

/-- Brackets around a balanced text are balanced. -/
theorem IsGroup.balanced {body : Text} (group : IsGroup body) : Balanced body := by
  obtain ⟨inner, rfl, balanced⟩ := group
  rw [balanced_iff] at balanced ⊢
  simp [unopened, unclosed, unopened_append, unclosed_append, balanced]

/-- A group begins with an opening bracket. -/
theorem IsGroup.head? {body : Text} (group : IsGroup body) : body.head? = some '(' := by
  obtain ⟨inner, rfl, -⟩ := group
  rfl

/-- A group that is cut in two is open at the cut, on both sides. -/
theorem IsGroup.open_of_append {left right : Text} (group : IsGroup (left ++ right))
    (begun : left ≠ []) (unfinished : right ≠ []) : unclosed left ≠ 0 ∧ unopened right ≠ 0 := by
  obtain ⟨inner, same, balanced⟩ := group
  rw [balanced_iff] at balanced
  cases left with
  | nil => contradiction
  | cons c left =>
    simp only [List.cons_append, List.cons.injEq] at same
    obtain ⟨rfl, rest⟩ := same
    obtain ⟨front, rfl⟩ : ∃ front, right = front ++ [')'] := by
      rw [← List.getLast?_eq_some_iff, ← List.getLast?_append_of_ne_nil left unfinished, rest]
      simp
    have whole : left ++ front = inner := by
      rw [← List.append_assoc] at rest
      exact List.append_cancel_right rest
    rw [← whole, unopened_append, unclosed_append] at balanced
    rw [unopened_append]
    simp only [unclosed, unopened]
    constructor
    · simp only [true_and]
      split <;> omega
    · simp only [↓reduceIte, Char.reduceEq]
      omega

/-! ## Innermost groups -/

/-- An innermost group is a pair of brackets around a text without any. -/
theorem group?_eq_some_iff {text inner rest : Text} :
    group? text = some (inner, rest) ↔
      text = '(' :: inner ++ ')' :: rest ∧ ∀ c ∈ inner, isBracket c = false := by
  constructor
  · intro found
    unfold group? at found
    split at found
    · rename_i text
      split at found
      · rename_i after closing
        simp only [Option.some.injEq, Prod.mk.injEq] at found
        obtain ⟨rfl, rfl⟩ := found
        refine ⟨?_, fun c mem => by simpa using List.mem_takeWhile_imp mem⟩
        rw [List.cons_append, ← closing, List.takeWhile_append_dropWhile]
      · contradiction
    · contradiction
  · rintro ⟨rfl, free⟩
    have inside : ∀ c ∈ inner, (!isBracket c) = true := fun c mem => by simp [free c mem]
    have closes : (!isBracket ')') = false := rfl
    simp [group?, List.dropWhile_append_of_pos inside, List.takeWhile_append_of_pos inside, closes]

/-- An innermost group is found where it is written. -/
theorem group?_of_free {inner : Text} (free : ∀ c ∈ inner, isBracket c = false) (rest : Text) :
    group? ('(' :: (inner ++ ')' :: rest)) = some (inner, rest) :=
  group?_eq_some_iff.mpr ⟨rfl, free⟩

/-- An innermost group takes at least its brackets. -/
theorem shortens_group? : Text.Shortens group? := by
  intro text inner rest found
  obtain ⟨rfl, -⟩ := group?_eq_some_iff.mp found
  simp only [List.cons_append, List.length_cons, List.length_append]
  omega

/-- An innermost group is a group. -/
theorem isGroup_of_free {inner : Text} (free : ∀ c ∈ inner, isBracket c = false) :
    IsGroup ('(' :: inner ++ [')']) :=
  ⟨inner, rfl, balanced_of_free free⟩

/-- No closing bracket stands after an opening one. -/
def Parted (text : Text) : Prop := ∀ before after, text = before ++ '(' :: after → ')' ∉ after

/-- Parts of a parted text are parted. -/
theorem Parted.part {text part : Text} (parted : Parted text) (inside : part <:+: text) :
    Parted part := by
  obtain ⟨front, back, rfl⟩ := inside
  rintro before after rfl mem
  exact parted (front ++ before) (after ++ back) (by simp) (List.mem_append_left back mem)

/-- A text without innermost groups is parted. -/
theorem parted_of_no_group {text : Text}
    (none : ∀ front back, text = front ++ back → group? back = .none) : Parted text := by
  induction text with
  | nil => simp [Parted]
  | cons c text ih =>
    have parted := ih fun front back same => none (c :: front) back (by simp [same])
    intro before after same
    cases before with
    | cons d before => exact parted before after (List.cons.inj same).2
    | nil =>
      obtain ⟨rfl, rfl⟩ := List.cons.inj same
      intro mem
      -- The next bracket is no closing one, which would end a group, and after an opening one
      -- there is no closing one.
      rcases exists_first_bracket text with free | ⟨front, c, back, rfl, free, rfl | rfl⟩
      · exact absurd (free _ mem) (by decide)
      · simp only [List.mem_append, List.mem_cons, Char.reduceEq, false_or] at mem
        rcases mem with inside | late
        · exact absurd (free _ inside) (by decide)
        · exact parted front back rfl late
      · have unfinished := none [] _ rfl
        rw [group?_of_free free] at unfinished
        contradiction

end AccessRules.Bracket
