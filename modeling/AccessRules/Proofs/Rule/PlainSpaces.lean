import AccessRules.Proofs.Rule.Balance
import AccessRules.Proofs.Text.Respacing
import AccessRules.Rule.Reader

/-!
# Plain spaces

Before a rule is read, its tabs and line ends become spaces. Brackets and letters stay as they
are, and blanks stay blanks.
-/
namespace AccessRules

open AccessRules.Bracket

/-- A tab or line end is read as a space. -/
def plainSpace (c : Char) : Char := if c = '\t' ∨ c = '\n' ∨ c = '\r' then ' ' else c

/-- Tabs and line ends are read as spaces one by one. -/
theorem plainSpaces_eq_map (text : Text) : Reader.plainSpaces text = text.map plainSpace := rfl

/-- What is read in the place of a character is the character itself or a space for a blank. -/
theorem plainSpace_cases (c : Char) :
    plainSpace c = c ∨ plainSpace c = ' ' ∧ Text.isBlank c = true ∧ c ≠ '(' ∧ c ≠ ')' := by
  unfold plainSpace
  split
  · rename_i blank
    right
    rcases blank with rfl | rfl | rfl <;> decide
  · exact .inl rfl

/-- The character is no tab and no line end. -/
def IsPlain (c : Char) : Prop := c ≠ '\t' ∧ c ≠ '\n' ∧ c ≠ '\r'

/-- Whether a character is plain is decided by comparing it. -/
instance : DecidablePred IsPlain := fun c =>
  inferInstanceAs (Decidable (c ≠ '\t' ∧ c ≠ '\n' ∧ c ≠ '\r'))

/-- Exactly plain characters are read as themselves. -/
theorem plainSpace_eq_self_iff {c : Char} : plainSpace c = c ↔ IsPlain c := by
  unfold plainSpace IsPlain
  constructor
  · intro same
    refine ⟨?_, ?_, ?_⟩ <;> rintro rfl <;> exact absurd same (by decide)
  · rintro ⟨tab, line, carriage⟩
    rw [if_neg (by simp [tab, line, carriage])]

/-- What is read in the place of a character is plain. -/
theorem isPlain_plainSpace (c : Char) : IsPlain (plainSpace c) := by
  rcases plainSpace_cases c with same | ⟨space, -⟩
  · rw [same]
    exact plainSpace_eq_self_iff.mp same
  · rw [space]
    exact ⟨by decide, by decide, by decide⟩

/-- Exactly the texts without tabs and line ends are read as they are. -/
theorem map_plainSpace_eq_self_iff {text : Text} :
    text.map plainSpace = text ↔ ∀ c ∈ text, IsPlain c := by
  simp only [← plainSpace_eq_self_iff]
  conv_lhs => rhs; rw [← List.map_id text]
  exact List.map_inj_left

/-- Reading tabs and line ends as spaces is a respacing. -/
theorem isRespacing_plainSpace : IsRespacing plainSpace := fun c =>
  (plainSpace_cases c).imp_right fun same => ⟨same.1, same.2.1⟩

/-- What is read as a space is one, or a tab or line end, and a respacing leaves them that. -/
theorem IsRespacing.plainSpace_comm {respace : Char → Char} (respacing : IsRespacing respace)
    (c : Char) : plainSpace (respace c) = respace (plainSpace c) := by
  have space : respace ' ' = ' ' := by
    rcases respacing ' ' with same | ⟨same, -⟩ <;> exact same
  rcases plainSpace_cases c with plain | ⟨plain, -⟩ <;> rw [plain]
  · rcases respacing c with same | ⟨same, -⟩ <;> rw [same]
    · exact plain
    · decide
  · rcases respacing c with same | ⟨same, -⟩ <;> rw [same, space]
    · exact plain
    · decide

/-- Brackets are read as themselves, and nothing else is read as one. -/
theorem plainSpace_eq_bracket {c bracket : Char} (kind : isBracket bracket = true) :
    plainSpace c = bracket ↔ c = bracket := by
  simp only [isBracket, Bool.or_eq_true, decide_eq_true_eq] at kind
  rcases kind with rfl | rfl
  · exact isRespacing_plainSpace.eq_iff (by decide)
  · exact isRespacing_plainSpace.eq_iff (by decide)

/-- Blanks are read as blanks, and nothing else is. -/
theorem isBlank_plainSpace (c : Char) : Text.isBlank (plainSpace c) = Text.isBlank c :=
  isRespacing_plainSpace.isBlank c

/-- What is not read as a space is read as itself. -/
theorem plainSpace_of_ne {c : Char} (other : plainSpace c ≠ ' ') : plainSpace c = c := by
  rcases plainSpace_cases c with same | ⟨space, -⟩
  · exact same
  · exact absurd space other

/-- Letters are read as themselves. -/
theorem plainSpace_of_isAlpha {c : Char} (alpha : (plainSpace c).isAlpha = true) :
    plainSpace c = c := by
  refine plainSpace_of_ne fun space => ?_
  rw [space] at alpha
  exact absurd alpha (by decide)

/-- What is read in the place of a character has as many bytes. -/
theorem utf8Size_plainSpace (c : Char) : (plainSpace c).utf8Size = c.utf8Size := by
  unfold plainSpace
  split
  · rename_i blank
    rcases blank with rfl | rfl | rfl <;> rfl
  · rfl

/-- What is read in the place of a text has as many bytes. -/
theorem byteLength_map_plainSpace (text : Text) :
    Text.byteLength (text.map plainSpace) = text.byteLength := by
  induction text with
  | nil => rfl
  | cons c text ih =>
    rw [List.map_cons, Text.byteLength_cons, Text.byteLength_cons, utf8Size_plainSpace, ih]

/-- Brackets have the same partners when tabs and line ends are read as spaces. -/
theorem unmatched_map_plainSpace (text : Text) :
    unopened (text.map plainSpace) = unopened text ∧
      unclosed (text.map plainSpace) = unclosed text := by
  induction text with
  | nil => exact ⟨rfl, rfl⟩
  | cons c text ih =>
    have opens : plainSpace c = '(' ↔ c = '(' := plainSpace_eq_bracket rfl
    have closes : plainSpace c = ')' ↔ c = ')' := plainSpace_eq_bracket rfl
    simp only [List.map_cons, unopened, unclosed, opens, closes, ih, and_self]

/-- A text is balanced exactly if what is read in its place is. -/
theorem balanced_map_plainSpace {text : Text} :
    Balanced (text.map plainSpace) ↔ Balanced text := by
  rw [balanced_iff, balanced_iff, (unmatched_map_plainSpace text).1,
    (unmatched_map_plainSpace text).2]

/-- Brackets nest as deep as before. -/
theorem IsRespacing.nestingFrom_map {respace : Char → Char} (respacing : IsRespacing respace)
    (depth : Nat) (text : Text) :
    nestingFrom depth (text.map respace) = nestingFrom depth text := by
  induction text generalizing depth with
  | nil => rfl
  | cons c text ih =>
    have opens : respace c = '(' ↔ c = '(' := respacing.eq_iff (by decide)
    have closes : respace c = ')' ↔ c = ')' := respacing.eq_iff (by decide)
    simp only [List.map_cons, nestingFrom, opens, closes, ih]

/-- Brackets nest as deep when tabs and line ends are read as spaces. -/
theorem nestingFrom_map_plainSpace (depth : Nat) (text : Text) :
    nestingFrom depth (text.map plainSpace) = nestingFrom depth text :=
  isRespacing_plainSpace.nestingFrom_map depth text

/-- Trimming and reading tabs and line ends as spaces can be exchanged. -/
theorem trim_map_plainSpace (text : Text) :
    Text.trim (text.map plainSpace) = text.trim.map plainSpace :=
  isRespacing_plainSpace.trim_map text

/-- Only a word of letters is read as itself. -/
theorem eq_of_map_plainSpace {text word : Text} (letters : ∀ c ∈ word, c.isAlpha = true)
    (same : text.map plainSpace = word) : text = word := by
  have kept : ∀ c ∈ text, plainSpace c = id c := fun c mem =>
    plainSpace_of_isAlpha (letters _ (same ▸ List.mem_map_of_mem mem))
  rw [← same, List.map_congr_left kept, List.map_id]

/-- Only a text in brackets is read as one. -/
theorem bracketed_of_map_plainSpace {text inside : Text}
    (same : text.map plainSpace = '(' :: inside ++ [')']) :
    ∃ inner, text = '(' :: inner ++ [')'] ∧ inner.map plainSpace = inside := by
  obtain ⟨front, last, rfl, begun, ended⟩ := List.map_eq_append_iff.mp same
  obtain ⟨c, inner, rfl, opens, rfl⟩ := List.map_eq_cons_iff.mp begun
  obtain ⟨d, none, rfl, closes, empty⟩ := List.map_eq_cons_iff.mp ended
  obtain rfl := (plainSpace_eq_bracket rfl).mp opens
  obtain rfl := (plainSpace_eq_bracket rfl).mp closes
  obtain rfl := List.map_eq_nil_iff.mp empty
  exact ⟨inner, rfl, rfl⟩

end AccessRules
