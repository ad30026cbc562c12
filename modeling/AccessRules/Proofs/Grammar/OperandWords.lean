import AccessRules.Proofs.Grammar.Derivation
import AccessRules.Proofs.Rule.OperandSplit

/-!
# Words of operands

A reader that keeps every token as a leaf loses no operand: the words of an accepted rule, without
its brackets and keywords, are those of the leaves of its tree from left to right. So no group is
used twice, in the place of another one or not at all, whatever numbers the markers had.
-/
namespace AccessRules

open AccessRules.Bracket

/-- A bracket separates words like a space. -/
def bracketSpace (c : Char) : Char := if isBracket c then ' ' else c

/-- The word is a keyword or a literal, in any case. -/
def isReservedWord (word : Text) : Bool :=
  ["or", "and", "not", "true", "false"].any fun reserved => Text.sameWord word reserved.toList

/-- The words of a text, with brackets as spaces and without keywords and literals. -/
def operandWords (text : Text) : List Text :=
  (Text.words (text.map bracketSpace)).filter fun word => !isReservedWord word

/-! ## Reserved words -/

/-- Whether a word is reserved does not depend on the case of its letters. -/
theorem isReservedWord_congr {left right : Text} (same : left.lower = right.lower) :
    isReservedWord left = isReservedWord right := by
  simp only [isReservedWord, Text.sameWord, same]

/-- Reserved words consist of letters. -/
theorem isAlpha_of_isReservedWord {word : Text} (reserved : isReservedWord word = true) :
    ∀ c ∈ word, c.isAlpha = true := by
  have letters : ∀ known ∈ ["or", "and", "not", "true", "false"],
      ∀ c ∈ Text.lower (String.toList known), c.isLower = true := by
    simp only [← List.all_eq_true]
    decide
  obtain ⟨known, mem, same⟩ := List.any_eq_true.mp reserved
  exact fun c => Text.isAlpha_of_lower_eq (beq_iff_eq.mp same) (letters known mem)

/-- Reserved words have letters. -/
theorem filled_of_isReservedWord {word : Text} (reserved : isReservedWord word = true) :
    word ≠ [] := by
  rintro rfl
  exact absurd reserved (by decide)

/-! ## Brackets as spaces -/

/-- Brackets and blanks are read as blanks. -/
theorem isBlank_bracketSpace {c : Char} (kind : isBracket c = true ∨ Text.isBlank c = true) :
    Text.isBlank (bracketSpace c) = true := by
  unfold bracketSpace
  split
  · decide
  · rename_i other
    exact kind.resolve_left other

/-- Text without brackets is read as it is. -/
theorem map_bracketSpace_of_free {text : Text} (free : ∀ c ∈ text, isBracket c = false) :
    text.map bracketSpace = text := by
  have same : ∀ c ∈ text, bracketSpace c = id c := fun c mem => by
    rw [bracketSpace, free c mem]
    rfl
  rw [List.map_congr_left same, List.map_id]

/-- Characters that are read as blanks are so all over a text. -/
theorem isBlank_of_mem_map {text : Text} (kind : ∀ c ∈ text, isBracket c = true ∨
    Text.isBlank c = true) : ∀ c ∈ text.map bracketSpace, Text.isBlank c = true := by
  intro c mem
  obtain ⟨d, inside, rfl⟩ := List.mem_map.mp mem
  exact isBlank_bracketSpace (kind d inside)

namespace operandWords

/-- Brackets and blanks around a text add no words. -/
theorem surround {front text back : Text}
    (before : ∀ c ∈ front, isBracket c = true ∨ Text.isBlank c = true)
    (after : ∀ c ∈ back, isBracket c = true ∨ Text.isBlank c = true) :
    operandWords (front ++ text ++ back) = operandWords text := by
  rw [operandWords, operandWords, List.map_append, List.map_append,
    Text.words_append_blanks (isBlank_of_mem_map after),
    Text.words_blanks_append (isBlank_of_mem_map before)]

/-- Blanks around a text add no words. -/
theorem trim (text : Text) : operandWords text.trim = operandWords text := by
  obtain ⟨front, back, split, before, after⟩ := text.exists_eq_trim
  conv_rhs => rw [split]
  exact (surround (fun c mem => .inr (before c mem)) fun c mem => .inr (after c mem)).symm

/-- A reserved word is dropped. -/
theorem of_reserved {word : Text} (reserved : isReservedWord word = true) :
    operandWords word = [] := by
  have letters := isAlpha_of_isReservedWord reserved
  rw [operandWords, map_bracketSpace_of_free fun c mem => isBracket_of_isAlpha (letters c mem),
    Text.words_of_solid (filled_of_isReservedWord reserved)
      fun c mem => isBlank_of_isAlpha (letters c mem)]
  simp [reserved]

/-- Brackets or blanks between two texts keep their words apart. -/
theorem append_gap {left gap right : Text} (filled : gap ≠ [])
    (kind : ∀ c ∈ gap, isBracket c = true ∨ Text.isBlank c = true) :
    operandWords (left ++ gap ++ right) = operandWords left ++ operandWords right := by
  simp only [operandWords, List.map_append]
  rw [Text.words_append_gap (by simpa using filled) (isBlank_of_mem_map kind), List.filter_append]

/-- A boundary adds no words. -/
theorem boundary {junction : Junction} {left lead word trail right : Text}
    (boundary : junction.IsBoundary lead word trail) :
    operandWords (left ++ (lead ++ word ++ trail) ++ right) =
      operandWords left ++ operandWords right := by
  have keyword : isReservedWord junction.keyword = true := by cases junction <;> decide
  have reserved : isReservedWord word = true := by
    rw [← keyword]
    apply isReservedWord_congr
    rw [boundary.written]
    cases junction <;> decide
  have before : ∀ c ∈ lead, isBracket c = true ∨ Text.isBlank c = true := fun c mem => by
    rcases Junction.leads_iff.mp (boundary.leading c mem) with rfl | blank
    · exact .inl rfl
    · exact .inr blank
  have after : ∀ c ∈ trail, isBracket c = true ∨ Text.isBlank c = true := fun c mem => by
    rcases Junction.trails_iff.mp (boundary.trailing c mem) with rfl | blank
    · exact .inl rfl
    · exact .inr blank
  have apart : left ++ (lead ++ word ++ trail) ++ right =
      left ++ lead ++ (word ++ trail ++ right) := by simp
  rw [apart, append_gap boundary.begun before, append_gap boundary.unfinished after,
    of_reserved reserved, List.nil_append]

/-- The words of a divided text are those of its parts. -/
theorem separates {junction : Junction} {text : Text} {parts : List Text}
    (separates : junction.Separates text parts) :
    operandWords text = parts.flatMap operandWords := by
  induction separates with
  | last text => simp
  | cons apart further ih => rw [boundary apart, ih, List.flatMap_cons]

/-- Reading tabs and line ends as spaces changes no words. -/
theorem map_plainSpace (text : Text) : operandWords (text.map plainSpace) = operandWords text := by
  have commutes : (text.map plainSpace).map bracketSpace =
      (text.map bracketSpace).map plainSpace := by
    rw [List.map_map, List.map_map]
    refine List.map_congr_left fun c _ => ?_
    rcases plainSpace_cases c with same | ⟨space, blank, opens, closes⟩
    · rw [Function.comp_apply, Function.comp_apply, same, bracketSpace]
      split
      · rfl
      · exact same.symm
    · simp [bracketSpace, isBracket, space, opens, closes]
  rw [operandWords, commutes, Text.words_map]
  · rfl
  · exact fun c _ => isBlank_plainSpace c
  · intro c _ solid
    rcases plainSpace_cases c with same | ⟨-, blank, -⟩
    · exact same
    · rw [blank] at solid
      contradiction

end operandWords

/-! ## Leaves -/

/-- The words of a derived text are those of the leaves, if each token is kept as a leaf. -/
theorem Derives.operandWords_eq {reader : Reader Text} {text : Text} {condition : Condition Text}
    (keeps : reader.tokenReaders = [fun token => .ok (some (.leaf token))])
    (derives : Derives reader text condition) :
    operandWords text = condition.leaves.flatMap operandWords := by
  induction derives with
  | @blank text none =>
    rw [← operandWords.trim, none]
    rfl
  | @group text inside condition whole balanced further ih =>
    have opens : ∀ c ∈ ['('], isBracket c = true ∨ Text.isBlank c = true := by simp [isBracket]
    have closes : ∀ c ∈ [')'], isBracket c = true ∨ Text.isBlank c = true := by simp [isBracket]
    rw [← operandWords.trim, whole, ← ih]
    exact operandWords.surround opens closes
  | @joined text short names junction parts functional divides parted shape filled each ih =>
    rw [← operandWords.trim, operandWords.separates divides.separates, Junction.leaves_join,
      List.flatMap_assoc, List.flatMap_map, List.flatMap_map]
    exact List.flatMap_congr ih
  | @negation text written operand short names condition whole lower abridges parted shape further
      ih =>
    obtain ⟨word, rfl, negates⟩ := eq_append_space_of_lower lower
    have space : ∀ c ∈ [' '], isBracket c = true ∨ Text.isBlank c = true := by
      simp only [List.mem_singleton, forall_eq]
      exact .inr (by decide)
    have same : word.lower = Text.lower "not".toList := negates
    have reserved : isReservedWord word = true := (isReservedWord_congr same).trans (by decide)
    rw [← operandWords.trim, whole, operandWords.append_gap (by simp) space,
      operandWords.of_reserved reserved, List.nil_append, ih, Condition.leaves]
  | @token text condition filled free shape read =>
    rw [← operandWords.trim]
    generalize text.trim = token at read
    unfold Reader.readToken at read
    split at read
    · rename_i same
      obtain rfl := Except.ok.inj read
      exact operandWords.of_reserved ((isReservedWord_congr (beq_iff_eq.mp same)).trans (by decide))
    · split at read
      · rename_i same
        obtain rfl := Except.ok.inj read
        exact operandWords.of_reserved
          ((isReservedWord_congr (beq_iff_eq.mp same)).trans (by decide))
      · rw [keeps] at read
        obtain rfl := Except.ok.inj read
        simp [Condition.leaves]

namespace Reader

/-- No operand of an accepted rule is lost, used twice or moved, balanced or not: if each token is
kept as a leaf, the words of the rule are those of the leaves from left to right. -/
theorem operandWords_of_read {reader : Reader Text} {rule : Text} {condition : Condition Text}
    (keeps : reader.tokenReaders = [fun token => .ok (some (.leaf token))])
    (accepted : reader.read rule = .ok condition) :
    operandWords rule = condition.leaves.flatMap operandWords := by
  rw [← operandWords.map_plainSpace]
  exact (derives_of_read accepted).operandWords_eq keeps

/-- Words of operands around stray brackets, in a group that is negated. -/
theorem operandWords_of_strays :
    let reader : Reader Text := { tokenReaders := [fun token => .ok (some (.leaf token))] }
    let rule := "ann) OR\n(not (b Not c)".toList
    let condition : Condition Text := .or [.leaf "ann".toList, .not (.leaf "b Not c".toList)]
    reader.read rule = .ok condition ∧
      operandWords rule = condition.leaves.flatMap operandWords ∧
      operandWords rule = ["ann".toList, "b".toList, "c".toList] := by
  have accepted : read { tokenReaders := [fun token => .ok (some (.leaf token))] }
      "ann) OR\n(not (b Not c)".toList =
        .ok (.or [.leaf "ann".toList, .not (.leaf "b Not c".toList)]) := by rfl
  have words : operandWords "ann) OR\n(not (b Not c)".toList =
      ["ann".toList, "b".toList, "c".toList] := by decide
  exact ⟨accepted, operandWords_of_read rfl accepted, words⟩

end Reader

end AccessRules
