import AccessRules.Proofs.Grammar.Replay

/-!
# Rules composed of bracketed rules

Balanced rules that are accepted can be put in brackets and joined or negated: the result is read
as the conditions of the rules joined or negated, or exceeds a limit. A rule that is not balanced
need not be composable so, since its strays meet the brackets around it.
-/
namespace AccessRules

open AccessRules.Bracket

variable {Leaf : Type} {reader : Reader Leaf}

/-! ## Brackets around a text -/

/-- The text in brackets. -/
def bracketed (text : Text) : Text := '(' :: text ++ [')']

/-- Texts without markers have none with a character between them that is of no marker. -/
theorem Unmarked.join {front back : Text} {c : Char} (first : Unmarked front)
    (last : Unmarked back) (lacks : ∀ digits, (∀ d ∈ digits, Text.isDecimalDigit d = true) →
      c ∉ Marker.ofDigits digits) : Unmarked (front ++ c :: back) := by
  intro digits filled decimal written
  rcases infix_append_cons (lacks digits decimal) written with before | after
  · exact first digits filled decimal before
  · exact last digits filled decimal after

/-- A text without markers has none in brackets, with other text before and after it. -/
theorem Unmarked.surround {front text back : Text} (unmarked : Unmarked text)
    (before : Unmarked front) (after : Unmarked back) :
    Unmarked (front ++ bracketed text ++ back) := by
  have inner : Unmarked (text ++ ')' :: back) :=
    unmarked.join after fun _ => Marker.not_mem_of_isBracket rfl
  have whole : Unmarked (front ++ '(' :: (text ++ ')' :: back)) :=
    before.join inner fun _ => Marker.not_mem_of_isBracket rfl
  simpa [bracketed] using whole

/-- A text in brackets has no blanks at its ends. -/
theorem isTrimmed_bracketed (text : Text) : (bracketed text).IsTrimmed :=
  Text.isTrimmed_between (by decide) (by decide) text

/-- What is derived from a text is derived from it in brackets. -/
theorem Derives.in_brackets {text : Text} {condition : Condition Leaf}
    (derives : Derives reader text condition) (balanced : Balanced text) :
    Derives reader (bracketed text) condition :=
  .group (isTrimmed_bracketed text).trim_self balanced derives

/-! ## Derivations of composed texts -/

/-- The first two markers name the two texts. -/
inductive NamesTwo (left right : Text) : (digits body : Text) → Prop where
  | left : NamesTwo left right ['0'] left
  | right : NamesTwo left right ['1'] right

/-- Two texts in brackets with a keyword between them are derived as a junction. -/
theorem Derives.join_bracketed {left right : Text} {first second : Condition Leaf}
    (junction : Junction) (derives_left : Derives reader left first)
    (derives_right : Derives reader right second) (balanced_left : Balanced left)
    (balanced_right : Balanced right) :
    Derives reader (bracketed left ++ ([' '] ++ junction.keyword ++ [' ']) ++
      bracketed right) (junction.join [first, second]) := by
  let names := NamesTwo (bracketed left) (bracketed right)
  let short := Marker.ofDigits ['0'] ++ ([' '] ++ junction.keyword ++ [' ']) ++
    Marker.ofDigits ['1']
  have functional : ∀ digits body other, names digits body → names digits other →
      body = other := by
    rintro digits body other named again
    cases named <;> cases again <;> rfl
  have boundary : junction.IsBoundary [' '] junction.keyword [' '] :=
    ⟨by simp, List.forall_mem_singleton.mpr (by decide), by cases junction <;> decide, by simp,
      List.forall_mem_singleton.mpr (by decide)⟩
  have number : ∀ digit : Char, digit.isDigit = true → Marker.IsNumber [digit] :=
    fun digit kind => ⟨by simp, by simpa using kind⟩
  have divides : Divides names junction (bracketed left ++
      ([' '] ++ junction.keyword ++ [' ']) ++ bracketed right) short
      [bracketed left, bracketed right]
      [Marker.ofDigits ['0'], Marker.ofDigits ['1']] :=
    .cons (.single (number '0' (by decide)) ⟨left, rfl, balanced_left⟩ .left) boundary
      (.last (.single (number '1' (by decide)) ⟨right, rfl, balanced_right⟩ .right))
  have segments : junction.segments short = [Marker.ofDigits ['0'], Marker.ofDigits ['1']] := by
    cases junction <;> decide
  have shape : Shape.of short = .joined junction (junction.segments short) := by
    cases junction <;> decide
  have parted : Parted short := by
    refine parted_of_not_mem ?_
    cases junction <;> decide
  have trimmed := (isTrimmed_bracketed left).append (by simp [bracketed])
    (isTrimmed_bracketed right) (by simp [bracketed])
    ([' '] ++ junction.keyword ++ [' '])
  rw [← segments, ← trimmed.trim_self] at divides
  let parts := [(bracketed left, first), (bracketed right, second)]
  have filled : ∀ part ∈ parts, Text.trim part.1 ≠ [] := by
    have some : ∀ text : Text, (bracketed text).trim ≠ [] := fun text => by
      rw [(isTrimmed_bracketed text).trim_self]
      simp [bracketed]
    simp [parts, some]
  have each : ∀ part ∈ parts, Derives reader part.1 part.2 := by
    simp [parts, derives_left.in_brackets balanced_left, derives_right.in_brackets balanced_right]
  exact .joined functional divides parted shape filled each

/-- A text in brackets after the word for negation is derived as a negation. -/
theorem Derives.negate_bracketed {text : Text} {condition : Condition Leaf}
    (derives : Derives reader text condition) (balanced : Balanced text) :
    Derives reader ("not ".toList ++ bracketed text) (.not condition) := by
  have number : Marker.IsNumber ['0'] := ⟨by simp, List.forall_mem_singleton.mpr (by decide)⟩
  have word : Text.IsTrimmed "not".toList :=
    Text.isTrimmed_of_solid (List.forall_iff_forall_mem.mp (by decide))
  have trimmed := word.append (by simp) (isTrimmed_bracketed text) (by simp [bracketed]) [' ']
  have abridges : Abridges (NamesTwo (bracketed text) []) (bracketed text)
      (Marker.ofDigits ['0']) := .single number ⟨text, rfl, balanced⟩ .left
  have parted : Parted ("not ".toList ++ Marker.ofDigits ['0']) :=
    parted_of_not_mem (by decide)
  exact .negation trimmed.trim_self (by decide) abridges parted (by decide)
    (derives.in_brackets balanced)

/-! ## Accepted rules -/

/-- Reading tabs and line ends as spaces leaves brackets as they are. -/
theorem map_bracketed (text : Text) :
    (bracketed text).map plainSpace = bracketed (text.map plainSpace) := by
  simp [bracketed, plainSpace]

namespace Reader

/-- Rules in brackets with a keyword between them are accepted as a junction. -/
theorem accepts_join {left right : Text} {first second : Condition Leaf} (junction : Junction)
    (balanced_left : Balanced left) (balanced_right : Balanced right)
    (accepted_left : reader.read left = .ok first)
    (accepted_right : reader.read right = .ok second) :
    reader.AcceptsUpToLimits
      (bracketed left ++ ([' '] ++ junction.keyword ++ [' ']) ++ bracketed right)
      (junction.join [first, second]) := by
  have keyword : ([' '] ++ junction.keyword ++ [' ']).map plainSpace =
      [' '] ++ junction.keyword ++ [' '] := by cases junction <;> decide
  have between : Balanced ([' '] ++ junction.keyword ++ [' ']) :=
    balanced_of_free (by cases junction <;> exact List.forall_iff_forall_mem.mp (by decide))
  have group : ∀ {text : Text}, Balanced text → IsGroup (bracketed text) :=
    fun balanced => ⟨_, rfl, balanced⟩
  refine accepts_of_derives ?_
    (((group balanced_left).balanced.append between).append (group balanced_right).balanced) ?_
  · rw [List.map_append, List.map_append, map_bracketed, map_bracketed, keyword]
    exact (derives_of_read accepted_left).join_bracketed junction
      (derives_of_read accepted_right) (balanced_map_plainSpace.mpr balanced_left)
      (balanced_map_plainSpace.mpr balanced_right)
  · have gap : Unmarked ([' '] ++ junction.keyword ++ [' ']) :=
      unmarked_of_find? (by cases junction <;> decide)
    have none : Unmarked [] := unmarked_of_find? rfl
    have tail : Unmarked ([' '] ++ junction.keyword ++ [' '] ++ bracketed right ++ []) :=
      (readExpression_of_read accepted_right).1.surround gap none
    have whole : Unmarked ([] ++ bracketed left ++
        ([' '] ++ junction.keyword ++ [' '] ++ bracketed right ++ [])) :=
      (readExpression_of_read accepted_left).1.surround none tail
    simpa using whole

/-- A rule in brackets after the word for negation is accepted as a negation. -/
theorem accepts_negation {rule : Text} {condition : Condition Leaf} (balanced : Balanced rule)
    (accepted : reader.read rule = .ok condition) :
    reader.AcceptsUpToLimits ("not ".toList ++ bracketed rule) (.not condition) := by
  have word : "not ".toList.map plainSpace = "not ".toList := by decide
  have group : IsGroup (bracketed rule) := ⟨rule, rfl, balanced⟩
  have free : Balanced "not ".toList := balanced_of_free (List.forall_iff_forall_mem.mp (by decide))
  refine accepts_of_derives ?_ (free.append group.balanced) ?_
  · rw [List.map_append, map_bracketed, word]
    exact (derives_of_read accepted).negate_bracketed (balanced_map_plainSpace.mpr balanced)
  · have first : Unmarked "not ".toList := unmarked_of_find? (by decide)
    have none : Unmarked [] := unmarked_of_find? rfl
    simpa using (readExpression_of_read accepted).1.surround first none

/-- Balanced rules that are accepted compose: in brackets they can be joined by either keyword and
negated, and the result is accepted as their conditions joined or negated, unless a limit is
exceeded. -/
theorem accepts_bracketed {left right : Text} {first second : Condition Leaf}
    (balanced_left : Balanced left) (balanced_right : Balanced right)
    (accepted_left : reader.read left = .ok first)
    (accepted_right : reader.read right = .ok second) :
    reader.AcceptsUpToLimits ("(".toList ++ left ++ ") and (".toList ++ right ++ ")".toList)
        (.and [first, second]) ∧
      reader.AcceptsUpToLimits ("(".toList ++ left ++ ") or (".toList ++ right ++ ")".toList)
        (.or [first, second]) ∧
      reader.AcceptsUpToLimits ("not (".toList ++ left ++ ")".toList) (.not first) := by
  have conjunction := accepts_join .and balanced_left balanced_right accepted_left accepted_right
  have disjunction := accepts_join .or balanced_left balanced_right accepted_left accepted_right
  have negation := accepts_negation balanced_left accepted_left
  refine ⟨?_, ?_, ?_⟩
  · simpa [bracketed, Junction.keyword, Junction.join] using conjunction
  · simpa [bracketed, Junction.keyword, Junction.join] using disjunction
  · simpa [bracketed] using negation

/-- A rule with a group under a negation is composed with an empty group, and the usual limits leave
room for the conjunction. -/
theorem accepts_bracketed_groups :
    let reader : Reader Text := { tokenReaders := [fun token => .ok (some (.leaf token))] }
    let left := "ann or not (b and\tc)".toList
    let right := " ( )".toList
    let first : Condition Text :=
      .or [.leaf "ann".toList, .not (.and [.leaf "b".toList, .leaf "c".toList])]
    let second : Condition Text := .literal true
    Balanced left ∧ Balanced right ∧ reader.read left = .ok first ∧
      reader.read right = .ok second ∧
      (reader.AcceptsUpToLimits ("(".toList ++ left ++ ") and (".toList ++ right ++ ")".toList)
          (.and [first, second]) ∧
        reader.AcceptsUpToLimits ("(".toList ++ left ++ ") or (".toList ++ right ++ ")".toList)
          (.or [first, second]) ∧
        reader.AcceptsUpToLimits ("not (".toList ++ left ++ ")".toList) (.not first)) ∧
      reader.read ("(".toList ++ left ++ ") and (".toList ++ right ++ ")".toList) =
        .ok (.and [first, second]) := by
  have balanced_left : Balanced "ann or not (b and\tc)".toList :=
    balanced_iff.mpr (by decide)
  have balanced_right : Balanced " ( )".toList := balanced_iff.mpr (by decide)
  have accepted_left : read { tokenReaders := [fun token => .ok (some (.leaf token))] }
      "ann or not (b and\tc)".toList =
        .ok (.or [.leaf "ann".toList, .not (.and [.leaf "b".toList, .leaf "c".toList])]) := by rfl
  have accepted_right : read { tokenReaders := [fun token => .ok (some (.leaf token))] }
      " ( )".toList = .ok (.literal true : Condition Text) := by rfl
  exact ⟨balanced_left, balanced_right, accepted_left, accepted_right,
    accepts_bracketed balanced_left balanced_right accepted_left accepted_right, by rfl⟩

end Reader

end AccessRules
