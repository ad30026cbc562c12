import AccessRules.Proofs.Grammar.Levels

/-!
# Reading written forms

A written form of an expression is read as the tree of the expression, by every reader whose
limits allow the height of the expression and enough bytes for each of its levels.
-/
namespace AccessRules

open AccessRules.Bracket

namespace Expression

variable {Leaf : Type}

/-- An expression of less than so many levels is read as its tree where there is room for its
groups. -/
theorem reads_readExpression (reader : Reader Leaf) (levels : Nat) (expression : Expression)
    (store : ClauseStore) (text full : Text) (trim : text.trim = full)
    (renders : Renders isSpace expression full) (low : expression.height < levels)
    (room : store.HasRoom full.byteLength (outlay expression.height full.byteLength)) :
    store.Answers (outlay expression.height full.byteLength) (expression.compile reader)
      (reader.readExpression levels store text) := by
  have cheap : outlay (expression.height - 1) full.byteLength ≤
      outlay expression.height full.byteLength := outlay_mono (Nat.sub_le _ _) (Nat.le_refl _)
  have gives := reads_levels separates_space reader levels expression store text full trim
    renders low room.length
  have exact : store.Gives (outlay expression.height full.byteLength)
      (· = expression.compile reader) (reader.readExpression levels store text) :=
    gives.mono (fun _ _ => Outcome.eq_compile) (fun _ => Outcome.eq_compile) cheap
  exact exact.answers room.stored

end Expression

namespace Reader

open Expression Renders

variable {Leaf : Type}

/-- The store that a reader starts with has room for an expression that its limits allow. -/
theorem hasRoom_ofLimits {limits : Limits} {height bytes length : Nat} (fewer : bytes ≤ length)
    (deep : height ≤ limits.maxDepth) (long : (height + 1) * length ≤ limits.maxLength) :
    (ClauseStore.ofLimits limits).HasRoom bytes (outlay height bytes) := by
  have once : length ≤ (height + 1) * length := Nat.le_mul_of_pos_left _ (Nat.succ_pos _)
  have each : height * bytes ≤ (height + 1) * length := Nat.mul_le_mul (Nat.le_succ _) fewer
  constructor
  · exact Nat.le_trans fewer (Nat.le_trans once long)
  · calc 0 + outlay height bytes
        ≤ height * height * bytes := by
          rw [Nat.zero_add]
          exact outlay_le height bytes
      _ = height * bytes * height := Nat.mul_right_comm _ _ _
      _ ≤ limits.maxLength * max limits.maxDepth 1 :=
          Nat.mul_le_mul (Nat.le_trans each long) (Nat.le_trans deep (Nat.le_max_left _ _))

/-- Every written form of an expression is read as the tree of the expression, with separators
around it or without, if the limits allow its height and, for each level and one more, its bytes. -/
theorem read_of_renders (reader : Reader Leaf) {expression : Expression}
    {before text after : Text} (renders : Renders isSeparator expression text)
    (surrounded : ∀ c ∈ before ++ after, isSeparator c = true)
    (deep : expression.height ≤ reader.limits.maxDepth)
    (long : (expression.height + 1) * Text.byteLength (before ++ text ++ after) ≤
      reader.limits.maxLength) :
    reader.read (before ++ text ++ after) = expression.compile reader := by
  have separates : IsGap isSeparator := fun _ => isBlank_of_isSeparator
  have written := renders.map_plainSpace
  have fits : ¬reader.limits.maxLength < Text.byteLength (before ++ text ++ after) := by
    have once : Text.byteLength (before ++ text ++ after) ≤
        (expression.height + 1) * Text.byteLength (before ++ text ++ after) :=
      Nat.le_mul_of_pos_left _ (Nat.succ_pos _)
    omega
  have shallow : ¬reader.limits.maxDepth < nesting (before ++ text ++ after) := by
    have nested := renders.nesting_le separates surrounded
    omega
  have clean : IsClean (before ++ text ++ after) :=
    isClean_surround (fun c mem => .inr (separates c (surrounded c mem)))
      (renders.isClean separates)
  have trimmed : (plainSpaces (before ++ text ++ after)).trim = text.map plainSpace := by
    have spaces := separates_space.isBlank (isSpace_of_mem_map surrounded)
    rw [List.map_append] at spaces
    rw [plainSpaces_eq_map, List.map_append, List.map_append]
    exact written.filled_and_trimmed.2.trim_eq (fun c mem => spaces c (List.mem_append_left _ mem))
      fun c mem => spaces c (List.mem_append_right _ mem)
  have fewer : Text.byteLength (text.map plainSpace) ≤
      Text.byteLength (before ++ text ++ after) := by
    rw [byteLength_map_plainSpace, Text.byteLength_append, Text.byteLength_append]
    omega
  have answers := reads_readExpression reader reader.limits.levels expression _ _ _ trimmed written
    (Nat.lt_succ_of_le deep) (hasRoom_ofLimits fewer deep long)
  rw [read, if_neg fits, if_neg shallow, clean.find?_eq_none]
  exact answers.value

/-- Keywords in mixed case, all four separators and nested brackets, under limits that just allow
the rule. -/
theorem read_mixed_forms :
    let reader : Reader Text :=
      { limits := ⟨4, 265⟩, tokenReaders := [fun token => .ok (some (.leaf token))] }
    let expression : Expression := .joined .or
      (.joined .and (.token "user = ann".toList) [.group (.negation (.token "group = x".toList))])
      [.vacant, .token "FALSE".toList]
    let text := "user = ann  AND\t( Not\ngroup = x )\r\noR ( ) or FALSE".toList
    let rule := " ".toList ++ text ++ "\r\n".toList
    Renders isSeparator expression text ∧ expression.height = 4 ∧ 5 * Text.byteLength rule = 265 ∧
      reader.read rule = .ok (.or
        [.and [.leaf "user = ann".toList, .not (.leaf "group = x".toList)],
          .literal true, .literal false]) := by
  intro reader expression text rule
  have separators : ∀ {gap : Text}, gap.all isSeparator = true →
      ∀ c ∈ gap, isSeparator c = true := fun all => List.all_eq_true.mp all
  have user : IsToken "user = ann".toList := by decide
  have group : IsToken "group = x".toList := by decide
  have never : IsToken "FALSE".toList := by decide
  have conjunction : IsLink isSeparator .and "  ".toList "AND".toList "\t".toList :=
    ⟨by decide, by decide, separators (by decide), by decide⟩
  have disjunction : IsLink isSeparator .or "\r\n".toList "oR".toList " ".toList :=
    ⟨by decide, by decide, separators (by decide), by decide⟩
  have plain : IsLink isSeparator .or " ".toList "or".toList " ".toList :=
    ⟨by decide, by decide, separators (by decide), by decide⟩
  have negation : Renders isSeparator (.negation (.token "group = x".toList))
      ("Not".toList ++ "\n".toList ++ "group = x".toList) :=
    .negation (by decide) (by decide) (separators (by decide)) rfl (.token group)
  have bracketed : Renders isSeparator (.group (.negation (.token "group = x".toList)))
      ('(' :: (" ".toList ++ ("Not".toList ++ "\n".toList ++ "group = x".toList) ++ " ".toList) ++
        [')']) := .group (separators (by decide)) negation
  have vacant : Renders isSeparator .vacant ('(' :: " ".toList ++ [')']) := 
    .vacant (separators (by decide))
  have first := Renders.pair conjunction (.token user) Nat.one_pos bracketed Nat.one_pos
  have rest := Renders.pair plain vacant Nat.two_pos (.token never) Nat.two_pos
  have renders : Renders isSeparator expression text :=
    Renders.more disjunction first (Nat.lt_succ_self 1) rest
  have bytes : 5 * Text.byteLength rule = 265 := by decide
  have compiled : expression.compile reader = .ok (.or
      [.and [.leaf "user = ann".toList, .not (.leaf "group = x".toList)],
        .literal true, .literal false]) := rfl
  have high : expression.height = 4 := rfl
  have answer := read_of_renders reader renders (separators (by decide)) (Nat.le_refl 4)
    (Nat.le_of_eq bytes)
  exact ⟨renders, high, bytes, answer.trans compiled⟩

end Reader

end AccessRules
