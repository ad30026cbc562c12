import AccessRules.Proofs.Grammar.Levels

/-!
# Written forms that exceed a limit

A written form that is no longer and no higher than the limits allow exceeds one limit at most: that
of the bytes of all bracket groups, which are stored again at every level. The bytes that all levels
may store are bounded, so this limit is not exceeded either where it is as large as the bound.
-/
namespace AccessRules.Reader

open AccessRules.Bracket Expression Renders

variable {Leaf : Type}

/-- A written form of an expression that the limits allow, with blanks around it or without, is
refused for a limit only if the groups at all levels may hold more bytes than may be stored. -/
theorem exceeded_of_renders (reader : Reader Leaf) {expression : Expression}
    {before text after : Text} {excess : Excess} (renders : Renders Text.isBlank expression text)
    (surrounded : ∀ c ∈ before ++ after, Text.isBlank c = true)
    (deep : expression.height ≤ reader.limits.maxDepth)
    (long : Text.byteLength (before ++ text ++ after) ≤ reader.limits.maxLength)
    (quiet : ∀ token excess, reader.readToken token ≠ .error (.exceeded excess))
    (refused : reader.read (before ++ text ++ after) = .error (.exceeded excess)) :
    excess = .groups reader.limits.maxStored ∧
      reader.limits.maxStored < expression.height * (expression.height - 1) / 2 *
        Text.byteLength (before ++ text ++ after) := by
  have separates : IsGap Text.isBlank := fun _ => id
  have kept : ∀ c, Text.isBlank c = true → Text.isBlank (plainSpace c) = true :=
    fun c blank => (isBlank_plainSpace c).trans blank
  have written := renders.map_gaps kept
  have shallow : ¬reader.limits.maxDepth < nesting (before ++ text ++ after) := by
    have nested := renders.nesting_le separates surrounded
    omega
  have clean : IsClean (before ++ text ++ after) :=
    isClean_surround (fun c mem => .inr (surrounded c mem)) (renders.isClean separates)
  have trimmed : (plainSpaces (before ++ text ++ after)).trim = text.map plainSpace := by
    have spaces := gap_of_mem_map kept surrounded
    rw [List.map_append] at spaces
    rw [plainSpaces_eq_map, List.map_append, List.map_append]
    exact written.filled_and_trimmed.2.trim_eq (fun c mem => spaces c (List.mem_append_left _ mem))
      fun c mem => spaces c (List.mem_append_right _ mem)
  have fewer : Text.byteLength (text.map plainSpace) ≤
      Text.byteLength (before ++ text ++ after) := by
    rw [byteLength_map_plainSpace, Text.byteLength_append, Text.byteLength_append]
    omega
  have gives := reads_levels separates reader reader.limits.levels expression
    (.ofLimits reader.limits) _ _ trimmed written (Nat.lt_succ_of_le deep)
    (Nat.le_trans fewer long)
  rw [read, if_neg (Nat.not_lt_of_le long), if_neg shallow, clean.find?_eq_none] at refused
  cases result : reader.readExpression reader.limits.levels (.ofLimits reader.limits)
      (plainSpaces (before ++ text ++ after)) with
  | ok answer =>
    rw [result] at refused
    cases refused
  | error error =>
    rw [result] at refused gives
    obtain rfl := Except.error.inj refused
    rcases gives with outcome | ⟨same, full⟩
    · exact absurd rfl (outcome.ne_exceeded quiet excess)
    · have cheap := outlay_mono (Nat.le_refl (expression.height - 1)) fewer
      have total := Nat.lt_of_lt_of_le full (Nat.add_le_add_left cheap _)
      rw [outlay_pred] at total
      exact ⟨RuleError.exceeded.inj same, by simpa [ClauseStore.ofLimits] using total⟩

/-- A literal in five pairs of brackets. -/
theorem renders_five_brackets :
    Renders Text.isBlank (.group (.group (.group (.group (.group (.token "true".toList))))))
      "(((((true)))))".toList := by
  have bare : ∀ c ∈ ([] ++ [] : Text), Text.isBlank c = true := by simp
  have literal : IsToken "true".toList := by decide
  have once := Renders.group bare (.token literal)
  have thrice := Renders.group bare (Renders.group bare once)
  exact Renders.group bare (Renders.group bare thrice)

/-- Five pairs of brackets around a literal, with a blank before them, hold more than seventy-five
bytes. -/
theorem exceeded_of_five_brackets :
    let reader : Reader Text := { limits := ⟨5, 15⟩ }
    let rule := [' '] ++ "(((((true)))))".toList ++ []
    (∀ token excess, reader.readToken token ≠ .error (.exceeded excess)) ∧
      reader.read rule = .error (.exceeded (.groups 75)) ∧
      Excess.groups 75 = .groups reader.limits.maxStored ∧
      reader.limits.maxStored < 5 * (5 - 1) / 2 * Text.byteLength rule := by
  intro reader rule
  have quiet : ∀ token excess, reader.readToken token ≠ .error (.exceeded excess) := by
    intro token excess
    unfold readToken
    split
    · exact nofun
    · split
      · exact nofun
      · exact nofun
  have blank : ∀ c ∈ [' '] ++ ([] : Text), Text.isBlank c = true :=
    List.all_eq_true.mp (by decide)
  have written : rule = " (((((true)))))".toList := by decide
  have answer : ({ limits := ⟨5, 15⟩ } : Reader Text).read " (((((true)))))".toList =
      .error (.exceeded (.groups 75)) := by rfl
  have refused : reader.read rule = .error (.exceeded (.groups 75)) := by
    rw [written]
    exact answer
  exact ⟨quiet, refused, exceeded_of_renders reader renders_five_brackets blank (by decide)
    (by decide) quiet refused⟩

/-- The limit of the bytes of all groups is exceeded by a rule that is as long and as high as the
other limits allow. -/
theorem five_brackets_exceed_groups :
    let reader : Reader Text := { limits := ⟨5, 14⟩ }
    let expression : Expression := .group (.group (.group (.group (.group (.token "true".toList)))))
    let rule := "(((((true)))))".toList
    Renders Text.isBlank expression rule ∧ expression.height = reader.limits.maxDepth ∧
      Text.byteLength rule = reader.limits.maxLength ∧
      reader.read rule = .error (.exceeded (.groups 70)) :=
  ⟨renders_five_brackets, by rfl, by decide, by rfl⟩

end AccessRules.Reader
