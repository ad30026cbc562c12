import AccessRules.Proofs.Subject.QuotedName

/-!
# Written leaves read back

The writer of a leaf puts a name in quotes if it is empty or holds a blank, and the reader takes
the quotes off a value that begins with one. The two agree on every leaf but one whose name begins
with a quote and has no blank: it is written as it is, and then loses its quotes or is refused.
-/
namespace AccessRules.SubjectLeaf

/-! ## Tokens read by their parts -/

/-- A value without blanks that begins with no quote is taken as it is. -/
theorem unquote_bare {value : Text} (solid : ∀ c ∈ value, Text.isBlank c = false)
    (bare : value.head? ≠ some '"') : unquote value = .ok value := by
  have whole : value.any Text.isBlank = false := by simpa using solid
  unfold unquote
  split
  · exact absurd rfl bare
  · rw [if_neg (by simp [whole])]

/-- A token of a field, a sign and a value is read from these. -/
theorem read_parts (field : Field) (sign value : Text)
    (signs : ∀ c ∈ sign, isSignChar c = true)
    (ends : ∀ c ∈ value.head?, isSignChar c = false)
    (begins : ∀ c ∈ (sign ++ value).head?, Text.isBlank c = false) :
    read (field.name ++ ' ' :: (sign ++ value)) = do
      let value ← unquote value.trim
      let leaf ← ofParts field sign value
      return some leaf := by
  have letters : ∀ c ∈ field.name, (!endsField c) = true :=
    List.all_eq_true.mp (by cases field <;> decide)
  have blank : ∀ c ∈ (' ' :: (sign ++ value)).head?, (!endsField c) = false := by
    intro c first
    obtain rfl := Option.some.inj first
    rfl
  have rest : Text.trimStart (' ' :: (sign ++ value)) = sign ++ value := by
    have none : ∀ c ∈ [' '], Text.isBlank c = true := List.forall_mem_singleton.mpr rfl
    exact Text.dropWhile_append_of_ends none begins
  rw [read, Text.takeWhile_append_of_ends letters blank, Field.ofName?_name,
    Text.dropWhile_append_of_ends letters blank, rest]
  dsimp only
  rw [Text.takeWhile_append_of_ends signs ends, Text.dropWhile_append_of_ends signs ends]

/-- A token of a field, a filled sign, a space and a value is read from these. -/
theorem read_spaced (field : Field) {sign : Text} (value : Text) (filled : sign ≠ [])
    (signs : ∀ c ∈ sign, isSignChar c = true) :
    read (field.name ++ ' ' :: (sign ++ ' ' :: value)) = do
      let value ← unquote value.trim
      let leaf ← ofParts field sign value
      return some leaf := by
  have same : Text.trim (' ' :: value) = Text.trim value := by
    rw [Text.trim, Text.trim]
    rfl
  rw [← same]
  refine read_parts field sign _ signs ?_ ?_
  · intro c first
    obtain rfl := Option.some.inj first
    rfl
  · intro c first
    obtain ⟨d, more, rfl⟩ := List.exists_cons_of_ne_nil filled
    obtain rfl := Option.some.inj first
    have sign : isSignChar d = true := signs d List.mem_cons_self
    simp only [isSignChar, Bool.or_eq_true, decide_eq_true_eq] at sign
    rcases sign with ((rfl | rfl) | rfl) | rfl <;> rfl

/-! ## Leaves by their kind -/

/-- No blanks surround the sign of a comparison of names, and it has characters of signs only. -/
theorem solid_equality (equality : Equality) :
    Text.trim equality.symbol = equality.symbol ∧ equality.symbol ≠ [] ∧
      ∀ c ∈ equality.symbol, isSignChar c = true := by
  rw [← List.all_eq_true]
  cases equality <;> decide

/-- No blanks surround the sign of a comparison of days, and it has characters of signs only. -/
theorem solid_comparison (comparison : Comparison) :
    Text.trim comparison.symbol = comparison.symbol ∧ comparison.symbol ≠ [] ∧
      ∀ c ∈ comparison.symbol, isSignChar c = true := by
  rw [← List.all_eq_true]
  cases comparison <;> decide

/-- No character of a sign and no quote is written in a network. -/
theorem not_isWritten_of_sign {c : Char} (sign : isSignChar c = true ∨ c = '"') :
    ¬(Address.IsWritten c ∨ c = '/') := by
  simp only [isSignChar, Bool.or_eq_true, decide_eq_true_eq] at sign
  unfold Address.IsWritten
  rcases sign with (((rfl | rfl) | rfl) | rfl) | rfl <;> decide

/-- A written network is read back. -/
theorem read_render_network (range : Network) :
    read (network range).render = .ok (some (network range)) := by
  have written : ∀ c ∈ range.render, Address.IsWritten c ∨ c = '/' :=
    fun c => Network.isWritten_of_mem_render
  have solid : ∀ c ∈ range.render, Text.isBlank c = false := by
    intro c mem
    rcases written c mem with inside | rfl
    · exact inside.other.1
    · rfl
  have unsigned : ∀ c ∈ range.render, isSignChar c = false := fun c mem =>
    Bool.eq_false_of_not_eq_true fun sign => not_isWritten_of_sign (.inl sign) (written c mem)
  have bare : range.render.head? ≠ some '"' := fun quote =>
    not_isWritten_of_sign (.inr rfl) (written '"' (List.mem_of_head? quote))
  have filled : range.render ≠ [] := by
    intro empty
    have known := range.read_render
    rw [empty] at known
    contradiction
  have whole : ofParts .ip [] range.render = .ok (network range) := by
    simp only [ofParts, filled, range.read_render, true_or, ↓reduceIte]
  have parts := read_parts .ip [] range.render
    (fun c mem => absurd mem List.not_mem_nil)
    (fun c first => unsigned c (List.mem_of_head? first))
    (fun c first => solid c (List.mem_of_head? first))
  rw [(Text.isTrimmed_of_solid solid).trim_self, unquote_bare solid bare] at parts
  refine Eq.trans parts ?_
  show (ofParts .ip [] range.render >>= _) = _
  rw [whole]
  rfl

/-- A written comparison with a date is read back. -/
theorem read_render_date (comparison : Comparison) (day : Date) :
    read (date comparison day).render = .ok (some (date comparison day)) := by
  obtain ⟨trimmed, filled, signs⟩ := solid_comparison comparison
  have solid : ∀ c ∈ day.render, Text.isBlank c = false := fun c => Date.isBlank_of_mem_render
  have same : day.render.trim = day.render := (Text.isTrimmed_of_solid solid).trim_self
  have whole := ofParts_date comparison day
  rw [trimmed, same] at whole
  have parts := read_spaced .date day.render filled signs
  rw [same, unquote_bare solid day.head?_render_ne_quote] at parts
  refine Eq.trans parts ?_
  show (ofParts .date comparison.symbol day.render >>= _) = _
  rw [whole]
  rfl

section

variable {field : Field} {form : Equality → Text → SubjectLeaf}

/-- A name has no blanks at its ends where it is written. -/
theorem trim_renderName (name : Text) : Text.trim (renderName name) = renderName name := by
  unfold renderName
  split
  · have trimmed := trim_quoted name
    rwa [Text.trim, Text.trimStart, List.dropWhile_cons_of_pos (by rfl)] at trimmed
  · rename_i bare
    have solid : ∀ c ∈ name, Text.isBlank c = false := by simpa using (not_or.mp bare).2
    exact (Text.isTrimmed_of_solid solid).trim_self

/-- A written comparison with a name is read from what the reader makes of the written name. -/
theorem read_render_name
    (kind : (field = .user ∧ form = .user) ∨ (field = .group ∧ form = .group))
    (equality : Equality) (name : Text) :
    read (form equality name).render = unquote (renderName name) >>= fun value =>
      if value = [] then .error (.missingValue field)
      else .ok (some (form equality value)) := by
  obtain ⟨trimmed, filled, signs⟩ := solid_equality equality
  have parts := read_spaced field (renderName name) filled signs
  have written : (form equality name).render =
      field.name ++ ' ' :: (equality.symbol ++ ' ' :: renderName name) := by
    rcases kind with ⟨rfl, rfl⟩ | ⟨rfl, rfl⟩ <;> rfl
  rw [written, parts, trim_renderName]
  refine congrArg _ (funext fun value => ?_)
  have made := ofParts_equality kind equality value
  rw [trimmed] at made
  rw [made]
  split <;> rfl

/-- The name is known from what is written: it has a blank and stands in quotes, or it does not
begin with a quote. -/
def IsClear (name : Text) : Prop :=
  (∃ c ∈ name, Text.isBlank c = true) ∨ name.head? ≠ some '"'

/-- The reader takes back a written name that is not empty exactly if it is clear. -/
theorem unquote_renderName_iff {name : Text} (filled : name ≠ []) :
    unquote (renderName name) = .ok name ↔ IsClear name := by
  by_cases blank : ∃ c ∈ name, Text.isBlank c = true
  · have quoted : renderName name = '"' :: (name ++ ['"']) :=
      if_pos (.inr (List.any_eq_true.mpr blank))
    exact ⟨fun _ => .inl blank, fun _ => quoted ▸ unquote_quoted name⟩
  · have solid : ∀ c ∈ name, Text.isBlank c = false := by simpa using blank
    have bare : renderName name = name := if_neg (by simpa [filled] using blank)
    rw [bare]
    constructor
    · intro kept
      refine .inr fun quote => ?_
      obtain ⟨inner, rfl⟩ := List.head?_eq_some_iff.mp quote
      -- The value in quotes is shorter than the name.
      rw [unquote] at kept
      split at kept
      · have shorter := congrArg List.length (Except.ok.inj kept)
        simp only [List.length_dropLast, List.length_cons] at shorter
        omega
      · contradiction
    · rintro (spaced | clear)
      · exact absurd spaced blank
      · exact unquote_bare solid clear

/-- A written comparison with a name is read back exactly if the name is clear. -/
theorem read_render_name_iff
    (kind : (field = .user ∧ form = .user) ∨ (field = .group ∧ form = .group))
    (equality : Equality) {name : Text} (filled : name ≠ []) :
    read (form equality name).render = .ok (some (form equality name)) ↔ IsClear name := by
  have same : ∀ value, form equality value = form equality name ↔ value = name := by
    intro value
    rcases kind with ⟨-, rfl⟩ | ⟨-, rfl⟩ <;> simp
  rw [read_render_name kind, ← unquote_renderName_iff filled, bind_eq_ok]
  constructor
  · rintro ⟨value, taken, made⟩
    split at made
    · contradiction
    · rwa [(same value).mp (Option.some.inj (Except.ok.inj made))] at taken
  · exact fun taken => ⟨name, taken, if_neg filled⟩

end

/-! ## Leaves of accepted tokens -/

/-- The leaf of an accepted token, written as a token again, is read as that leaf exactly if its
name, should it have one, is clear. -/
theorem read_render_iff {token : Text} {leaf : SubjectLeaf}
    (accepted : read token = .ok (some leaf)) :
    read leaf.render = .ok (some leaf) ↔ ∀ name ∈ leaf.name?, IsClear name := by
  have filled : ∀ name ∈ leaf.name?, name ≠ [] := filled_of_read accepted
  cases leaf with
  | user equality name =>
    rw [read_render_name_iff (.inl ⟨rfl, rfl⟩) equality (filled name rfl)]
    simp [name?]
  | group equality name =>
    rw [read_render_name_iff (.inr ⟨rfl, rfl⟩) equality (filled name rfl)]
    simp [name?]
  | network range => exact ⟨fun _ => by simp [name?], fun _ => read_render_network range⟩
  | date comparison day =>
    exact ⟨fun _ => by simp [name?], fun _ => read_render_date comparison day⟩

/-- A name with blanks and quotes inside quotes is written in quotes again and read back. -/
theorem quoted_quotes_read_back :
    let token := "GROUP!=\"\"a b\"\"".toList
    let leaf := SubjectLeaf.group .notEqual "\"a b\"".toList
    read token = .ok (some leaf) ∧ (∀ name ∈ leaf.name?, IsClear name) ∧
      read leaf.render = .ok (some leaf) := by
  intro token leaf
  have accepted : read token = .ok (some leaf) := by rfl
  have clear : ∀ name ∈ leaf.name?, IsClear name := by
    rintro name ⟨⟩
    exact .inl ⟨' ', by decide, rfl⟩
  exact ⟨accepted, clear, (read_render_iff accepted).mpr clear⟩

/-- A name without blanks that has quotes of its own is written without further ones and read as
the name between them, which is another one. -/
theorem bare_quotes_taken_off :
    let leaf := SubjectLeaf.user .equal "\"a\"".toList
    read "user = \"\"a\"\"".toList = .ok (some leaf) ∧
      leaf.render = "user = \"a\"".toList ∧
      read leaf.render = .ok (some (.user .equal "a".toList)) ∧
      read leaf.render ≠ .ok (some leaf) :=
  ⟨by rfl, by rfl, by rfl, by decide⟩

end AccessRules.SubjectLeaf
