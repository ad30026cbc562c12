import AccessRules.Proofs.Rule.SingleTokens
import AccessRules.Proofs.Subject.ElementForm

/-!
# Quoted names

Quotes are known to the reader of leaves only. A rule is looked at for markers, brackets and
keywords before, inside quotes as outside, and its tabs and line ends become spaces. So a quoted
name comes through exactly if it has none of these.
-/
namespace AccessRules

/-- The rule that compares a field with a quoted name. -/
def Field.quotedRule (field : Field) (name : Text) : Text :=
  field.name ++ " = ".toList ++ '"' :: (name ++ ['"'])

/-- Nothing in the name is taken for a part of the rule around it. -/
structure IsQuotable (name : Text) : Prop where
  /-- It is not empty. -/
  filled : name ≠ []
  /-- It has no brackets. -/
  unbracketed : ∀ c ∈ name, Bracket.isBracket c = false
  /-- It has no tabs and no line ends. -/
  plain : ∀ c ∈ name, IsPlain c
  /-- It has nothing of the form of a marker. -/
  unmarked : Marker.find? name = none
  /-- No keyword divides it. -/
  undivided : ∀ junction : Junction, junction.split? name = none

/-- Brackets, tabs and line ends are looked for character by character. -/
theorem bare_of_all {text : Text}
    (each : text.all (fun c => !Bracket.isBracket c && decide (IsPlain c)) = true) :
    ∀ c ∈ text, Bracket.isBracket c = false ∧ IsPlain c := by
  simpa using List.all_eq_true.mp each

namespace Field

variable {field : Field} {name : Text}

/-- The rule has no brackets, tabs and line ends if the name has none. -/
theorem bare_quotedRule (field : Field)
    (bare : ∀ c ∈ name, Bracket.isBracket c = false ∧ IsPlain c) :
    ∀ c ∈ field.quotedRule name, Bracket.isBracket c = false ∧ IsPlain c := by
  have before : ∀ c ∈ field.name ++ " = ".toList, Bracket.isBracket c = false ∧ IsPlain c := by
    apply bare_of_all
    cases field <;> decide
  intro c mem
  rcases List.mem_append.mp mem with front | after
  · exact before c front
  · rcases List.mem_cons.mp after with rfl | rest
    · exact ⟨rfl, by decide⟩
    · rcases List.mem_append.mp rest with inside | last
      · exact bare c inside
      · obtain rfl := List.mem_singleton.mp last
        exact ⟨rfl, by decide⟩

/-- The rule has no blanks at its ends. -/
theorem isTrimmed_quotedRule (field : Field) (name : Text) : (field.quotedRule name).IsTrimmed := by
  have ends : field.quotedRule name = field.name ++ " = ".toList ++ '"' :: name ++ ['"'] := by
    simp [quotedRule]
  rw [ends]
  cases field <;> exact Text.isTrimmed_between (by decide) (by decide) _

/-- Tabs and line ends are read as spaces in the name only. -/
theorem map_plainSpace_quotedRule (field : Field) (name : Text) :
    (field.quotedRule name).map plainSpace = field.quotedRule (name.map plainSpace) := by
  have around : (field.name ++ " = ".toList).map plainSpace = field.name ++ " = ".toList := by
    cases field <;> decide
  rw [quotedRule, List.map_append, around, List.map_cons, List.map_append]
  rfl

/-- A marker in the rule is one in the name. -/
theorem find?_quotedRule (none : Marker.find? name = .none) :
    Marker.find? (field.quotedRule name) = .none := by
  apply Unmarked.find?_eq_none
  intro digits filled decimal inside
  have marked : ∀ {text : Text}, '@' ∉ text → ¬Marker.ofDigits digits <:+: text :=
    fun absent written => absent (written.subset (by simp [Marker.ofDigits]))
  have quote : '"' ∉ Marker.ofDigits digits :=
    Marker.not_mem_ofDigits (by decide) (by decide) decimal
  rcases infix_append_cons quote inside with before | after
  · exact marked (by cases field <;> decide) before
  · rcases infix_append_cons quote after with within | beyond
    · exact unmarked_of_find? none digits filled decimal within
    · exact marked List.not_mem_nil beyond

/-- The name is part of the rule. -/
theorem infix_quotedRule (field : Field) (name : Text) : name <:+: field.quotedRule name :=
  ⟨field.name ++ " = ".toList ++ ['"'], ['"'], by simp [quotedRule]⟩

/-- A keyword that divides the rule divides the name. -/
theorem split?_quotedRule (junction : Junction) :
    junction.split? (field.quotedRule name) = none ↔ junction.split? name = none := by
  constructor
  · intro none
    exact Junction.split?_eq_none_of_part none (field.infix_quotedRule name)
  · intro none
    apply Junction.split?_append_cons (by decide) (by decide) (by decide)
    · cases field <;> cases junction <;> decide
    · apply Junction.split?_append_cons (by decide) (by decide) (by decide) none
      cases junction <;> decide

/-- The rule is an atom exactly if no keyword divides the name. -/
theorem shape_quotedRule :
    Shape.of (field.quotedRule name) = .atom ↔
      ∀ junction : Junction, junction.split? name = none := by
  rw [Shape.of_eq_atom_iff]
  constructor
  · rintro ⟨undivided, -⟩ junction
    exact (split?_quotedRule junction).mp (undivided junction)
  · intro undivided
    have ends : (field.quotedRule name).reverse =
        '"' :: (field.name ++ " = \"".toList ++ name).reverse := by
      simp [quotedRule]
    refine ⟨fun junction => (split?_quotedRule junction).mpr (undivided junction), ?_, ?_, ?_⟩
    · apply Junction.dangling?_eq_none (isTrimmed_quotedRule field name)
      intro junction
      constructor
      · cases field <;> cases junction <;> rfl
      · rw [Junction.finishes, ends]
        cases junction <;> rfl
    · cases field <;> rfl
    · cases field <;> rfl

end Field

namespace SubjectLeaf

variable {field : Field} {form : Equality → Text → SubjectLeaf} {name : Text}

/-- The quotes of a quoted name are taken off, whatever is between them. -/
theorem unquote_quoted (name : Text) : unquote ('"' :: (name ++ ['"'])) = .ok name := by
  simp [unquote]

/-- A quoted name has no blanks at its ends, and the one before it is trimmed. -/
theorem trim_quoted (name : Text) :
    Text.trim (' ' :: '"' :: (name ++ ['"'])) = '"' :: (name ++ ['"']) := by
  have solid : Text.IsTrimmed ('"' :: (name ++ ['"'])) :=
    Text.isTrimmed_between (by decide) (by decide) name
  have blank : ∀ c ∈ [' '], Text.isBlank c = true := List.forall_mem_singleton.mpr rfl
  have none : ∀ c ∈ ([] : Text), Text.isBlank c = true := fun c mem => absurd mem List.not_mem_nil
  simpa using solid.trim_eq blank none

/-- A token with a quoted name is a leaf with that name, unless the name is empty. -/
theorem read_quotedRule
    (kind : (field = .user ∧ form = .user) ∨ (field = .group ∧ form = .group)) (name : Text) :
    SubjectLeaf.read (field.quotedRule name) =
      if name = [] then .error (.missingValue field) else .ok (some (form .equal name)) := by
  have parts := ofParts_equality kind .equal name
  have known : Field.ofName? ((field.quotedRule name).takeWhile (!endsField ·)) = some field := by
    cases field <;> rfl
  have sign : (Text.trimStart ((field.quotedRule name).dropWhile (!endsField ·))).takeWhile
      isSignChar = Text.trim Equality.equal.symbol := by
    cases field <;> rfl
  have rest : (Text.trimStart ((field.quotedRule name).dropWhile (!endsField ·))).dropWhile
      isSignChar = ' ' :: '"' :: (name ++ ['"']) := by
    cases field <;> rfl
  rw [SubjectLeaf.read, known]
  dsimp only
  rw [rest, trim_quoted, unquote_quoted, sign]
  show (ofParts field (Text.trim Equality.equal.symbol) name >>= _) = _
  rw [parts]
  by_cases empty : name = []
  · rw [if_pos empty, if_pos empty]
    rfl
  · rw [if_neg empty, if_neg empty]
    rfl

end SubjectLeaf

namespace Reader

open SubjectLeaf

variable {reader : Reader SubjectLeaf} {others : List (TokenReader SubjectLeaf)} {field : Field}
  {form : Equality → Text → SubjectLeaf}

/-- A token with a quoted name is read as the leaf with that name, unless the name is empty. -/
theorem readToken_quotedRule
    (kind : (field = .user ∧ form = .user) ∨ (field = .group ∧ form = .group))
    (subjects : reader.tokenReaders = tokenReader id :: others) (name : Text) :
    reader.readToken (field.quotedRule name) =
      if name = [] then .error (.malformed (.reported (LeafFault.missingValue field).message)
        (some (field.quotedRule name)))
      else .ok (.leaf (form .equal name)) := by
  have holds : Text.sameWord (field.quotedRule name) "true".toList = false := by
    cases field <;> rfl
  have fails : Text.sameWord (field.quotedRule name) "false".toList = false := by
    cases field <;> rfl
  rw [readToken, holds, fails, subjects, firstAnswer, tokenReader, read_quotedRule kind]
  by_cases empty : name = []
  · rw [if_pos empty, if_pos empty]
    rfl
  · rw [if_neg empty, if_neg empty]
    rfl

/-- A rule with a quoted name is read as the leaf with exactly that name if the name is quotable,
and else it is not. -/
theorem read_quotedRule_iff
    (kind : (field = .user ∧ form = .user) ∨ (field = .group ∧ form = .group))
    (subjects : reader.tokenReaders = tokenReader id :: others) {name : Text}
    (long : (field.quotedRule name).byteLength ≤ reader.limits.maxLength) :
    reader.read (field.quotedRule name) = .ok (.leaf (form .equal name)) ↔ IsQuotable name := by
  have trimmed : ∀ name, Text.trim (field.quotedRule name) = field.quotedRule name :=
    fun name => (field.isTrimmed_quotedRule name).trim_self
  constructor
  · intro accepted
    have same : Text.trim ((field.quotedRule name).map plainSpace) =
        field.quotedRule (name.map plainSpace) := by
      rw [field.map_plainSpace_quotedRule, trimmed]
    have bare : (field.quotedRule (name.map plainSpace)).head? ≠ some '(' := by
      intro first
      cases field <;> exact absurd (Option.some.inj first) (by decide)
    have unmarked := (readExpression_of_read accepted).1
    obtain ⟨free, shape, token⟩ := atom_of_read (by rwa [same]) accepted
    rw [same] at free shape token
    rw [readToken_quotedRule kind subjects] at token
    by_cases empty : name.map plainSpace = []
    · rw [if_pos empty] at token
      contradiction
    · rw [if_neg empty] at token
      have kept : name.map plainSpace = name := by
        rcases kind with ⟨-, rfl⟩ | ⟨-, rfl⟩ <;> simpa using token
      rw [kept] at free shape empty
      have inside := field.infix_quotedRule name
      exact ⟨empty, fun c mem => free c (inside.subset mem), map_plainSpace_eq_self_iff.mp kept,
        (unmarked.part inside).find?_eq_none, Field.shape_quotedRule.mp shape⟩
  · intro quotable
    have filled : field.quotedRule name ≠ [] := by simp [Field.quotedRule]
    have bare := field.bare_quotedRule fun c mem =>
      ⟨quotable.unbracketed c mem, quotable.plain c mem⟩
    rw [read_of_atom filled (trimmed name) (fun c mem => (bare c mem).1)
      (fun c mem => (bare c mem).2) (Field.find?_quotedRule quotable.unmarked)
      (Field.shape_quotedRule.mpr quotable.undivided) long, readToken_quotedRule kind subjects,
      if_neg quotable.filled]

/-- A rule that compares the groups or the user with a quoted name, and is no longer than the limit,
is read as a single leaf with that name, character for character, exactly if the name is quotable.
The leaf holds of those in the group of that name, or of the user of that name. -/
theorem quoted_name_kept_iff (subjects : reader.tokenReaders = tokenReader id :: others)
    (name : Text) :
    ((Field.group.quotedRule name).byteLength ≤ reader.limits.maxLength →
        (reader.read (Field.group.quotedRule name) = .ok (.leaf (.group .equal name)) ↔
          IsQuotable name)) ∧
      ((Field.user.quotedRule name).byteLength ≤ reader.limits.maxLength →
        (reader.read (Field.user.quotedRule name) = .ok (.leaf (.user .equal name)) ↔
          IsQuotable name)) ∧
      ∀ subject : Subject,
        Condition.holds subject (.leaf (SubjectLeaf.group .equal name)) = subject.inGroup name ∧
          Condition.holds subject (.leaf (SubjectLeaf.user .equal name)) =
            (subject.user == name) := by
  refine ⟨?_, ?_, fun subject => ⟨rfl, rfl⟩⟩
  · exact read_quotedRule_iff (.inr ⟨rfl, rfl⟩) subjects
  · exact read_quotedRule_iff (.inl ⟨rfl, rfl⟩) subjects

/-- Keywords at the ends of a quoted name or inside its words, the word for negation and what is
almost a marker do no harm. The rule about the user needs one byte less than the one about the
group. -/
theorem quoted_name_kept :
    let name := "or land, not @<x>@ and".toList
    let reader := ofSubjects {}
    let strict := ofSubjects { maxLength := 31 }
    (Field.group.quotedRule name).byteLength ≤ reader.limits.maxLength ∧
      (Field.user.quotedRule name).byteLength ≤ strict.limits.maxLength ∧
      strict.limits.maxLength < (Field.group.quotedRule name).byteLength ∧ IsQuotable name ∧
      reader.read (Field.group.quotedRule name) = .ok (.leaf (.group .equal name)) ∧
      reader.read (Field.user.quotedRule name) = .ok (.leaf (.user .equal name)) ∧
      strict.read (Field.user.quotedRule name) = .ok (.leaf (.user .equal name)) := by
  intro name reader strict
  have bare : ∀ c ∈ name, Bracket.isBracket c = false ∧ IsPlain c := bare_of_all (by decide)
  have quotable : IsQuotable name := by
    refine ⟨by decide, fun c mem => (bare c mem).1, fun c mem => (bare c mem).2, by decide,
      fun junction => ?_⟩
    cases junction <;> decide
  have long : (Field.group.quotedRule name).byteLength ≤ reader.limits.maxLength := by decide
  have short : (Field.user.quotedRule name).byteLength ≤ strict.limits.maxLength := by decide
  obtain ⟨groups, users, -⟩ :=
    quoted_name_kept_iff (show reader.tokenReaders = tokenReader id :: [] from rfl) name
  obtain ⟨-, strictly, -⟩ :=
    quoted_name_kept_iff (show strict.tokenReaders = tokenReader id :: [] from rfl) name
  exact ⟨long, short, by decide, quotable, (groups long).mpr quotable,
    (users (by decide)).mpr quotable, (strictly short).mpr quotable⟩

/-- A quoted name is refused for what looks like a marker or a bracket in it, is cut at a keyword
and loses its tabs. -/
theorem quoted_name_lost :
    let reader := ofSubjects {}
    reader.read (Field.group.quotedRule "@<0>@".toList) =
        .error (.malformed .reservedMarker (some "@<0>@".toList)) ∧
      reader.read (Field.group.quotedRule "a\tb".toList) =
        .ok (.leaf (.group .equal "a b".toList)) ∧
      reader.read (Field.group.quotedRule "x (y)".toList) =
        .error (.malformed .unseparatedBrackets (some "group = \"x (y)\"".toList)) ∧
      reader.read (Field.group.quotedRule "research and development".toList) =
        .error (.malformed (.reported "unterminated quoted value")
          (some "group = \"research".toList)) :=
  ⟨by rfl, by rfl, by rfl, by rfl⟩

end Reader

end AccessRules
