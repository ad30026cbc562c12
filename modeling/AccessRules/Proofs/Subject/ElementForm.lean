import AccessRules.Proofs.Address.RoundTrip
import AccessRules.Proofs.Calendar.RoundTrip
import AccessRules.Proofs.Condition.ElementForm
import AccessRules.Subject.Read

/-!
# Rules over subjects and their elements

In a token a quoted name keeps the blanks at its ends; in an element every value is trimmed, and an
empty one is refused. So the element of an accepted rule is read unless a name consists of blanks,
and it is read as the tree of the rule with its names trimmed. Networks and dates are read back as
they are.
-/
namespace AccessRules

/-- The reader of rules over subjects, in text and in elements. -/
def Reader.ofSubjects (limits : Limits) : Reader SubjectLeaf where
  limits := limits
  tokenReaders := [SubjectLeaf.tokenReader id]
  elementReaders := [SubjectLeaf.elementReader id]

namespace SubjectLeaf

/-- The name that the leaf compares with, if it does so with one. -/
def name? : SubjectLeaf → Option Text
  | user _ name => some name
  | group _ name => some name
  | network _ => none
  | date _ _ => none

/-- The leaf with its name trimmed. -/
def trimmed : SubjectLeaf → SubjectLeaf
  | user equality name => user equality name.trim
  | group equality name => group equality name.trim
  | network range => network range
  | date comparison day => date comparison day

/-- The name of a leaf that trimming leaves as it is has no blanks at its ends. -/
theorem trim_of_trimmed_eq {leaf : SubjectLeaf} (kept : leaf.trimmed = leaf) :
    ∀ name ∈ leaf.name?, Text.trim name = name := by
  intro name has
  cases leaf with
  | user equality other =>
    obtain rfl := Option.some.inj has
    exact (user.inj kept).2
  | group equality other =>
    obtain rfl := Option.some.inj has
    exact (group.inj kept).2
  | network range => nomatch has
  | date comparison day => nomatch has

/-- The name of the leaf, if it has one, does not consist of blanks. -/
def IsNamed (leaf : SubjectLeaf) : Prop := ∀ name ∈ leaf.name?, Text.trim name ≠ []

/-- A leaf with a name is named exactly if its name does not consist of blanks. -/
theorem isNamed_iff {leaf : SubjectLeaf} {name : Text} (has : leaf.name? = some name) :
    leaf.IsNamed ↔ name.trim ≠ [] := by
  simp [IsNamed, has]

/-! ## Leaves read from their elements -/

/-- An element of a field with a sign and a value is read from these. -/
theorem readElement_toElement (field : Field) (sign value : Text) :
    readElement (field.toElement sign value) = do
      let leaf ← ofParts field sign.trim value.trim
      return some leaf := by
  have known : Field.ofName? field.name.trim = some field := by
    cases field <;> decide
  have name : (field.toElement sign value).attribute? fieldKey = some field.name := rfl
  have written : (field.toElement sign value).attribute? valueKey = some value := rfl
  have compared : (field.toElement sign value).attribute? signKey = some sign := rfl
  have same : (field.toElement sign value).name = leafElement := rfl
  rw [readElement, if_pos same, name]
  simp only [known, written, compared, Option.getD_some]

/-- A name is compared with if it is not empty. -/
theorem ofParts_equality {field : Field} {form : Equality → Text → SubjectLeaf}
    (kind : (field = .user ∧ form = .user) ∨ (field = .group ∧ form = .group))
    (equality : Equality) (name : Text) :
    ofParts field (Text.trim equality.symbol) name =
      if name = [] then .error (.missingValue field) else .ok (form equality name) := by
  have sign : Text.trim equality.symbol = equality.symbol := by cases equality <;> decide
  rcases kind with ⟨rfl, rfl⟩ | ⟨rfl, rfl⟩ <;>
    simp only [ofParts, sign, Equality.ofSymbol?_symbol]

/-- A network is read back from its parts. -/
theorem ofParts_network (range : Network) :
    ofParts .ip (Text.trim networkSign) (Text.trim range.renderFull) = .ok (.network range) := by
  have solid : Text.trim range.renderFull = range.renderFull :=
    (Text.isTrimmed_of_solid fun c => Network.isBlank_of_mem_renderFull).trim_self
  have filled : range.renderFull ≠ [] := by simp [Network.renderFull]
  have sign : Text.sameWord (Text.trim networkSign) networkSign = true := by decide
  simp only [ofParts, solid, filled, sign, Network.read_renderFull, or_true, ↓reduceIte]

/-- A comparison with a date is read back from its parts. -/
theorem ofParts_date (comparison : Comparison) (day : Date) :
    ofParts .date (Text.trim comparison.symbol) (Text.trim day.render) =
      .ok (.date comparison day) := by
  have solid : Text.trim day.render = day.render :=
    (Text.isTrimmed_of_solid fun c => Date.isBlank_of_mem_render).trim_self
  have filled : day.render ≠ [] := by simp [Date.render]
  have sign : Text.trim comparison.symbol = comparison.symbol := by cases comparison <;> decide
  simp only [ofParts, solid, filled, sign, Comparison.ofSymbol?_symbol, Date.read_render,
    ↓reduceIte]

/-- The element of a named leaf is read as the leaf with its name trimmed. -/
theorem readElement_of_isNamed {leaf : SubjectLeaf} (named : leaf.IsNamed) :
    readElement leaf.toElement = .ok (some leaf.trimmed) := by
  cases leaf with
  | user equality name =>
    have filled : name.trim ≠ [] := named name rfl
    rw [toElement, readElement_toElement, ofParts_equality (.inl ⟨rfl, rfl⟩), if_neg filled]
    rfl
  | group equality name =>
    have filled : name.trim ≠ [] := named name rfl
    rw [toElement, readElement_toElement, ofParts_equality (.inr ⟨rfl, rfl⟩), if_neg filled]
    rfl
  | network range =>
    rw [toElement, readElement_toElement, ofParts_network]
    rfl
  | date comparison day =>
    rw [toElement, readElement_toElement, ofParts_date]
    rfl

/-- The element of a leaf whose name consists of blanks is refused. -/
theorem readElement_of_not_isNamed {leaf : SubjectLeaf} (unnamed : ¬leaf.IsNamed) :
    ∃ field, readElement leaf.toElement = .error (.missingValue field) := by
  cases leaf with
  | user equality name =>
    have empty : name.trim = [] := not_not.mp (mt (isNamed_iff rfl).mpr unnamed)
    rw [toElement, readElement_toElement, ofParts_equality (.inl ⟨rfl, rfl⟩), if_pos empty]
    exact ⟨.user, rfl⟩
  | group equality name =>
    have empty : name.trim = [] := not_not.mp (mt (isNamed_iff rfl).mpr unnamed)
    rw [toElement, readElement_toElement, ofParts_equality (.inr ⟨rfl, rfl⟩), if_pos empty]
    exact ⟨.group, rfl⟩
  | network range => exact absurd (fun name mem => nomatch mem) unnamed
  | date comparison day => exact absurd (fun name mem => nomatch mem) unnamed

/-! ## Leaves of accepted tokens -/

/-- The value of a leaf that is made is not empty. -/
theorem filled_of_ofParts {field : Field} {sign value : Text} {leaf : SubjectLeaf}
    (made : ofParts field sign value = .ok leaf) : ∀ name ∈ leaf.name?, name ≠ [] := by
  unfold ofParts at made
  split at made
  · contradiction
  · rename_i filled
    repeat' split at made
    all_goals first | contradiction | obtain rfl := Except.ok.inj made
    · rintro name ⟨⟩
      exact filled
    · rintro name ⟨⟩
      exact filled
    · exact fun name mem => nomatch mem
    · exact fun name mem => nomatch mem

/-- The name of a leaf that is read is not empty. -/
theorem filled_of_read {token : Text} {leaf : SubjectLeaf}
    (accepted : read token = .ok (some leaf)) : ∀ name ∈ leaf.name?, name ≠ [] := by
  unfold read at accepted
  split at accepted
  · simp at accepted
  · obtain ⟨value, -, accepted⟩ := bind_eq_ok.mp accepted
    obtain ⟨found, made, same⟩ := bind_eq_ok.mp accepted
    obtain rfl := Option.some.inj (Except.ok.inj same)
    exact filled_of_ofParts made

/-- An answer is a condition only if a leaf was read. -/
theorem leaf_of_answer {result : Except LeafFault (Option SubjectLeaf)} {source : Text}
    {condition : Condition SubjectLeaf}
    (answered : answer id source result = .ok (some condition)) :
    ∃ leaf, result = .ok (some leaf) ∧ condition = .leaf leaf := by
  rcases result with fault | _ | leaf
  · contradiction
  · simp [answer] at answered
  · exact ⟨leaf, rfl, (Option.some.inj (Except.ok.inj answered)).symm⟩

end SubjectLeaf

/-- A single reader is asked for its answer. -/
theorem firstAnswer_single {α β : Type} (source : α)
    (reader : α → Except RuleError (Option β)) : firstAnswer source [reader] = reader source := by
  rw [firstAnswer]
  rcases reader source with error | _ | answer <;> rfl

namespace Reader

open SubjectLeaf

variable {limits : Limits}

/-- A token that is accepted is a literal or a leaf that is read from it. -/
theorem readToken_ofSubjects {token : Text} {condition : Condition SubjectLeaf}
    (accepted : (ofSubjects limits).readToken token = .ok condition) :
    (∃ value, condition = .literal value) ∨
      ∃ leaf, SubjectLeaf.read token = .ok (some leaf) ∧ condition = .leaf leaf := by
  unfold readToken at accepted
  split at accepted
  · exact .inl ⟨true, (Except.ok.inj accepted).symm⟩
  · split at accepted
    · exact .inl ⟨false, (Except.ok.inj accepted).symm⟩
    · rw [ofSubjects, firstAnswer_single] at accepted
      obtain ⟨_ | tree, answered, success⟩ := bind_eq_ok.mp accepted
      · contradiction
      · obtain rfl := Except.ok.inj success
        exact .inr (leaf_of_answer answered)

/-- Tokens are read as trees of one level. -/
theorem isShallow_ofSubjects : (ofSubjects limits).IsShallow := by
  intro token condition accepted
  rcases readToken_ofSubjects accepted with ⟨value, rfl⟩ | ⟨leaf, -, rfl⟩ <;> exact Nat.le_refl 1

/-- Of the elements of leaves, those of named ones are read, each as the leaf with its name
trimmed. -/
theorem readsLeaves_ofSubjects :
    (ofSubjects limits).ReadsLeaves SubjectLeaf.IsNamed SubjectLeaf.trimmed := by
  constructor
  · intro leaf
    have different : leafElement ≠ operatorElement := by decide
    cases leaf <;> exact different
  · intro leaf condition
    rw [readLeafElement, ofSubjects, firstAnswer_single, elementReader]
    by_cases named : leaf.IsNamed
    · have found : SubjectLeaf.readElement (Predicate.toElement leaf) =
          .ok (some leaf.trimmed) := readElement_of_isNamed named
      rw [found]
      exact ⟨fun same => ⟨named, (Except.ok.inj same).symm⟩, fun known => known.2 ▸ rfl⟩
    · obtain ⟨field, refused⟩ := readElement_of_not_isNamed named
      have fault : SubjectLeaf.readElement (Predicate.toElement leaf) =
          .error (.missingValue field) := refused
      rw [fault]
      exact ⟨fun same => by contradiction, fun known => absurd known.1 named⟩

/-- No name in the tree of an accepted rule is empty. -/
theorem filled_of_accepted {rule : Text} {condition : Condition SubjectLeaf}
    (accepted : (ofSubjects limits).read rule = .ok condition) :
    ∀ leaf ∈ condition.leaves, ∀ name ∈ leaf.name?, name ≠ [] := by
  refine (derives_of_read accepted).forall_leaves fun token tree success => ?_
  rcases readToken_ofSubjects success with ⟨value, rfl⟩ | ⟨leaf, found, rfl⟩
  · simp [Condition.leaves]
  · intro other mem
    obtain rfl := List.mem_singleton.mp mem
    exact filled_of_read found

/-- The element of the tree of an accepted rule is read exactly if no name in it consists of
blanks, and it is read as the tree with its names trimmed. If no name has blanks at its ends, it is
read as the tree of the rule, which holds of the same subjects. -/
theorem readElement_of_read {rule : Text} {condition : Condition SubjectLeaf}
    (accepted : (ofSubjects limits).read rule = .ok condition) :
    (∀ answer, (ofSubjects limits).readElement? (some condition.toElement) = .ok answer ↔
      (∀ leaf ∈ condition.leaves, leaf.IsNamed) ∧ answer = condition.map SubjectLeaf.trimmed) ∧
    ((∀ leaf ∈ condition.leaves, leaf.trimmed = leaf) →
      (ofSubjects limits).readElement? (some condition.toElement) = .ok condition) := by
  have exactly : ∀ answer, (ofSubjects limits).readElement? (some condition.toElement) =
      .ok answer ↔ (∀ leaf ∈ condition.leaves, leaf.IsNamed) ∧
        answer = condition.map SubjectLeaf.trimmed :=
    readElementWithin_toElement readsLeaves_ofSubjects condition
      (depth_le_of_read isShallow_ofSubjects accepted)
  refine ⟨exactly, fun kept => (exactly condition).mpr ⟨fun leaf mem => ?_, ?_⟩⟩
  · intro name has empty
    rw [trim_of_trimmed_eq (kept leaf mem) name has] at empty
    exact filled_of_accepted accepted leaf mem name has empty
  · exact (condition.map_eq_self kept).symm

/-- A rule with a quoted name, a network and a date is read again from its element. -/
theorem readElement_of_quoted_name :
    let reader := ofSubjects {}
    let rule := "user = \"ann lee\" or not (ip 10.0.0.0/8) and date > 2024-2-29".toList
    ∃ condition, reader.read rule = .ok condition ∧
      (∀ leaf ∈ condition.leaves, leaf.IsNamed ∧ leaf.trimmed = leaf) ∧
      reader.readElement? (some condition.toElement) = .ok condition := by
  have accepted : (ofSubjects {}).read
      "user = \"ann lee\" or not (ip 10.0.0.0/8) and date > 2024-2-29".toList =
        .ok (.or [.leaf (.user .equal "ann lee".toList),
          .and [.not (.leaf (.network ⟨.v4 0x0A000000, 8, by decide⟩)),
            .leaf (.date .greater ⟨2024, 2, 29, by decide⟩)]]) := by rfl
  obtain ⟨exactly, kept⟩ := readElement_of_read accepted
  have same := kept (by decide)
  exact ⟨_, accepted, fun leaf mem => ⟨((exactly _).mp same).1 leaf mem,
    (by decide : ∀ leaf ∈ _, SubjectLeaf.trimmed leaf = leaf) leaf mem⟩, same⟩

/-- A name that is a quoted blank is accepted in a rule and refused in the element of its tree. -/
theorem quoted_blank_refused :
    let reader := ofSubjects {}
    let condition := Condition.leaf (SubjectLeaf.user .equal " ".toList)
    reader.read "user = \" \"".toList = .ok condition ∧
      reader.readElement? (some condition.toElement) =
        .error (.malformed (.reported "user value missing") (some condition.toElement.render)) :=
  ⟨by rfl, by rfl⟩

end Reader

end AccessRules
