import AccessRules.Proofs.Rule.OperandSplit

/-!
# Abridgements of one text

Two abridgements of a text that both leave no group have markers in the same places and differ in
their digits only. Keywords are looked for outside markers, so both are split at the same
boundaries, and each operand of one stands for the same part of the full text as that of the other.
-/
namespace AccessRules

open AccessRules.Bracket

/-- Both short texts have markers in the place of the same groups of the full text. -/
inductive Twins (names others : Text → Text → Prop) : (full left right : Text) → Prop where
  | nil : Twins names others [] [] []
  | char (c : Char) {full left right : Text} (further : Twins names others full left right) :
      Twins names others (c :: full) (c :: left) (c :: right)
  | group {digits ciphers body full left right : Text} (number : Marker.IsNumber digits)
      (cipher : Marker.IsNumber ciphers) (group : IsGroup body) (named : names digits body)
      (named_other : others ciphers body) (further : Twins names others full left right) :
      Twins names others (body ++ full) (Marker.ofDigits digits ++ left)
        (Marker.ofDigits ciphers ++ right)

/-! ## Groups at the front of a text -/

/-- A text has at most one group at its front. -/
theorem Bracket.IsGroup.front_unique {body other rest further : Text} (group : IsGroup body)
    (second : IsGroup other) (same : body ++ rest = other ++ further) :
    body = other ∧ rest = further := by
  have filled {body : Text} (group : IsGroup body) : body ≠ [] := by
    obtain ⟨inner, rfl, -⟩ := group
    simp
  have longer {short between : Text} (first : IsGroup short) (whole : IsGroup (short ++ between)) :
      between = [] := by
    by_contra more
    exact (whole.open_of_append (filled first) more).1 (balanced_iff.mp first.balanced).2
  rcases List.append_eq_append_iff.mp same with ⟨between, rfl, rfl⟩ | ⟨between, rfl, rfl⟩
  · obtain rfl := longer group second
    simp
  · obtain rfl := longer second group
    simp

/-- Where a parted text begins with an opening bracket, the full text begins with no group. -/
theorem Abridges.not_parted {names : Text → Text → Prop} {body full short : Text}
    (group : IsGroup body) (abridges : Abridges names (body ++ full) ('(' :: short)) :
    ¬Parted ('(' :: short) := by
  have settled := (Bracket.balanced_iff.mp group.balanced).2
  obtain ⟨front, back, same, first, -⟩ := abridges.split_full (.inl settled)
  have balanced := first.balanced_iff.mp group.balanced
  obtain ⟨inner, rfl, -⟩ := group
  generalize whole : '(' :: inner ++ [')'] = body at first
  cases first with
  | nil => simp at whole
  | group number group named further => simp [Marker.ofDigits] at same
  | @char c rest abridged further =>
    intro parted
    obtain ⟨rfl, tail⟩ := List.cons.inj same
    have closes : 0 < List.count ')' ('(' :: abridged) := by
      rw [← balanced.closed]
      simp
    have mem : ')' ∈ abridged := by simpa using List.count_pos_iff.mp closes
    exact parted [] short rfl (by simp [tail, mem])

namespace Twins

variable {names others : Text → Text → Prop} {full left right : Text}

/-! ## Twins and abridgements -/

/-- Twins are twins in the other order. -/
theorem symm (twins : Twins names others full left right) :
    Twins others names full right left := by
  induction twins with
  | nil => exact .nil
  | char c further ih => exact .char c ih
  | group number cipher group named other further ih =>
    exact .group cipher number group other named ih

/-- The left one is an abridgement of the full text. -/
theorem abridges (twins : Twins names others full left right) : Abridges names full left := by
  induction twins with
  | nil => exact .nil
  | char c further ih => exact .char c ih
  | group number cipher group named other further ih => exact .group number group named ih

/-- An abridgement is its own twin. -/
theorem of_self (abridges : Abridges names full left) : Twins names names full left left := by
  induction abridges with
  | nil => exact .nil
  | char c further ih => exact .char c ih
  | group number group named further ih => exact .group number number group named named ih

/-- Abridgements of one text that leave no group are twins. -/
theorem of_parted (first : Abridges names full left) (second : Abridges others full right)
    (parted : Parted left) (parted_other : Parted right) :
    Twins names others full left right := by
  induction first generalizing right with
  | nil =>
    obtain rfl := second.eq_of_unbracketed List.not_mem_nil
    exact .nil
  | @char c full short further ih =>
    generalize whole : c :: full = text at second
    cases second with
    | nil => contradiction
    | char d later =>
      obtain ⟨rfl, rfl⟩ := List.cons.inj whole
      exact .char c (ih later (parted.part (List.suffix_cons c _).isInfix)
        (parted_other.part (List.suffix_cons c _).isInfix))
    | @group digits body rest short number group named later =>
      -- A group that only the other text replaces would be left over here.
      have opens : c = '(' := by
        obtain ⟨inner, rfl, -⟩ := group
        exact (List.cons.inj whole).1
      have again := Abridges.char c further
      rw [whole, opens] at again
      exact absurd (opens ▸ parted) (again.not_parted group)
  | @group digits body full short number group named further ih =>
    generalize whole : body ++ full = text at second
    cases second with
    | nil =>
      obtain ⟨inner, rfl, -⟩ := group
      simp at whole
    | @char d rest abridged later =>
      have opens : '(' = d := by
        obtain ⟨inner, rfl, -⟩ := group
        exact (List.cons.inj whole).1
      have again := Abridges.char d later
      rw [← whole, ← opens] at again
      exact absurd (opens ▸ parted_other) (again.not_parted group)
    | @group ciphers other rest abridged cipher second named_other later =>
      obtain ⟨rfl, rfl⟩ := group.front_unique second whole
      exact .group number cipher group named named_other
        (ih later (parted.part (List.suffix_append _ _).isInfix)
          (parted_other.part (List.suffix_append _ _).isInfix))

/-! ## Ends -/

/-- Twins are empty together. -/
theorem eq_nil_iff (twins : Twins names others full left right) : left = [] ↔ right = [] := by
  cases twins with
  | nil => simp
  | char c further => simp
  | group number cipher group named other further => simp [Marker.ofDigits]

/-- Twins begin with the same character. -/
theorem head?_eq (twins : Twins names others full left right) : left.head? = right.head? := by
  cases twins with
  | nil => rfl
  | char c further => rfl
  | group number cipher group named other further => rfl

/-- Twins end in the same character. -/
theorem getLast?_eq (twins : Twins names others full left right) :
    left.getLast? = right.getLast? := by
  induction twins with
  | nil => rfl
  | char c further ih => rw [List.getLast?_cons, List.getLast?_cons, ih]
  | @group digits ciphers body full left right number cipher group named other further ih =>
    rw [List.getLast?_append, List.getLast?_append, ih, Marker.getLast?_ofDigits,
      Marker.getLast?_ofDigits]

/-- What is no at sign stands for itself at the front of both. -/
theorem split_front {front back : Text} (twins : Twins names others full (front ++ back) right)
    (unmarked : '@' ∉ front) :
    ∃ later rest, full = front ++ later ∧ right = front ++ rest ∧
      Twins names others later back rest := by
  induction front generalizing full right with
  | nil => exact ⟨full, right, rfl, rfl, twins⟩
  | cons c front ih =>
    simp only [List.mem_cons, not_or] at unmarked
    generalize whole : c :: front ++ back = short at twins
    cases twins with
    | nil => simp at whole
    | char d further =>
      obtain ⟨rfl, rfl⟩ := List.cons.inj whole
      obtain ⟨later, rest, rfl, rfl, last⟩ := ih further unmarked.2
      exact ⟨later, rest, rfl, rfl, last⟩
    | group number cipher group named other further =>
      exact absurd (List.cons.inj whole).1 (Ne.symm unmarked.1)

/-- Both are cut alike before a character that is no mark. -/
theorem split_char {front back : Text} {c : Char}
    (twins : Twins names others full (front ++ c :: back) right)
    (other : Marker.isMark c = false) :
    ∃ earlier later before after, full = earlier ++ c :: later ∧ right = before ++ c :: after ∧
      Twins names others earlier front before ∧ Twins names others later back after := by
  generalize whole : front ++ c :: back = short at twins
  induction twins generalizing front with
  | nil => simp at whole
  | @char d full left right further ih =>
    cases front with
    | nil =>
      obtain ⟨rfl, rfl⟩ := List.cons.inj whole
      exact ⟨[], full, [], right, rfl, rfl, .nil, further⟩
    | cons e front =>
      obtain ⟨rfl, rest⟩ := List.cons.inj whole
      obtain ⟨earlier, later, before, after, rfl, rfl, first, second⟩ := ih rest
      exact ⟨e :: earlier, later, e :: before, after, rfl, rfl, .char e first, second⟩
  | @group digits ciphers body full left right number cipher group named named_other further ih =>
    rcases Text.append_eq_append_cons whole.symm with ⟨between, inside, -⟩ | ⟨between, rfl, rest⟩
    · have mem : c ∈ Marker.ofDigits digits := by simp [inside]
      rw [Marker.isMark_of_mem number mem] at other
      contradiction
    · obtain ⟨earlier, later, before, after, rfl, rfl, first, second⟩ := ih rest.symm
      exact ⟨body ++ earlier, later, Marker.ofDigits ciphers ++ before, after, by simp, by simp,
        .group number cipher group named named_other first, second⟩

/-- What is no mark stands for itself at the end of both. -/
theorem split_back {front back : Text} (twins : Twins names others full (front ++ back) right)
    (other : ∀ c ∈ back, Marker.isMark c = false) :
    ∃ earlier before, full = earlier ++ back ∧ right = before ++ back ∧
      Twins names others earlier front before := by
  cases back with
  | nil => exact ⟨full, right, by simp, by simp, by simpa using twins⟩
  | cons c back =>
    obtain ⟨earlier, later, before, after, rfl, rfl, first, last⟩ :=
      twins.split_char (other c (by simp))
    have free : '@' ∉ back := fun mem => absurd (other '@' (by simp [mem])) (by decide)
    rw [← List.append_nil back] at last
    obtain ⟨rest, further, rfl, rfl, ended⟩ := last.split_front free
    obtain rfl := ended.abridges.eq_of_unmarked List.not_mem_nil
    obtain rfl := ended.eq_nil_iff.mp rfl
    exact ⟨earlier, before, by simp, by simp, first⟩

/-- What is no mark is dropped alike at the end of both. -/
theorem dropEndWhile (twins : Twins names others full left right) {p : Char → Bool}
    (unmarked : ∀ c, p c = true → Marker.isMark c = false) :
    ∃ kept dropped, full = kept ++ dropped ∧ left = left.dropEndWhile p ++ dropped ∧
      right = right.dropEndWhile p ++ dropped ∧ (∀ c ∈ dropped, p c = true) ∧
      Twins names others kept (left.dropEndWhile p) (right.dropEndWhile p) := by
  obtain ⟨back, split, kind⟩ := Text.exists_eq_dropEndWhile p left
  have last : ∀ c ∈ (left.dropEndWhile p).getLast?, p c = false := fun c final => by
    have other := List.head?_dropWhile_not p left.reverse
    rw [Text.dropEndWhile, List.getLast?_reverse] at final
    rw [Option.mem_def.mp final] at other
    exact other
  rw [split] at twins
  obtain ⟨earlier, before, rfl, rfl, first⟩ :=
    twins.split_back fun c mem => unmarked c (kind c mem)
  have same : Text.dropEndWhile p (before ++ back) = before :=
    Text.dropEndWhile_append kind fun c final => last c (first.getLast?_eq ▸ final)
  rw [same]
  exact ⟨earlier, back, rfl, split, rfl, kind, first⟩

/-- What follows a word without at signs is found in both. -/
theorem afterWord? (twins : Twins names others full left right) {word rest : Text}
    (unmarked : '@' ∉ word) (found : Text.afterWord? word left = some rest) :
    ∃ written later back, full = written ++ later ∧ left = written ++ rest ∧
      right = written ++ back ∧ written.lower = word ∧
      Text.afterWord? word right = some back ∧ Twins names others later rest back := by
  obtain ⟨written, rfl, lower⟩ := Text.afterWord?_eq_some_iff.mp found
  have free : '@' ∉ written := Text.not_mem_of_lower lower unmarked
  obtain ⟨later, back, rfl, rfl, further⟩ := twins.split_front free
  exact ⟨written, later, back, rfl, rfl, rfl, lower,
    Text.afterWord?_eq_some_iff.mpr ⟨written, rfl, lower⟩, further⟩

end Twins

/-! ## Boundaries -/

namespace Junction

variable {junction : Junction}

/-- Boundaries hold no at signs. -/
theorem IsBoundary.unmarked {lead word trail : Text}
    (boundary : junction.IsBoundary lead word trail) : '@' ∉ lead ++ word ++ trail := by
  intro mem
  rcases List.mem_append.mp mem with front | last
  · rcases List.mem_append.mp front with first | inside
    · exact absurd (boundary.leading '@' first) (by decide)
    · exact absurd (isAlpha_of_mem boundary.written '@' inside) (by decide)
  · exact absurd (boundary.trailing '@' last) (by decide)

/-- All that may trail a keyword is taken away with it. -/
theorem head?_of_afterBoundary? {text after : Text}
    (found : junction.afterBoundary? text = some after) :
    ∀ c ∈ after.head?, trails c = false := by
  unfold afterBoundary? at found
  repeat' split at found
  all_goals try contradiction
  rename_i rest _ _
  obtain rfl := Option.some.inj found
  intro c head
  have kind := List.head?_dropWhile_not trails rest
  rwa [Option.mem_def.mp head] at kind

/-- A boundary is found where its last character before the keyword stands, with all that may trail
the keyword. -/
theorem IsBoundary.afterBoundary? {c : Char} {word trail : Text}
    (boundary : junction.IsBoundary [c] word trail) (rest : Text) :
    junction.afterBoundary? (c :: (word ++ trail ++ rest)) = some (rest.dropWhile trails) := by
  have kept : leads c = true := boundary.leading c (by simp)
  have found : Text.afterWord? junction.keyword (word ++ trail ++ rest) = some (trail ++ rest) :=
    Text.afterWord?_eq_some_iff.mpr ⟨word, by simp, boundary.written⟩
  have trailing := boundary.trailing
  have unfinished := boundary.unfinished
  cases trail with
  | nil => exact absurd rfl unfinished
  | cons d trail =>
    have next : trails d = true := trailing d (by simp)
    have dropped : (trail ++ rest).dropWhile trails = rest.dropWhile trails :=
      List.dropWhile_append_of_pos fun e mem => trailing e (by simp [mem])
    simp only [Junction.afterBoundary?, kept, found, List.cons_append, ↓reduceIte, next, dropped]

/-- No boundary begins in a marker, so a search passes over it. -/
theorem search_marker (junction : Junction) {digits : Text} (number : Marker.IsNumber digits)
    (text : Text) :
    Text.search junction.afterBoundary? (Marker.ofDigits digits ++ text) =
      (Text.search junction.afterBoundary? text).map fun (before, after) =>
        (Marker.ofDigits digits ++ before, after) := by
  have passed : ∀ front : Text, (∀ c ∈ front, leads c = false) →
      Text.search junction.afterBoundary? (front ++ text) =
        (Text.search junction.afterBoundary? text).map fun (before, after) =>
          (front ++ before, after) := by
    intro front other
    induction front with
    | nil => simp
    | cons c front ih =>
      have refused : junction.afterBoundary? (c :: (front ++ text)) = none := by
        simp [Junction.afterBoundary?, other c (by simp)]
      rw [List.cons_append, Text.search, refused, ih fun d mem => other d (by simp [mem])]
      simp [Function.comp_def]
  apply passed
  intro c mem
  by_contra lead
  have mark := Marker.isMark_of_mem number mem
  rw [isMark_of_leads (by simpa using lead)] at mark
  contradiction

end Junction

namespace Twins

variable {names others : Text → Text → Prop} {full left right : Text} {junction : Junction}

/-- A boundary at the front of one is at the front of the other. -/
theorem afterBoundary? {c : Char} {after : Text} (twins : Twins names others full left right)
    (found : junction.afterBoundary? (c :: left) = some after) :
    ∃ word trail later back, junction.IsBoundary [c] word trail ∧
      full = word ++ trail ++ later ∧ left = word ++ trail ++ after ∧
      right = word ++ trail ++ back ∧ junction.afterBoundary? (c :: right) = some back ∧
      Twins names others later after back := by
  have start := Junction.head?_of_afterBoundary? found
  obtain ⟨d, word, trail, boundary, same⟩ := Junction.afterBoundary?_eq_some found
  obtain ⟨rfl, rfl⟩ := List.cons.inj same
  have free := boundary.unmarked
  rw [List.append_assoc, List.mem_append, not_or] at free
  obtain ⟨later, back, rfl, rfl, further⟩ := twins.split_front free.2
  have again := boundary.afterBoundary? back
  have kept : back.dropWhile Junction.trails = back := by
    rw [further.head?_eq] at start
    cases back with
    | nil => rfl
    | cons e back => simp [start e (by simp)]
  rw [kept] at again
  exact ⟨word, trail, later, back, boundary, rfl, rfl, rfl, again, further⟩

/-- A search finds the same boundary in both. -/
theorem search {front after : Text} (twins : Twins names others full left right)
    (found : Text.search junction.afterBoundary? left = some (front, after)) :
    ∃ c word trail earlier later before back, junction.IsBoundary [c] word trail ∧
      full = earlier ++ (c :: word ++ trail) ++ later ∧
      left = front ++ (c :: word ++ trail) ++ after ∧
      right = before ++ (c :: word ++ trail) ++ back ∧
      Text.search junction.afterBoundary? right = some (before, back) ∧
      Twins names others earlier front before ∧ Twins names others later after back := by
  induction twins generalizing front with
  | nil => simp [Text.search] at found
  | @char c full left right further ih =>
    rw [Text.search] at found
    cases here : junction.afterBoundary? (c :: left) with
    | some rest =>
      rw [here] at found
      obtain ⟨rfl, rfl⟩ := Prod.mk.inj (Option.some.inj found)
      obtain ⟨word, trail, later, back, boundary, rfl, rfl, rfl, again, last⟩ :=
        further.afterBoundary? here
      exact ⟨c, word, trail, [], later, [], back, boundary, by simp, by simp, by simp,
        by rw [Text.search, again], .nil, last⟩
    | none =>
      rw [here] at found
      obtain ⟨⟨before, rest⟩, success, same⟩ := Option.map_eq_some_iff.mp found
      obtain ⟨rfl, rfl⟩ := Prod.mk.inj same
      obtain ⟨d, word, trail, earlier, later, kept, back, boundary, rfl, rfl, rfl, again, first,
        last⟩ := ih success
      have absent : junction.afterBoundary? (c :: (kept ++ (d :: word ++ trail) ++ back)) =
          none := by
        by_contra some
        obtain ⟨answer, accepted⟩ := Option.ne_none_iff_exists'.mp some
        obtain ⟨_, _, _, _, -, -, -, -, twice, -⟩ := further.symm.afterBoundary? accepted
        rw [here] at twice
        contradiction
      refine ⟨d, word, trail, c :: earlier, later, c :: kept, back, boundary, by simp, by simp,
        by simp, ?_, .char c first, last⟩
      rw [Text.search, absent, again]
      rfl
  | @group digits ciphers body full left right number cipher group named other further ih =>
    rw [Junction.search_marker _ number] at found
    obtain ⟨⟨before, rest⟩, success, same⟩ := Option.map_eq_some_iff.mp found
    obtain ⟨rfl, rfl⟩ := Prod.mk.inj same
    obtain ⟨d, word, trail, earlier, later, kept, back, boundary, rfl, rfl, rfl, again, first,
      last⟩ := ih success
    refine ⟨d, word, trail, body ++ earlier, later, Marker.ofDigits ciphers ++ kept, back, boundary,
      by simp, by simp, by simp, ?_, .group number cipher group named other first, last⟩
    rw [Junction.search_marker _ cipher, again]
    rfl

/-- Both are split at the same boundary. -/
theorem split? {before after : Text} (twins : Twins names others full left right)
    (found : junction.split? left = some (before, after)) :
    ∃ lead word trail part later front back, junction.IsBoundary lead word trail ∧
      full = part ++ (lead ++ word ++ trail) ++ later ∧
      left = before ++ (lead ++ word ++ trail) ++ after ∧
      right = front ++ (lead ++ word ++ trail) ++ back ∧
      junction.split? right = some (front, back) ∧
      Twins names others part before front ∧ Twins names others later after back := by
  obtain ⟨⟨earlier, rest⟩, success, same⟩ := Option.map_eq_some_iff.mp found
  obtain ⟨rfl, rfl⟩ := Prod.mk.inj same
  obtain ⟨c, word, trail, start, later, kept, back, boundary, rfl, rfl, rfl, again, first, last⟩ :=
    twins.search success
  obtain ⟨part, dropped, rfl, left_split, right_split, leading, ends⟩ :=
    first.dropEndWhile (p := Junction.leads) fun d => Junction.isMark_of_leads
  refine ⟨dropped ++ [c], word, trail, part, later, _, back, ?_, by simp, ?_, ?_, ?_, ends, last⟩
  · refine ⟨by simp, fun d mem => ?_, boundary.written, boundary.unfinished, boundary.trailing⟩
    rcases List.mem_append.mp mem with inside | final
    · exact leading d inside
    · exact boundary.leading d final
  · conv_lhs => rw [left_split]
    simp
  · conv_lhs => rw [right_split]
    simp
  · rw [Junction.split?, again]
    rfl

/-- One is split nowhere if the other is. -/
theorem split?_eq_none (twins : Twins names others full left right)
    (absent : junction.split? left = none) : junction.split? right = none := by
  by_contra some
  obtain ⟨⟨before, after⟩, found⟩ := Option.ne_none_iff_exists'.mp some
  obtain ⟨_, _, _, _, _, _, _, -, -, -, -, again, -⟩ := twins.symm.split? found
  rw [absent] at again
  contradiction

end Twins

end AccessRules
