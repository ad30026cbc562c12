import AccessRules.Proofs.Rule.Extraction

/-!
# Clean texts and expansion

A text is intact if no marker is written in it and none arises where a group is replaced. A text
that abridges an intact one is expanded to it, so a marker that is found in the abridged text is one
that stands for a group. A text is clean, and therefore intact, if no marker is written in it and no
group begins after an angle bracket.
-/
namespace AccessRules

open AccessRules.Bracket

/-! ## Texts without markers -/

/-- No marker is written in the text. -/
def Unmarked (text : Text) : Prop :=
  ∀ digits, digits ≠ [] → (∀ c ∈ digits, Text.isDecimalDigit c = true) →
    ¬Marker.ofDigits digits <:+: text

/-- No marker is read anywhere in a text in which none is written. -/
theorem Unmarked.read?_eq_none {text front back : Text} (unmarked : Unmarked text)
    (split : text = front ++ back) : Marker.read? back = none := by
  cases found : Marker.read? back with
  | none => rfl
  | some answer =>
    obtain ⟨digits, rest⟩ := answer
    obtain ⟨rfl, filled, decimal⟩ := Marker.read?_eq_some_iff.mp found
    exact absurd ⟨front, rest, by simp [split]⟩ (unmarked digits filled decimal)

/-- No marker is found in a text in which none is written. -/
theorem Unmarked.find?_eq_none {text : Text} (unmarked : Unmarked text) :
    Marker.find? text = none := by
  have nowhere : Text.search Marker.read? text = none :=
    Text.search_eq_none_iff.mpr fun front back split _ => unmarked.read?_eq_none split
  rw [Marker.find?, nowhere]
  rfl

/-- In a text in which no marker is found none is written. -/
theorem unmarked_of_find? {text : Text} (none : Marker.find? text = .none) : Unmarked text := by
  rintro digits filled decimal ⟨front, back, rfl⟩
  have nowhere := Text.search_eq_none_iff.mp (Option.map_eq_none_iff.mp none)
  have refused := nowhere front (Marker.ofDigits digits ++ back) (by simp)
    (by simp [Marker.ofDigits])
  rw [Marker.read?_eq_some_iff.mpr ⟨rfl, filled, decimal⟩] at refused
  contradiction

/-- Parts of a text without markers have none. -/
theorem Unmarked.part {text part : Text} (unmarked : Unmarked text) (inside : part <:+: text) :
    Unmarked part :=
  fun digits filled decimal written => unmarked digits filled decimal (written.trans inside)

/-- No marker is written in the text, and none arises where a group is replaced. -/
structure IsClean (text : Text) : Prop where
  /-- No marker is written. -/
  unmarked : ∀ digits, digits ≠ [] → (∀ c ∈ digits, Text.isDecimalDigit c = true) →
    ¬Marker.ofDigits digits <:+: text
  /-- No group begins after a closing angle bracket. -/
  apart : ¬['>', '('] <:+: text

/-- Parts of a clean text are clean. -/
theorem IsClean.part {text part : Text} (clean : IsClean text) (inside : part <:+: text) :
    IsClean part :=
  ⟨fun digits filled decimal written => clean.unmarked digits filled decimal (written.trans inside),
    fun touching => clean.apart (touching.trans inside)⟩

/-- No marker is found in a clean text. -/
theorem IsClean.find?_eq_none {text : Text} (clean : IsClean text) :
    Marker.find? text = none :=
  Unmarked.find?_eq_none clean.unmarked

/-- A text in which no marker is found and no group begins after an angle bracket is clean. -/
theorem isClean_of_find? {text : Text} (none : Marker.find? text = .none)
    (apart : ¬['>', '('] <:+: text) : IsClean text :=
  ⟨unmarked_of_find? none, apart⟩

/-- What lacks a character and begins where it stands is empty. -/
theorem eq_nil_of_prefix_cons {part text : Text} {c : Char} (lacks : c ∉ part)
    (first : part <+: c :: text) : part = [] := by
  rcases List.prefix_cons_iff.mp first with none | ⟨later, rfl, -⟩
  · exact none
  · simp at lacks

/-- What lacks a character occurs on one side of it. -/
theorem infix_append_cons {part front back : Text} {c : Char} (lacks : c ∉ part)
    (inside : part <:+: front ++ c :: back) : part <:+: front ∨ part <:+: back := by
  rcases List.infix_append_iff.mp inside with earlier | later | ⟨left, right, rfl, ends, starts⟩
  · exact .inl earlier
  · rcases List.infix_cons_iff.mp later with first | later
    · obtain rfl := eq_nil_of_prefix_cons lacks first
      exact .inl List.nil_infix
    · exact .inr later
  · obtain rfl := eq_nil_of_prefix_cons (fun mem => lacks (by simp [mem])) starts
    rw [List.append_nil]
    exact .inl ends.isInfix

/-- A character that neither begins a marker nor stands before a group may be put in front. -/
theorem IsClean.cons {c : Char} {text : Text} (clean : IsClean text) (unmarked : c ≠ '@')
    (apart : c ≠ '>') : IsClean (c :: text) := by
  constructor
  · intro digits filled decimal written
    rcases List.infix_cons_iff.mp written with first | later
    · exact unmarked (List.cons_prefix_cons.mp first).1.symm
    · exact clean.unmarked digits filled decimal later
  · intro touching
    rcases List.infix_cons_iff.mp touching with first | later
    · exact apart (List.cons_prefix_cons.mp first).1.symm
    · exact clean.apart later

/-- Characters that neither begin a marker nor stand before a group may be put in front. -/
theorem IsClean.append_left {front text : Text} (clean : IsClean text)
    (other : ∀ c ∈ front, c ≠ '@' ∧ c ≠ '>') : IsClean (front ++ text) := by
  induction front with
  | nil => exact clean
  | cons c front ih =>
    have rest := ih fun d mem => other d (by simp [mem])
    obtain ⟨unmarked, apart⟩ := other c (by simp)
    exact rest.cons unmarked apart

/-- Characters that neither end a marker nor begin a group may be put behind. -/
theorem IsClean.append_right {text back : Text} (clean : IsClean text)
    (other : ∀ c ∈ back, c ≠ '@' ∧ c ≠ '(') : IsClean (text ++ back) := by
  induction back generalizing text with
  | nil => rwa [List.append_nil]
  | cons c back ih =>
    obtain ⟨unmarked, unopened⟩ := other c (by simp)
    have more : IsClean (text ++ [c]) := by
      constructor
      · intro digits filled decimal written
        rcases List.infix_concat_iff.mp written with last | earlier
        · rcases List.suffix_concat_iff.mp last with none | ⟨front, whole, -⟩
          · simp [Marker.ofDigits] at none
          · have ends := Marker.getLast?_ofDigits digits
            rw [whole, List.getLast?_concat] at ends
            exact unmarked (Option.some.inj ends)
        · exact clean.unmarked digits filled decimal earlier
      · intro touching
        rcases List.infix_concat_iff.mp touching with last | earlier
        · rcases List.suffix_concat_iff.mp last with none | ⟨front, whole, -⟩
          · contradiction
          · have ends : ['>', '('].getLast? = some c := by rw [whole, List.getLast?_concat]
            exact unopened (Option.some.inj ends).symm
        · exact clean.apart earlier
    have whole := ih more fun d mem => other d (by simp [mem])
    simpa using whole

/-- Clean texts with a character between them that is of no marker and opens no group are clean. -/
theorem IsClean.join {front back : Text} {c : Char} (left : IsClean front) (right : IsClean back)
    (other : c ≠ '@' ∧ c ≠ '<' ∧ c ≠ '>' ∧ c ≠ '(') (decimal : Text.isDecimalDigit c = false) :
    IsClean (front ++ c :: back) := by
  constructor
  · intro digits filled numeric written
    have lacks : c ∉ Marker.ofDigits digits := fun mem => by
      simp only [Marker.ofDigits, List.cons_append, List.mem_cons, List.mem_append, other,
        List.not_mem_nil, or_false, false_or] at mem
      rw [numeric c mem] at decimal
      contradiction
    rcases infix_append_cons lacks written with first | second
    · exact left.unmarked digits filled numeric first
    · exact right.unmarked digits filled numeric second
  · intro touching
    have lacks : c ∉ ['>', '('] := by simp [other]
    rcases infix_append_cons lacks touching with first | second
    · exact left.apart first
    · exact right.apart second

/-! ## Markers that lack their last mark -/

/-- The marker with the given digits without its last mark. -/
def Marker.unended (digits : Text) : Text := '@' :: '<' :: digits ++ ['>']

/-- What is in a marker without its last mark is in the marker. -/
theorem Marker.mem_ofDigits_of_unended {digits : Text} {c : Char} (mem : c ∈ unended digits) :
    c ∈ ofDigits digits := by
  have whole : ofDigits digits = unended digits ++ ['@'] := by simp [ofDigits, unended]
  rw [whole]
  exact List.mem_append_left _ mem

/-- A marker that lacks its last mark stands right before a group. With the first mark of the marker
that replaces the group it is whole. -/
def HasUnended (text : Text) : Prop :=
  ∃ digits group, digits ≠ [] ∧ (∀ c ∈ digits, Text.isDecimalDigit c = true) ∧ IsGroup group ∧
    Marker.unended digits ++ group <:+: text

/-- What is so in a part is so in the text. -/
theorem HasUnended.of_part {text part : Text} (unended : HasUnended part)
    (inside : part <:+: text) : HasUnended text := by
  obtain ⟨digits, group, filled, decimal, grouped, written⟩ := unended
  exact ⟨digits, group, filled, decimal, grouped, written.trans inside⟩

/-- No marker is written in the text, and none arises where a group is replaced. -/
structure IsIntact (text : Text) : Prop where
  /-- No marker is written. -/
  unmarked : Unmarked text
  /-- No marker that lacks its last mark stands before a group. -/
  ended : ¬HasUnended text

/-- Parts of an intact text are intact. -/
theorem IsIntact.part {text part : Text} (intact : IsIntact text) (inside : part <:+: text) :
    IsIntact part :=
  ⟨intact.unmarked.part inside, fun unended => intact.ended (unended.of_part inside)⟩

/-- Clean texts are intact. -/
theorem IsClean.isIntact {text : Text} (clean : IsClean text) : IsIntact text := by
  refine ⟨clean.unmarked, ?_⟩
  rintro ⟨digits, group, -, -, ⟨inner, rfl, -⟩, written⟩
  refine clean.apart (.trans ⟨'@' :: '<' :: digits, inner ++ [')'], ?_⟩ written)
  simp [Marker.unended]

/-! ## Expansion -/

/-- What is no at sign stands for itself at the front. -/
theorem Abridges.split_front {names : Text → Text → Prop} {full front back : Text}
    (abridges : Abridges names full (front ++ back)) (unmarked : '@' ∉ front) :
    ∃ rest, full = front ++ rest ∧ Abridges names rest back := by
  induction front generalizing full with
  | nil => exact ⟨full, rfl, abridges⟩
  | cons c front ih =>
    simp only [List.mem_cons, not_or] at unmarked
    generalize whole : c :: front ++ back = short at abridges
    cases abridges with
    | nil => simp at whole
    | char d further =>
      obtain ⟨rfl, rfl⟩ := List.cons.inj whole
      obtain ⟨rest, rfl, later⟩ := ih further unmarked.2
      exact ⟨rest, rfl, later⟩
    | group number group named further =>
      exact absurd (List.cons.inj whole).1 (Ne.symm unmarked.1)

/-- Where a marker is read in an abridged text, it stands for a group, or all of it but the last
character is written before a group, with the marker of which it is read as one. -/
theorem Abridges.split_reading {names : Text → Text → Prop} {full digits rest : Text}
    (abridges : Abridges names full (Marker.ofDigits digits ++ rest)) (unmarked : Unmarked full)
    (filled : digits ≠ []) (decimal : ∀ c ∈ digits, Text.isDecimalDigit c = true) :
    (∃ body later, full = body ++ later ∧ names digits body ∧ Abridges names later rest) ∨
      HasUnended full ∧ rest.head? = some '<' := by
  generalize whole : Marker.ofDigits digits ++ rest = short at abridges
  cases abridges with
  | nil => simp [Marker.ofDigits] at whole
  | @group others body later abridged number group named further =>
    have first : Marker.read? (Marker.ofDigits digits ++ rest) = some (digits, rest) :=
      Marker.read?_eq_some_iff.mpr ⟨rfl, filled, decimal⟩
    rw [whole, number.read?] at first
    obtain ⟨rfl, rfl⟩ := Prod.mk.inj (Option.some.inj first)
    exact .inl ⟨body, later, rfl, named, further⟩
  | @char c full abridged further =>
    -- The first mark is written in the full text, so all up to the last one are.
    have split : '@' :: ('<' :: digits ++ ['>'] ++ '@' :: rest) = c :: abridged := by
      rw [← whole]
      simp [Marker.ofDigits]
    obtain ⟨rfl, rfl⟩ := List.cons.inj split
    have free : '@' ∉ '<' :: digits ++ ['>'] := fun mem => by
      simp only [List.cons_append, List.mem_cons, List.mem_append, List.not_mem_nil, or_false,
        Char.reduceEq, false_or] at mem
      exact absurd (decimal _ mem) (by decide)
    obtain ⟨later, rfl, last⟩ := further.split_front free
    generalize ends : '@' :: rest = short at last
    cases last with
    | nil => contradiction
    | @char d full abridged further =>
      obtain ⟨rfl, rfl⟩ := List.cons.inj ends
      exact absurd ⟨[], full, by simp [Marker.ofDigits]⟩ (unmarked digits filled decimal)
    | @group others body full abridged number group named further =>
      obtain ⟨-, rfl⟩ := List.cons.inj ends
      exact .inr ⟨⟨digits, body, filled, decimal, group, [], full, by simp [Marker.unended]⟩, rfl⟩

/-- Where a marker is read in an abridged text whose full text is intact, a group was replaced. -/
theorem Abridges.split_marker {names : Text → Text → Prop} {full digits rest : Text}
    (abridges : Abridges names full (Marker.ofDigits digits ++ rest)) (intact : IsIntact full)
    (filled : digits ≠ []) (decimal : ∀ c ∈ digits, Text.isDecimalDigit c = true) :
    ∃ body later, full = body ++ later ∧ names digits body ∧ Abridges names later rest :=
  (abridges.split_reading intact.unmarked filled decimal).resolve_right
    fun unended => intact.ended unended.1

namespace ClauseStore

variable {store : ClauseStore}

/-- Clauses are put back in the place of their markers. -/
theorem substitute_of_abridges {short : Text} {cut : Text.Cut Text}
    (cuts : Text.IsCut Marker.read? short cut) {full : Text} {used : Nat}
    (abridges : Abridges store.Names full short) (intact : IsIntact full)
    (room : used + full.byteLength ≤ store.maxExpansion) :
    ∃ replaced, store.substitute (used + cut.lead.byteLength) cut.finds = .ok replaced ∧
      cut.lead ++ replaced = full := by
  induction cuts generalizing full used with
  | nil =>
    have none : full = [] := abridges.eq_of_unmarked List.not_mem_nil
    exact ⟨[], rfl, none.symm⟩
  | @skip c text cut refused further ih =>
    generalize whole : c :: text = short at abridges
    cases abridges with
    | nil => contradiction
    | @char d full short later =>
      obtain ⟨rfl, rfl⟩ := List.cons.inj whole
      simp only [Text.byteLength_cons] at room
      have rest : IsIntact full := intact.part ⟨[c], [], by simp⟩
      have less : used + c.utf8Size + full.byteLength ≤ store.maxExpansion := by omega
      obtain ⟨replaced, success, joined⟩ := ih later rest less
      refine ⟨replaced, ?_, by simp [joined]⟩
      rw [← success]
      simp [Nat.add_assoc]
    | group number group named later =>
      rw [whole, number.read?] at refused
      contradiction
  | @find text rest digits cut accepted further ih =>
    obtain ⟨rfl, filled, decimal⟩ := Marker.read?_eq_some_iff.mp accepted
    obtain ⟨body, later, rfl, named, remains⟩ := abridges.split_marker intact filled decimal
    simp only [Text.byteLength_append] at room
    have last : IsIntact later := intact.part ⟨body, [], by simp⟩
    have less : used + body.byteLength + later.byteLength ≤ store.maxExpansion := by omega
    obtain ⟨replaced, success, rfl⟩ := ih remains last less
    have fits : ¬store.maxExpansion < used + body.byteLength := by omega
    have clause : store.clause? digits = some body := named
    refine ⟨body ++ (cut.lead ++ replaced), ?_, by simp⟩
    simp only [Text.byteLength_nil, Nat.add_zero, substitute, clause, fits, ↓reduceIte, success]
    simp [bind, Except.bind, pure, Except.pure]

/-- A text without markers is left as it is. -/
theorem expandWithin_of_unmarked {text : Text} (unmarked : Unmarked text) (passes : Nat) :
    store.expandWithin passes text = .ok text := by
  cases passes with
  | zero => rfl
  | succ passes =>
    have cuts := Text.isCut_cut Marker.shortens_read? text
    have none := (cuts.finds_eq_nil_iff rfl).mpr fun front back => unmarked.read?_eq_none
    simp [expandWithin, none]

/-- An abridged text is expanded to its full text if that is intact and there is room for it. -/
theorem expand_of_intact {full short : Text} (abridges : Abridges store.Names full short)
    (intact : IsIntact full) (room : full.byteLength ≤ store.maxExpansion) :
    store.expand short = .ok full := by
  have cuts := Text.isCut_cut Marker.shortens_read? short
  have space : 0 + full.byteLength ≤ store.maxExpansion := by omega
  obtain ⟨replaced, success, joined⟩ := substitute_of_abridges cuts abridges intact space
  have expansion : store.expandWithin (store.clauses.size + 1) short = .ok full := by
    unfold expandWithin
    dsimp only
    split
    · rename_i none
      rw [List.isEmpty_iff.mp none] at success
      obtain rfl := Except.ok.inj success
      rw [List.append_nil, cuts.lead_of_finds_eq_nil (List.isEmpty_iff.mp none)] at joined
      rw [joined]
    · rw [Nat.zero_add] at success
      rw [success]
      change store.expandWithin store.clauses.size (_ ++ replaced) = _
      rw [joined]
      exact expandWithin_of_unmarked intact.unmarked _
  have fits : ¬store.maxExpansion < full.byteLength := by omega
  rw [expand, expansion]
  simp [bind, Except.bind, pure, Except.pure, fits]

/-- An abridged text is expanded to its full text if that is clean and there is room for it. -/
theorem expand_of_abridges {full short : Text} (abridges : Abridges store.Names full short)
    (clean : IsClean full) (room : full.byteLength ≤ store.maxExpansion) :
    store.expand short = .ok full :=
  expand_of_intact abridges clean.isIntact room

end ClauseStore

end AccessRules
