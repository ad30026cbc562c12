import AccessRules.Proofs.Rule.Storage

/-!
# Groups that are put back

Groups are taken out of a text and put back later. Each comes back in its place, unless the text
before a group together with the marker of the group reads as another marker. Then a closing
bracket comes to stand before an angle bracket, and the text is garbled. A text in which no marker
that lacks its last mark stands before a group is never garbled, and nothing goes wrong with it but
that a limit is exceeded. This is stated once for both: `risky` says whether such may stand there.
-/
namespace AccessRules

open AccessRules.Bracket

/-! ## Outcomes -/

/-- A value is good, and a refusal is bad. -/
def Ends {α : Type} (bad : RuleError → Prop) (good : α → Prop) : Except RuleError α → Prop
  | .ok value => good value
  | .error error => bad error

namespace Ends

variable {α β : Type} {bad worse : RuleError → Prop} {good better : α → Prop}
  {result : Except RuleError α}

/-- What ends well step by step ends well as a whole. -/
theorem bind {next : α → Except RuleError β} {further : β → Prop} (ends : Ends bad good result)
    (later : ∀ value, good value → Ends bad further (next value)) :
    Ends bad further (result >>= next) := by
  cases result with
  | error error => exact ends
  | ok value => exact later value ends

/-- What holds of a value if it is good holds of the outcome. -/
theorem mono (ends : Ends bad good result) (more : ∀ value, good value → better value) :
    Ends bad better result := by
  cases result with
  | error error => exact ends
  | ok value => exact more value ends

/-- What holds of a refusal if it is bad holds of the outcome. -/
theorem weaken (ends : Ends bad good result) (more : ∀ error, bad error → worse error) :
    Ends worse good result := by
  cases result with
  | error error => exact more error ends
  | ok value => exact ends

/-- Two things may be known of the outcome. -/
theorem and (ends : Ends bad good result) (known : Ends worse better result) :
    Ends (fun error => bad error ∧ worse error) (fun value => good value ∧ better value)
      result := by
  cases result with
  | error error => exact ⟨ends, known⟩
  | ok value => exact ⟨ends, known⟩

/-- What is known of a value holds of the outcome. -/
theorem and_of_ok {known : α → Prop} (ends : Ends bad good result)
    (each : ∀ value, result = .ok value → known value) :
    Ends bad (fun value => known value ∧ good value) result := by
  cases result with
  | error error => exact ends
  | ok value => exact ⟨each value rfl, ends⟩

/-- A value of an outcome is good. -/
theorem good_of_ok {value : α} (ends : Ends bad good result) (success : result = .ok value) :
    good value := by
  rwa [success] at ends

/-- A refusal of an outcome is bad. -/
theorem bad_of_error {error : RuleError} (ends : Ends bad good result)
    (refused : result = .error error) : bad error := by
  rwa [refused] at ends

end Ends

/-- A value is good, and a refusal is for an exceeded limit or comes from a risk that is taken. -/
def Settles {α : Type} (risky : Prop) (good : α → Prop) : Except RuleError α → Prop :=
  Ends (fun error => error.isExceeded = true ∨ risky) good

/-- At a risk only values need be good. -/
theorem Settles.of_risk {α : Type} {risky : Prop} {good : α → Prop} {result : Except RuleError α}
    (risk : risky) (each : ∀ value, result = .ok value → good value) :
    Settles risky good result := by
  cases result with
  | error error => exact .inr risk
  | ok value => exact each value rfl

/-! ## Garbled texts -/

/-- A closing bracket stands before an angle bracket. -/
def Garbled (text : Text) : Prop := [')', '<'] <:+: text

/-- No marker is written in the text, and unless it is risky none arises where a group is
replaced. -/
structure IsTame (risky : Prop) (text : Text) : Prop where
  /-- No marker is written. -/
  unmarked : Unmarked text
  /-- No marker that lacks its last mark stands before a group. -/
  ended : risky ∨ ¬HasUnended text

/-- Intact texts are not risky. -/
theorem IsIntact.isTame {text : Text} (intact : IsIntact text) : IsTame False text :=
  ⟨intact.unmarked, .inr intact.ended⟩

/-- Parts of a tame text are tame. -/
theorem IsTame.part {risky : Prop} {text part : Text} (tame : IsTame risky text)
    (inside : part <:+: text) : IsTame risky part :=
  ⟨tame.unmarked.part inside, tame.ended.imp_right fun ended unended =>
    ended (unended.of_part inside)⟩

/-- What is garbled is so with more text before it. -/
theorem Garbled.append {text : Text} (garbled : Garbled text) (front : Text) :
    Garbled (front ++ text) :=
  garbled.trans (List.suffix_append _ _).isInfix

/-- A garbled part garbles the text. -/
theorem Garbled.append_right {text : Text} (garbled : Garbled text) (back : Text) :
    Garbled (text ++ back) :=
  garbled.trans (List.prefix_append _ _).isInfix

/-- A marker holds only its marks and decimal digits, of any script. -/
theorem Marker.not_mem_ofDigits {digits : Text} {c : Char}
    (other : c ≠ '@' ∧ c ≠ '<' ∧ c ≠ '>') (digitless : Text.isDecimalDigit c = false)
    (decimal : ∀ d ∈ digits, Text.isDecimalDigit d = true) : c ∉ ofDigits digits := by
  have absent : c ∉ digits := by
    intro mem
    rw [decimal c mem] at digitless
    contradiction
  simp [ofDigits, other, absent]

/-- A marker holds no brackets, with decimal digits of any script. -/
theorem Marker.not_mem_of_isBracket {digits : Text} {c : Char} (bracket : isBracket c = true)
    (decimal : ∀ d ∈ digits, Text.isDecimalDigit d = true) : c ∉ ofDigits digits := by
  rcases eq_of_isBracket bracket with rfl | rfl
  · exact not_mem_ofDigits (by decide) (by decide) decimal
  · exact not_mem_ofDigits (by decide) (by decide) decimal

/-- No marker goes on after a group. -/
theorem Unmarked.group_append {group text : Text} (first : Unmarked group) (grouped : IsGroup group)
    (rest : Unmarked text) : Unmarked (group ++ text) := by
  obtain ⟨inner, rfl, -⟩ := grouped
  intro digits filled decimal written
  have lacks : ')' ∉ Marker.ofDigits digits := Marker.not_mem_of_isBracket rfl decimal
  have split : '(' :: inner ++ [')'] ++ text = '(' :: inner ++ ')' :: text := by simp
  rw [split] at written
  rcases infix_append_cons lacks written with before | after
  · exact first digits filled decimal (before.trans (List.prefix_append _ _).isInfix)
  · exact rest digits filled decimal after

/-- What is no marker leads a cut at markers. -/
theorem head?_of_cut {text : Text} {cut : Text.Cut Text} {c : Char}
    (cuts : Text.IsCut Marker.read? text cut) (head : text.head? = some c) (other : c ≠ '@') :
    cut.lead.head? = some c := by
  cases cuts with
  | nil => simp at head
  | skip refused further => exact head
  | find accepted further =>
    obtain ⟨rfl, -, -⟩ := Marker.read?_eq_some_iff.mp accepted
    exact absurd (Option.some.inj head).symm other

namespace ClauseStore

/-- All clauses are groups without markers. -/
structure Sound (store : ClauseStore) : Prop where
  /-- Clauses are groups. -/
  grouped : store.Grouped
  /-- No marker is written in a clause. -/
  unmarked : ∀ clause ∈ store.clauses, Unmarked clause

/-- The digits name a clause that is the group, or a garbled one if it is risky. -/
def Keeps (store : ClauseStore) (risky : Prop) (digits body : Text) : Prop :=
  ∃ clause, store.Names digits clause ∧ (clause = body ∨ risky ∧ Garbled clause)

/-- The store is sound and keeps all names of the one before. -/
structure Continues (store next : ClauseStore) : Prop where
  /-- Clauses keep their names. -/
  names : ∀ digits clause, store.Names digits clause → next.Names digits clause
  /-- The store is sound. -/
  sound : next.Sound

variable {store : ClauseStore} {risky : Prop}

/-- A sound store continues itself. -/
theorem Continues.refl (sound : store.Sound) : store.Continues store := ⟨fun _ _ => id, sound⟩

/-- One continuation after another. -/
theorem Continues.trans {middle next : ClauseStore} (first : store.Continues middle)
    (second : middle.Continues next) : store.Continues next :=
  ⟨fun _ _ named => second.names _ _ (first.names _ _ named), second.sound⟩

/-- Groups that are kept stay so. -/
theorem Continues.keeps {next : ClauseStore} (continues : store.Continues next)
    (digits body : Text) (keeps : store.Keeps risky digits body) :
    next.Keeps risky digits body := by
  obtain ⟨clause, named, same⟩ := keeps
  exact ⟨clause, continues.names _ _ named, same⟩

/-- Without risk what is kept is what is named. -/
theorem keeps_false {digits body : Text} (keeps : store.Keeps False digits body) :
    store.Names digits body := by
  obtain ⟨clause, named, same | ⟨risk, -⟩⟩ := keeps
  · exact same ▸ named
  · exact risk.elim

/-- Each name stands for one clause. -/
theorem Names.functional {digits body other : Text} (named : store.Names digits body)
    (again : store.Names digits other) : body = other :=
  Option.some.inj (named.symm.trans again)

/-! ## Expansion -/

/-- Clauses of a sound store leave no marker where they are put. -/
theorem unmarked_of_substitute (sound : store.Sound) {text : Text} {cut : Text.Cut Text}
    (cuts : Text.IsCut Marker.read? text cut) {used : Nat} {replaced : Text}
    (success : store.substitute used cut.finds = .ok replaced) :
    Unmarked (cut.lead ++ replaced) := by
  induction cuts generalizing used replaced with
  | nil =>
    obtain rfl := Except.ok.inj success
    intro digits filled decimal written
    simp [Marker.ofDigits] at written
  | @skip c text cut refused further ih =>
    intro digits filled decimal written
    rcases List.infix_cons_iff.mp written with first | later
    · -- A marker at the front would have been read there before clauses were put after it.
      have abridges := abridges_of_substitute sound.grouped (.skip refused further) success
      obtain ⟨rest, split⟩ := first
      rw [← show Marker.ofDigits digits ++ rest = c :: cut.lead ++ replaced from split] at abridges
      have opens : '(' ∉ Marker.ofDigits digits := Marker.not_mem_of_isBracket rfl decimal
      obtain ⟨front, back, same, left, -⟩ :=
        abridges.split_full (.inl (unclosed_eq_zero_of_not_mem opens))
      obtain rfl := left.eq_of_unbracketed opens
      rw [same, Marker.read?_eq_some_iff.mpr ⟨rfl, filled, decimal⟩] at refused
      contradiction
    · exact ih success digits filled decimal later
  | @find text rest digits cut accepted further ih =>
    obtain ⟨clause, others, used, named, later, rfl⟩ := clause_of_substitute success
    have stored := (Names.mem named).1
    rw [List.nil_append, List.append_assoc]
    exact (sound.unmarked clause stored).group_append (sound.grouped clause stored) (ih later)

/-- Clauses are put in the place of the groups that they are, or the text is garbled. -/
theorem substitute_settles (sound : store.Sound) {short : Text} {cut : Text.Cut Text}
    (cuts : Text.IsCut Marker.read? short cut) {full : Text} (used : Nat)
    (abridges : Abridges (store.Keeps risky) full short) (tame : IsTame risky full) :
    Settles risky (fun replaced => cut.lead ++ replaced = full ∨
      risky ∧ Garbled (cut.lead ++ replaced)) (store.substitute used cut.finds) := by
  induction cuts generalizing full used with
  | nil => exact .inl (abridges.eq_of_unmarked List.not_mem_nil).symm
  | @skip c text cut refused further ih =>
    generalize whole : c :: text = short at abridges
    cases abridges with
    | nil => contradiction
    | @char d full short later =>
      obtain ⟨rfl, rfl⟩ := List.cons.inj whole
      refine (ih used later (tame.part ⟨[c], [], by simp⟩)).mono fun replaced good => ?_
      exact good.imp (congrArg (c :: ·)) (And.imp_right fun garbled => garbled.append [c])
    | group number group named later =>
      rw [whole, number.read?] at refused
      contradiction
  | @find text rest digits cut accepted further ih =>
    obtain ⟨rfl, filled, decimal⟩ := Marker.read?_eq_some_iff.mp accepted
    rcases abridges.split_reading tame.unmarked filled decimal with
      ⟨body, later, rfl, ⟨clause, named, kept⟩, rest⟩ | ⟨unended, head⟩
    · have found : store.clause? digits = some clause := named
      rw [substitute, found]
      dsimp only
      split
      · exact .inl rfl
      · refine (ih _ rest (tame.part ⟨body, [], by simp⟩)).bind fun others good => ?_
        show [] ++ (clause ++ cut.lead ++ others) = _ ∨ _
        rw [List.nil_append, List.append_assoc]
        rcases kept with rfl | ⟨risk, garbled⟩
        · exact good.imp (congrArg (clause ++ ·)) (And.imp_right fun garbled => garbled.append _)
        · exact .inr ⟨risk, garbled.append_right _⟩
    · -- The clause that the digits name ends before what is left of the other marker.
      have risk := tame.ended.resolve_right fun ended => ended unended
      refine .of_risk risk fun replaced success => .inr ⟨risk, ?_⟩
      obtain ⟨clause, others, used, named, -, rfl⟩ := clause_of_substitute success
      obtain ⟨inner, rfl, -⟩ := sound.grouped clause (Names.mem named).1
      obtain ⟨lead, start⟩ := List.head?_eq_some_iff.mp (head?_of_cut further head (by decide))
      exact ⟨'(' :: inner, lead ++ others, by simp [start]⟩

/-- One pass replaces all markers. -/
theorem expandWithin_of_sound (sound : store.Sound) (passes : Nat) (text : Text) :
    store.expandWithin (passes + 1) text =
      (store.substitute (Text.cut Marker.read? text).lead.byteLength
        (Text.cut Marker.read? text).finds >>= fun replaced =>
          .ok ((Text.cut Marker.read? text).lead ++ replaced)) := by
  have cuts := Text.isCut_cut Marker.shortens_read? text
  rw [expandWithin]
  split
  · rename_i none
    have none := List.isEmpty_iff.mp none
    have whole := cuts.lead_of_finds_eq_nil none
    rw [none, whole]
    show _ = Except.ok (text ++ [])
    rw [List.append_nil]
  · cases success : store.substitute _ _ with
    | error error => rfl
    | ok replaced => exact expandWithin_of_unmarked (unmarked_of_substitute sound cuts success) _

/-- One pass and any number of further ones give the full text, or a garbled one, and leave no
marker. -/
theorem expandWithin_settles (sound : store.Sound) (passes : Nat) {full short : Text}
    (abridges : Abridges (store.Keeps risky) full short) (tame : IsTame risky full) :
    Settles risky (fun text => Unmarked text ∧ Abridges store.Names text short ∧
      (text = full ∨ risky ∧ Garbled text)) (store.expandWithin (passes + 1) short) := by
  have cuts := Text.isCut_cut Marker.shortens_read? short
  rw [expandWithin_of_sound sound]
  have replaces := substitute_settles sound cuts
    (Text.cut Marker.read? short).lead.byteLength abridges tame
  have known := replaces.and_of_ok fun replaced success =>
    And.intro (unmarked_of_substitute sound cuts success)
      (abridges_of_substitute sound.grouped cuts success)
  exact known.bind fun replaced good => ⟨good.1.1, good.1.2, good.2⟩

/-- An abridged text is expanded to its full text, or to a garbled one, and no marker is left. -/
theorem expand_settles (sound : store.Sound) {full short : Text}
    (abridges : Abridges (store.Keeps risky) full short) (tame : IsTame risky full) :
    Settles risky (fun text => Unmarked text ∧ Abridges store.Names text short ∧
      (text = full ∨ risky ∧ Garbled text)) (store.expand short) := by
  refine (expandWithin_settles sound store.clauses.size abridges tame).bind fun text good => ?_
  split
  · exact .inl rfl
  · exact good

/-! ## Capture -/

/-- A group without markers may be stored in a sound store. -/
theorem Sound.push (sound : store.Sound) {clause marker : Text} {next : ClauseStore}
    (group : IsGroup clause) (unmarked : Unmarked clause)
    (success : store.push clause = .ok (marker, next)) : next.Sound :=
  ⟨sound.grouped.push group success, forall_clauses_of_push sound.unmarked unmarked success⟩

/-- A group without markers is stored under a name of its own, if no limit is exceeded. -/
theorem push_settles (sound : store.Sound) {clause : Text} (group : IsGroup clause)
    (unmarked : Unmarked clause) :
    Settles risky (fun (marker, next) => store.Continues next ∧
      marker = Marker.render store.clauses.size ∧
      next.Names (Text.decimal store.clauses.size) clause) (store.push clause) := by
  cases result : store.push clause with
  | error error =>
    unfold push at result
    dsimp only at result
    split at result
    · obtain rfl := Except.error.inj result
      exact .inl rfl
    · contradiction
  | ok answer =>
    obtain ⟨marker, next⟩ := answer
    obtain ⟨names, named⟩ := names_of_push result
    exact ⟨⟨names, sound.push group unmarked result⟩, (eq_of_push result).1, named⟩

/-- Captured groups are replaced by markers that keep them. What stands before the text may be
abridged already. -/
theorem capture_settles {text : Text} {cut : Text.Cut Text} (cuts : Text.IsCut group? text cut)
    {store : ClauseStore} {full front : Text} (sound : store.Sound)
    (abridges : Abridges (store.Keeps risky) full (front ++ text)) (tame : IsTame risky full) :
    Settles risky (fun (marked, next) => store.Continues next ∧
      Abridges (next.Keeps risky) full (front ++ (cut.lead ++ marked)))
      (store.capture cut.finds) := by
  induction cuts generalizing store full front with
  | nil => exact ⟨.refl sound, abridges⟩
  | @skip c text cut refused further ih =>
    have shifted : Abridges (store.Keeps risky) full ((front ++ [c]) ++ text) := by
      simpa using abridges
    refine (ih sound shifted tame).mono fun (marked, next) good => ?_
    exact ⟨good.1, by simpa using good.2⟩
  | @find text rest inner cut accepted further ih =>
    obtain ⟨rfl, free⟩ := group?_eq_some_iff.mp accepted
    have opening : Abridges (store.Keeps risky) full (front ++ '(' :: (inner ++ ')' :: rest)) :=
      abridges
    obtain ⟨left, tail, rfl, first, later⟩ := opening.split_short_char rfl
    obtain ⟨whole, right, rfl, inside, last⟩ := later.split_short_char rfl
    have group : Abridges (store.Keeps risky) ('(' :: whole ++ [')']) ('(' :: inner ++ [')']) :=
      .char '(' (inside.append (.refl _ [')']))
    have tame_group := tame.part ⟨left, right, show left ++ ('(' :: whole ++ [')']) ++ right =
      left ++ '(' :: (whole ++ ')' :: right) by simp⟩
    have tame_right := tame.part ⟨left ++ '(' :: whole ++ [')'], [],
      show left ++ '(' :: whole ++ [')'] ++ right ++ [] = left ++ '(' :: (whole ++ ')' :: right)
        by simp⟩
    have grouped := group.isGroup (isGroup_of_free free)
    refine (expand_settles sound group tame_group).bind fun clause ⟨unmarked, replaces, kept⟩ => ?_
    have grouped_clause := replaces.isGroup (isGroup_of_free free)
    refine (push_settles sound grouped_clause unmarked).bind
      fun (marker, middle) ⟨continues, shown, named⟩ => ?_
    subst shown
    have start : Abridges (middle.Keeps risky) right ([] ++ rest) := last.mono continues.keeps
    refine (ih continues.sound start tame_right).bind fun (others, next) ⟨goes, remains⟩ => ?_
    have both := continues.trans goes
    have number := Marker.isNumber_decimal store.clauses.size
    have keeps : next.Keeps risky (Text.decimal store.clauses.size) ('(' :: whole ++ [')']) :=
      ⟨clause, goes.names _ _ named, kept⟩
    have joined := (first.mono both.keeps).append (.group number grouped keeps remains)
    refine ⟨both, ?_⟩
    simpa [Marker.render] using joined

/-! ## Extraction -/

/-- Groups are extracted pass by pass until none is left. `text` is what is left of the full text
after some passes. -/
theorem extractWithin_settles {passes : Nat} {store : ClauseStore} {full text : Text}
    (sound : store.Sound) (abridges : Abridges (store.Keeps risky) full text)
    (tame : IsTame risky full) (trimmed : full.IsTrimmed)
    (start : IsGroup full → text.head? = some '(') (enough : text.count '(' ≤ passes) :
    Settles risky (fun (rule, next) => store.Continues next ∧
      Residue (next.Keeps risky) full rule ∧ Parted rule) (extractWithin passes store text) := by
  induction passes generalizing store text with
  | zero =>
    have fewer := count_unwrap_le text
    have parted : Parted (unwrap text) :=
      parted_of_not_mem (List.count_eq_zero.mp (by omega))
    exact ⟨.refl sound, residue_of_parted abridges trimmed start parted, parted⟩
  | succ passes ih =>
    have cuts := Text.isCut_cut shortens_group? (unwrap text)
    rw [extractWithin]
    dsimp only
    split
    · rename_i none
      have parted := parted_of_no_group
        ((cuts.finds_eq_nil_iff rfl).mp (List.isEmpty_iff.mp none))
      exact ⟨.refl sound, residue_of_parted abridges trimmed start parted, parted⟩
    · rename_i some
      have filled := mt List.isEmpty_iff.mpr some
      obtain ⟨same, several⟩ :=
        unwrap_of_mem (abridges.isTrimmed trimmed) (mem_of_finds cuts filled)
      rw [same] at cuts filled ⊢
      have front : Abridges (store.Keeps risky) full ([] ++ text) := abridges
      have counts : ∀ answer, store.capture (Text.cut group? text).finds = .ok answer →
          ((Text.cut group? text).lead ++ answer.1).count '(' +
            (Text.cut group? text).finds.length = text.count '(' :=
        fun _ success => count_of_capture cuts success
      have captures := (capture_settles cuts sound front tame).and_of_ok counts
      refine captures.bind ?_
      rintro ⟨marked, middle⟩ ⟨fewer, continues, rest⟩
      have taken : 0 < (Text.cut group? text).finds.length := List.length_pos_of_ne_nil filled
      have less : ((Text.cut group? text).lead ++ marked).count '(' ≤ passes := by
        dsimp only at fewer
        omega
      have begins : IsGroup full →
          ((Text.cut group? text).lead ++ marked).head? = .some '(' := fun group => by
        rw [List.head?_append, head_of_cut cuts abridges group (start group) several]
        rfl
      refine (ih continues.sound rest begins less).mono ?_
      rintro ⟨rule, next⟩ ⟨later, residue⟩
      exact ⟨continues.trans later, residue⟩

/-- Extraction leaves the residue of the text, with brackets of both kinds or of none. -/
theorem extract_settles (sound : store.Sound) {full : Text} (tame : IsTame risky full)
    (trimmed : full.IsTrimmed) (balanced : risky ∨ Balanced full) :
    Settles risky (fun (rule, next) => store.Continues next ∧
      Residue (next.Keeps risky) full rule ∧ Parted rule ∧ ('(' ∈ rule ↔ ')' ∈ rule))
      (store.extract full) := by
  refine (extractWithin_settles sound (.refl _ full) tame trimmed IsGroup.head?
    (Nat.le_refl _)).bind ?_
  rintro ⟨rule, next⟩ ⟨continues, residue, parted⟩
  dsimp only
  split
  · rename_i mixed
    refine .inr (balanced.resolve_right fun balanced => ?_)
    have lacks := not_mem_of_free (parted.free_of_balanced (residue.balanced balanced))
    simp [lacks] at mixed
  · rename_i both
    simp only [bne_iff_ne, ne_eq, Decidable.not_not] at both
    refine ⟨continues, residue, parted, ?_⟩
    rw [← List.contains_iff_mem, ← List.contains_iff_mem, both]

end ClauseStore

end AccessRules
