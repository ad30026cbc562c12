import AccessRules.Proofs.Rule.Recovery

/-!
# What stores hold

Groups are taken out of any text, of one with stray brackets or with markers of its own as well.
Whatever the text is, the clauses of the store are groups without markers, so one pass replaces all
markers of a text. And the clauses consist of characters of that text: extraction and expansion
bring in no character but those of markers.
-/
namespace AccessRules

open AccessRules.Bracket

/-! ## Characters -/

/-- A full text consists of what its abridgement and the named groups consist of. -/
theorem Abridges.consists {names : Text → Text → Prop} {kind : Char → Prop} {full short : Text}
    (abridges : Abridges names full short)
    (groups : ∀ digits body, names digits body → ∀ c ∈ body, kind c)
    (each : ∀ c ∈ short, kind c) : ∀ c ∈ full, kind c := by
  induction abridges with
  | nil => exact each
  | char d further ih =>
    intro c mem
    rcases List.mem_cons.mp mem with rfl | later
    · exact each c List.mem_cons_self
    · exact ih (fun c mem => each c (List.mem_cons_of_mem d mem)) c later
  | group number group named further ih =>
    intro c mem
    rcases List.mem_append.mp mem with inside | later
    · exact groups _ _ named c inside
    · exact ih (fun c mem => each c (List.mem_append_right _ mem)) c later

/-- An unwrapped text is a trimmed part of the text. -/
theorem Bracket.unwrap_spec (text : Text) : (unwrap text).IsTrimmed ∧ unwrap text <:+: text := by
  unfold unwrap
  split
  · rename_i inner whole
    obtain ⟨group, -⟩ := group?_eq_some_iff.mp whole
    have inside : inner <:+: text.trim := ⟨['('], [')'], by rw [group]; simp⟩
    exact ⟨Text.isTrimmed_trim inner,
      ((Text.trim_isInfix inner).trans inside).trans text.trim_isInfix⟩
  · exact ⟨text.isTrimmed_trim, text.trim_isInfix⟩

namespace ClauseStore

variable {store next : ClauseStore} {kind : Char → Prop} {text expanded marked rule : Text}

/-! ## Expansion -/

/-- Any text is expanded by putting clauses in the place of its markers, and no marker is left. -/
theorem abridges_of_expand (sound : store.Sound) (success : store.expand text = .ok expanded) :
    Unmarked expanded ∧ Abridges store.Names expanded text := by
  have cuts := Text.isCut_cut Marker.shortens_read? text
  have expansion := (expandWithin_of_expand success).1
  rw [expandWithin_of_sound sound] at expansion
  obtain ⟨replaced, substituted, same⟩ := bind_eq_ok.mp expansion
  obtain rfl := Except.ok.inj same
  exact ⟨unmarked_of_substitute sound cuts substituted,
    abridges_of_substitute sound.grouped cuts substituted⟩

/-! ## Invariants -/

/-- What storing a group keeps is kept where groups are captured. -/
theorem invariant_of_capture {invariant : ClauseStore → Prop} {cut : Text.Cut Text}
    (cuts : Text.IsCut group? text cut)
    (step : ∀ {store next : ClauseStore} {inner clause marker : Text}, invariant store →
      (∀ c ∈ inner, isBracket c = false) → (∀ c ∈ '(' :: inner ++ [')'], c ∈ text) →
      store.expand ('(' :: inner ++ [')']) = .ok clause →
      store.push clause = .ok (marker, next) → invariant next)
    (start : invariant store) (success : store.capture cut.finds = .ok (marked, next)) :
    invariant next := by
  induction cuts generalizing store marked with
  | nil =>
    obtain ⟨-, rfl⟩ := Prod.mk.inj (Except.ok.inj success)
    exact start
  | @skip c text cut refused further ih =>
    refine ih (fun kept free inside => step kept free fun d mem => ?_) start success
    exact List.mem_cons_of_mem c (inside d mem)
  | @find text rest inner cut accepted further ih =>
    obtain ⟨rfl, free⟩ := group?_eq_some_iff.mp accepted
    unfold ClauseStore.capture at success
    obtain ⟨clause, expansion, success⟩ := bind_eq_ok.mp success
    obtain ⟨⟨marker, middle⟩, pushed, success⟩ := bind_eq_ok.mp success
    obtain ⟨⟨others, last⟩, captured, same⟩ := bind_eq_ok.mp success
    obtain ⟨rfl, rfl⟩ := Prod.mk.inj (Except.ok.inj same)
    have whole : '(' :: inner ++ ')' :: rest = ('(' :: inner ++ [')']) ++ rest := by simp
    have here : invariant middle := step start free
      (fun d mem => by rw [whole]; exact List.mem_append_left _ mem) expansion pushed
    refine ih (fun kept free inside => step kept free fun d mem => ?_) here captured
    rw [whole]
    exact List.mem_append_right _ (inside d mem)

/-- What storing a group keeps is kept where groups are extracted. -/
theorem invariant_of_extract {invariant : ClauseStore → Prop}
    (step : ∀ {store next : ClauseStore} {inner clause marker : Text}, invariant store →
      (∀ c ∈ inner, isBracket c = false) → store.expand ('(' :: inner ++ [')']) = .ok clause →
      store.push clause = .ok (marker, next) → invariant next)
    (start : invariant store) (success : store.extract text = .ok (rule, next)) :
    invariant next := by
  have passes : ∀ (passes : Nat) (store : ClauseStore) (text : Text), invariant store →
      extractWithin passes store text = .ok (rule, next) → invariant next := by
    intro passes
    induction passes with
    | zero =>
      intro store text kept success
      obtain ⟨-, rfl⟩ := Prod.mk.inj (Except.ok.inj success)
      exact kept
    | succ passes ih =>
      intro store text kept success
      have cuts := Text.isCut_cut shortens_group? (unwrap text)
      unfold extractWithin groups at success
      dsimp only at success
      split at success
      · obtain ⟨-, rfl⟩ := Prod.mk.inj (Except.ok.inj success)
        exact kept
      · obtain ⟨⟨marked, middle⟩, captured, rest⟩ := bind_eq_ok.mp success
        have kept := invariant_of_capture cuts (fun kept free _ => step kept free) kept captured
        exact ih middle _ kept rest
  exact passes _ store text start (extractWithin_of_extract success).1

/-- Storing a clause leaves the limit of an expansion as it is. -/
theorem maxExpansion_of_push {clause marker : Text}
    (success : store.push clause = .ok (marker, next)) :
    next.maxExpansion = store.maxExpansion := by
  obtain ⟨-, -, rfl⟩ := push_eq_ok_iff.mp success
  rfl

/-- Extraction leaves the limit of an expansion as it is. -/
theorem maxExpansion_of_extract (success : store.extract text = .ok (rule, next)) :
    next.maxExpansion = store.maxExpansion := by
  let same (other : ClauseStore) : Prop := other.maxExpansion = store.maxExpansion
  have start : same store := rfl
  have stays : same next := invariant_of_extract
    (fun kept _ _ pushed => (maxExpansion_of_push pushed).trans kept) start success
  exact stays

/-! ## Stores filled from a text -/

/-- The store is sound, and its clauses consist of characters of a kind. -/
structure SoundOf (kind : Char → Prop) (store : ClauseStore) : Prop extends Sound store where
  /-- Each clause does. -/
  consists : ∀ clause ∈ store.clauses, ∀ c ∈ clause, kind c

/-- An expanded text consists of what the text and the clauses consist of. -/
theorem SoundOf.expand (sound : store.SoundOf kind) (each : ∀ c ∈ text, kind c)
    (success : store.expand text = .ok expanded) : ∀ c ∈ expanded, kind c := by
  apply (abridges_of_expand sound.toSound success).2.consists _ each
  intro digits body named
  exact sound.consists body (Names.mem named).1

/-- A group without markers may be stored. -/
theorem SoundOf.push {clause marker : Text} (sound : store.SoundOf kind) (group : IsGroup clause)
    (unmarked : Unmarked clause) (each : ∀ c ∈ clause, kind c)
    (success : store.push clause = .ok (marker, next)) : next.SoundOf kind :=
  ⟨sound.toSound.push group unmarked success, forall_clauses_of_push sound.consists each success⟩

/-- Groups of a text may be captured. -/
theorem SoundOf.capture {cut : Text.Cut Text} (cuts : Text.IsCut group? text cut)
    (sound : store.SoundOf kind) (each : ∀ c ∈ text, kind c)
    (success : store.capture cut.finds = .ok (marked, next)) : next.SoundOf kind := by
  refine invariant_of_capture cuts (fun sound free inside expansion pushed => ?_) sound success
  obtain ⟨unmarked, abridges⟩ := abridges_of_expand sound.toSound expansion
  have group := abridges.isGroup (isGroup_of_free free)
  have kinds := sound.expand (fun c mem => each c (inside c mem)) expansion
  exact sound.push group unmarked kinds pushed

/-- A text with markers in the place of captured groups consists of characters of the text and of
markers. -/
theorem consists_of_capture {cut : Text.Cut Text} (cuts : Text.IsCut group? text cut)
    (marks : ∀ c, Marker.isMark c = true → kind c) (each : ∀ c ∈ text, kind c)
    (success : store.capture cut.finds = .ok (marked, next)) :
    ∀ c ∈ cut.lead ++ marked, kind c := by
  intro c mem
  have hides := (hides_of_capture cuts success).1
  by_cases mark : Marker.isMark c = true
  · exact marks c mark
  · exact each c (hides.mem_full mem (by simpa using mark))

/-- Groups are taken out of a text pass by pass, and a trimmed text is left. -/
theorem SoundOf.extractWithin {passes : Nat} (marks : ∀ c, Marker.isMark c = true → kind c)
    (sound : store.SoundOf kind) (each : ∀ c ∈ text, kind c)
    (success : ClauseStore.extractWithin passes store text = .ok (rule, next)) :
    next.SoundOf kind ∧ rule.IsTrimmed ∧ ∀ c ∈ rule, kind c := by
  induction passes generalizing store text with
  | zero =>
    obtain ⟨rfl, rfl⟩ := Prod.mk.inj (Except.ok.inj success)
    obtain ⟨trimmed, within⟩ := unwrap_spec text
    exact ⟨sound, trimmed, fun c mem => each c (within.subset mem)⟩
  | succ passes ih =>
    obtain ⟨trimmed, within⟩ := unwrap_spec text
    have inside : ∀ c ∈ unwrap text, kind c := fun c mem => each c (within.subset mem)
    have cuts := Text.isCut_cut shortens_group? (unwrap text)
    unfold ClauseStore.extractWithin groups at success
    dsimp only at success
    split at success
    · obtain ⟨rfl, rfl⟩ := Prod.mk.inj (Except.ok.inj success)
      exact ⟨sound, trimmed, inside⟩
    · obtain ⟨⟨marked, middle⟩, captured, rest⟩ := bind_eq_ok.mp success
      have kept := sound.capture cuts inside captured
      have further := consists_of_capture cuts marks inside captured
      exact ih kept further rest

/-- Groups may be taken out of any text. What is left is trimmed, and it and the clauses consist of
characters of the text and of markers. -/
theorem SoundOf.extract (marks : ∀ c, Marker.isMark c = true → kind c)
    (sound : store.SoundOf kind) (each : ∀ c ∈ text, kind c)
    (success : store.extract text = .ok (rule, next)) :
    next.SoundOf kind ∧ rule.IsTrimmed ∧ ∀ c ∈ rule, kind c :=
  sound.extractWithin marks each (extractWithin_of_extract success).1

end ClauseStore

end AccessRules
