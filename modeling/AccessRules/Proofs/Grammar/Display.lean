import AccessRules.Proofs.Condition.ElementForm
import AccessRules.Proofs.Grammar.Completeness
import AccessRules.Proofs.Grammar.Composition
import AccessRules.Proofs.Rule.SingleTokens
import AccessRules.Proofs.Rule.WiderLimits

/-!
# Displayed conditions are read back

The written form of a condition puts every operand in brackets, and reading takes one level of
brackets off with each level of the tree. So the written form of a tree is read at as many levels
as the tree is deep: a text shows a condition if, its groups taken out, it is read as the condition
by levels that read the texts in its groups.
-/
namespace AccessRules

open AccessRules.Bracket Expression

/-! ## Brackets around a text -/

/-- Brackets around a text nest it one level deeper. -/
theorem nestingFrom_bracketed_le {text : Text} {inner : Nat}
    (nested : ∀ depth rest, nestingFrom depth (text ++ rest) ≤
      max (depth + inner) (nestingFrom depth rest)) (depth : Nat) (rest : Text) :
    nestingFrom depth (bracketed text ++ rest) ≤
      max (depth + (inner + 1)) (nestingFrom depth rest) := by
  have deep := nested (depth + 1) (')' :: rest)
  have closed : nestingFrom (depth + 1) (')' :: rest) = nestingFrom depth rest := rfl
  have opened : bracketed text ++ rest = '(' :: (text ++ ')' :: rest) := by simp [bracketed]
  rw [opened, nestingFrom, if_pos rfl]
  omega

/-- A clean text is clean in brackets. -/
theorem isClean_bracketed {text : Text} (clean : IsClean text) : IsClean (bracketed text) := by
  have whole : IsClean ('(' :: ([] ++ text ++ []) ++ [')']) :=
    Renders.isClean_group separates_space (by simp) clean
  simpa [bracketed] using whole

/-- What extraction leaves of a text that is no group is an abridgement of the text. -/
theorem Residue.of_bare {names : Text → Text → Prop} {full rule : Text}
    (residue : Residue names full rule) (bare : ¬IsGroup full) : Abridges names full rule := by
  cases residue with
  | whole several abridges => exact abridges
  | inner balanced abridges => exact absurd ⟨_, rfl, balanced⟩ bare

/-- What extraction leaves of a text in brackets is an abridgement of the text without them. -/
theorem Residue.of_bracketed {names : Text → Text → Prop} {text rule : Text}
    (residue : Residue names (bracketed text) rule) (balanced : Balanced text) :
    Abridges names text.trim rule := by
  generalize whole : bracketed text = full at residue
  cases residue with
  | whole several abridges => exact absurd ⟨text, whole.symm, balanced⟩ several
  | inner balanced abridges =>
    rwa [show text = _ from List.append_cancel_right (List.cons.inj whole).2]

/-- A marker, as what remains of a pair of brackets. -/
theorem remains_marker {digits : Text} (number : Marker.IsNumber digits) :
    Remains isSpace (fun _ _ => True) .vacant ['(', ')'] (Marker.ofDigits digits) := by
  have group : IsGroup ('(' :: [] ++ [')']) := isGroup_of_free (by simp)
  have empty : Renders isSpace .vacant ('(' :: [] ++ [')']) := .vacant (by simp)
  exact .marker empty rfl group number trivial

section

variable {Leaf : Type} {reader : Reader Leaf} {text : Text} {condition : Condition Leaf}

/-- The text is read as the condition at as many levels as the condition is deep, in brackets or
without. -/
structure Shows (reader : Reader Leaf) (text : Text) (condition : Condition Leaf) : Prop where
  /-- Its brackets are balanced. -/
  balanced : Balanced text
  /-- Its groups can be taken out and put back. -/
  clean : IsClean text
  /-- It is not blank. -/
  filled : text.trim ≠ []
  /-- It is not in brackets itself. -/
  bare : ¬IsGroup text.trim
  /-- Its brackets nest less deep than the condition. -/
  nested : ∀ depth rest, nestingFrom depth (text ++ rest) ≤
    max (depth + (condition.depth - 1)) (nestingFrom depth rest)
  /-- What is left without its groups is read as the condition. -/
  reads : ∀ (levels : Nat) (store : ClauseStore) (whole rule : Text),
    condition.depth ≤ levels + 1 → Abridges store.Names text.trim rule →
    (∀ c ∈ rule, isBracket c = false) →
    store.HasRoom text.byteLength (outlay (condition.depth - 1) text.byteLength) →
    store.Answers (outlay (condition.depth - 1) text.byteLength) (.ok condition)
      (reader.readShape (reader.readExpression levels) whole rule store)

namespace Shows

/-- A text that leaves what the text that shows the condition leaves is read as the condition. -/
theorem answers_of_residue {whole : Text} {bytes levels : Nat} {store : ClauseStore}
    (shows : Shows reader text condition) (trimmed : whole.IsTrimmed) (balanced : Balanced whole)
    (clean : IsClean whole) (filled : whole ≠ []) (some : whole ≠ ['(', ')'])
    (deep : nesting whole ≤ condition.depth)
    (leaves : ∀ names rule, Residue names whole rule → Abridges names text.trim rule)
    (fewer : whole.byteLength ≤ bytes) (part : text.byteLength ≤ bytes)
    (low : condition.depth ≤ levels)
    (room : store.HasRoom bytes (outlay condition.depth bytes)) {full : Text}
    (same : full.trim = whole) :
    store.Answers (outlay condition.depth bytes) (.ok condition)
      (reader.readExpression levels store full) := by
  obtain ⟨levels, rfl⟩ := Nat.exists_eq_add_of_le' (condition.depth_pos.trans_le low)
  have total := outlay_level deep bytes
  have extracted : nesting whole * whole.byteLength ≤ nesting whole * bytes :=
    Nat.mul_le_mul_left _ fewer
  obtain ⟨rule, next, success, grows, free, residue⟩ :=
    ClauseStore.extract_of_balanced balanced clean trimmed (Nat.le_trans fewer room.length)
      (room.weaken (Nat.le_refl _) (by omega)).stored
  have abridges := leaves _ _ residue
  have left := (room.weaken part total).after (grows.weaken extracted)
  have cheap := outlay_mono (Nat.le_refl (condition.depth - 1)) part
  have answers := shows.reads levels next whole rule low abridges free
    (left.weaken (Nat.le_refl _) cheap)
  rw [Reader.readExpression, same, if_neg (by simp [filled, some]), success]
  show store.Answers _ _ (if rule = [] then _ else _)
  rw [if_neg (mt abridges.eq_nil_iff.mp shows.filled)]
  exact ((answers.weaken cheap).after (grows.weaken extracted)).weaken total

/-- A text that shows a condition is read as the condition. -/
theorem answers {levels : Nat} {store : ClauseStore} (shows : Shows reader text condition)
    (low : condition.depth ≤ levels)
    (room : store.HasRoom text.byteLength (outlay condition.depth text.byteLength)) :
    store.Answers (outlay condition.depth text.byteLength) (.ok condition)
      (reader.readExpression levels store text) := by
  have deep := shows.nested 0 []
  rw [List.append_nil] at deep
  refine shows.answers_of_residue text.isTrimmed_trim (balanced_trim_iff.mpr shows.balanced)
    (shows.clean.part text.trim_isInfix) shows.filled (fun same => shows.bare ?_) ?_
    (fun names rule residue => residue.of_bare shows.bare) text.byteLength_trim_le
    (Nat.le_refl _) low room rfl
  · rw [same]
    exact ⟨[], rfl, balanced_of_free (by simp)⟩
  · rw [nesting_trim]
    exact Nat.le_trans deep (by simp [nestingFrom])

/-- A text that shows a condition is read in brackets as the condition. -/
theorem answers_bracketed {levels : Nat} {store : ClauseStore}
    (shows : Shows reader text condition) (low : condition.depth ≤ levels)
    (room : store.HasRoom (bracketed text).byteLength
      (outlay condition.depth (bracketed text).byteLength)) :
    store.Answers (outlay condition.depth (bracketed text).byteLength) (.ok condition)
      (reader.readExpression levels store (bracketed text)) := by
  have deep := nestingFrom_bracketed_le shows.nested 0 []
  have positive := condition.depth_pos
  have trimmed := isTrimmed_bracketed text
  rw [List.append_nil] at deep
  refine shows.answers_of_residue trimmed (IsGroup.balanced ⟨text, rfl, shows.balanced⟩)
    (isClean_bracketed shows.clean) (by simp [bracketed]) (fun same => shows.filled ?_) ?_
    (fun names rule residue => residue.of_bracketed shows.balanced) (Nat.le_refl _) ?_ low room
    trimmed.trim_self
  · obtain rfl : text = [] := by simpa [bracketed] using same
    rfl
  · rw [nesting]
    simp only [nestingFrom] at deep
    omega
  · simp only [bracketed, Text.byteLength_append, Text.byteLength_cons]
    omega

/-! ## Atoms and negations -/

/-- An atom without brackets shows the condition of its token. -/
theorem of_atom (filled : text.trim ≠ []) (free : ∀ c ∈ text, isBracket c = false)
    (unmarked : Unmarked text) (shape : Shape.of text.trim = .atom)
    (read : reader.readToken text.trim = .ok condition) : Shows reader text condition := by
  have opens : '(' ∉ text := fun mem => absurd (free _ mem) (by decide)
  have inside : ∀ c ∈ text.trim, c ∈ text := fun c mem => text.trim_isInfix.subset mem
  refine ⟨balanced_of_free free, ⟨unmarked, fun touching => opens (touching.subset (by simp))⟩,
    filled, ?_, fun depth rest => ?_, fun levels store whole rule _ abridges _ room => ?_⟩
  · rintro ⟨inner, same, -⟩
    exact opens (inside '(' (by simp [same]))
  · rw [nestingFrom_free_append free]
    exact Nat.le_max_right _ _
  · obtain rfl := abridges.eq_of_unbracketed fun mem => opens (inside _ mem)
    have expanded : store.expand text.trim = .ok text.trim :=
      ClauseStore.expand_of_unmarked (unmarked.part text.trim_isInfix)
        (Nat.le_trans text.byteLength_trim_le room.length)
    have without : ¬(text.trim.contains '(' && text.trim.contains ')') = true := by
      simp [show '(' ∉ text.trim from fun mem => opens (inside _ mem)]
    rw [Reader.readShape, shape]
    show store.Answers _ _ (store.expand text.trim >>= _)
    rw [expanded]
    show store.Answers _ _ (if _ then _ else _)
    rw [if_neg without, text.isTrimmed_trim.trim_self, read]
    exact (ClauseStore.Answers.pure store condition).weaken (Nat.zero_le _)

/-- The negation of what a text in brackets shows is shown by the word for it before them. -/
theorem negation (shows : Shows reader text condition) :
    Shows reader ("not ".toList ++ bracketed text) (.not condition) := by
  have word : ∀ c ∈ "not ".toList, isBracket c = false :=
    List.forall_iff_forall_mem.mp (by decide)
  have group : IsGroup (bracketed text) := ⟨text, rfl, shows.balanced⟩
  have trimmed : Text.IsTrimmed ("not ".toList ++ bracketed text) := by
    have first : Text.IsTrimmed "not".toList :=
      Text.isTrimmed_of_solid (List.forall_iff_forall_mem.mp (by decide))
    exact first.append (by simp) (isTrimmed_bracketed text) (by simp [bracketed]) [' ']
  have clean := isClean_bracketed shows.clean
  have positive := condition.depth_pos
  refine ⟨(balanced_of_free word).append group.balanced,
    clean.append_left (List.forall_iff_forall_mem.mp (by decide)), ?_, ?_, fun depth rest => ?_,
    fun levels store whole rule low abridges free room => ?_⟩
  · rw [trimmed.trim_self]
    simp
  · rw [trimmed.trim_self]
    rintro ⟨inner, same, -⟩
    simp at same
  · have deep := nestingFrom_bracketed_le shows.nested depth rest
    rw [List.append_assoc, nestingFrom_free_append word, Condition.depth]
    omega
  · rw [trimmed.trim_self, ← List.nil_append "not ".toList] at abridges
    obtain ⟨front, back, rfl, first, later⟩ :=
      split_of_free abridges (balanced_of_free (by simp)) word
    obtain rfl := first.eq_nil_iff.mpr rfl
    obtain ⟨digits, number, named, rfl⟩ :=
      eq_marker_of_abridges later group fun c mem => free c (by simp [mem])
    have written : Text.lower "not".toList = "not".toList := by decide
    have negated : Shape.of ("not".toList ++ (' ' :: []) ++ Marker.ofDigits digits) =
        .negation ([] ++ Marker.ofDigits digits) :=
      Remains.shape_negation separates_space written (by simp [isSpace]) rfl (remains_marker number)
    have shape : Shape.of ([] ++ "not ".toList ++ Marker.ofDigits digits) =
        .negation (Marker.ofDigits digits) := negated
    have fewer : (bracketed text).byteLength ≤
        Text.byteLength ("not ".toList ++ bracketed text) := by
      rw [Text.byteLength_append]
      exact Nat.le_add_left _ _
    have within := room.weaken fewer (outlay_mono (Nat.le_refl condition.depth) fewer)
    have expanded : store.expand (Marker.ofDigits digits) = .ok (bracketed text) :=
      ClauseStore.expand_of_abridges (.single number group named) clean within.length
    have answers := shows.answers_bracketed (Nat.le_of_succ_le_succ low) within
    rw [Reader.readShape, shape]
    show store.Answers _ _ (store.expand (Marker.ofDigits digits) >>= _)
    rw [expanded]
    exact (answers.weaken (outlay_mono (Nat.le_refl _) fewer)).map Condition.not

end Shows

/-! ## Junctions -/

/-- The keyword of a junction as it is displayed, with a space on both sides. -/
def Junction.displayed : Junction → Text
  | or => " OR ".toList
  | and => " AND ".toList

/-- Texts with the keyword of a junction between them. -/
def linked (junction : Junction) : List Text → Text
  | [] => []
  | [last] => last
  | first :: second :: rest => first ++ junction.displayed ++ linked junction (second :: rest)

/-- A displayed keyword links what stands on both sides. -/
theorem isLink_displayed (junction : Junction) :
    ∃ word, junction.displayed = [' '] ++ word ++ [' '] ∧
      IsLink isSpace junction [' '] word [' '] := by
  have spaces : ∀ c ∈ [' '] ++ [' '], isSpace c = true :=
    List.forall_iff_forall_mem.mp (by decide)
  cases junction with
  | or =>
    have written : Text.lower "OR".toList = "or".toList := by decide
    exact ⟨"OR".toList, rfl, by simp, by simp, spaces, written⟩
  | and =>
    have written : Text.lower "AND".toList = "and".toList := by decide
    exact ⟨"AND".toList, rfl, by simp, by simp, spaces, written⟩

/-- A displayed keyword has no brackets. -/
theorem isBracket_displayed (junction : Junction) :
    ∀ c ∈ junction.displayed, isBracket c = false := by
  cases junction <;> exact List.forall_iff_forall_mem.mp (by decide)

/-- The markers of texts, from left to right, with the bytes of the texts together. -/
inductive Markers (names : Text → Text → Prop) :
    (texts : List Text) → (bytes : Nat) → (markers : List Text) → Prop where
  | nil : Markers names [] 0 []
  | cons {digits text : Text} {bytes : Nat} {texts markers : List Text}
      (number : Marker.IsNumber digits) (named : names digits text)
      (further : Markers names texts bytes markers) :
      Markers names (text :: texts) (text.byteLength + bytes)
        (Marker.ofDigits digits :: markers)

/-- What is left of linked groups without any brackets is their linked markers. -/
theorem markers_of_abridges {names : Text → Text → Prop} {junction : Junction}
    {groups : List Text} {rule : Text} (each : ∀ group ∈ groups, IsGroup group)
    (abridges : Abridges names (linked junction groups) rule)
    (free : ∀ c ∈ rule, isBracket c = false) :
    ∃ bytes markers, bytes ≤ (linked junction groups).byteLength ∧
      rule = linked junction markers ∧ Markers names groups bytes markers := by
  induction groups generalizing rule with
  | nil => exact ⟨0, [], Nat.zero_le _, abridges.eq_nil_iff.mpr rfl, .nil⟩
  | cons first rest ih =>
    have group := each first (by simp)
    cases rest with
    | nil =>
      obtain ⟨digits, number, named, rfl⟩ := eq_marker_of_abridges abridges group free
      exact ⟨_, _, Nat.le_refl _, rfl, .cons number named .nil⟩
    | cons second rest =>
      obtain ⟨front, back, rfl, earlier, later⟩ :=
        split_of_free abridges group.balanced (isBracket_displayed junction)
      obtain ⟨digits, number, named, rfl⟩ :=
        eq_marker_of_abridges earlier group fun c mem => free c (by simp [mem])
      obtain ⟨bytes, markers, fewer, rfl, further⟩ :=
        ih (fun group mem => each group (by simp [mem])) later fun c mem => free c (by simp [mem])
      refine ⟨_, Marker.ofDigits digits :: markers, ?_, ?_, .cons number named further⟩
      · simp only [linked, Text.byteLength_append] at fewer ⊢
        omega
      · cases further with
        | cons => rfl

/-- What remains of linked groups is a junction. -/
theorem remains_linked {names : Text → Text → Prop} {junction : Junction} {bytes : Nat}
    {first second : Text} {groups markers : List Text}
    (marked : Markers names (first :: second :: groups) bytes markers) :
    ∃ further full, Remains isSpace (fun _ _ => True) (.joined junction .vacant further) full
      (linked junction markers) := by
  obtain ⟨word, displayed, link⟩ := isLink_displayed junction
  induction groups generalizing first second bytes markers with
  | nil =>
    obtain _ | ⟨left, -, _ | ⟨right, -, ⟨⟩⟩⟩ := marked
    have pair := Remains.pair link (remains_marker left) junction.rank_pos (remains_marker right)
      junction.rank_pos
    rw [← displayed] at pair
    exact ⟨_, _, pair⟩
  | cons third groups ih =>
    obtain _ | ⟨left, -, later⟩ := marked
    obtain ⟨further, full, remains⟩ := ih later
    have more := Remains.more link (remains_marker left) junction.rank_pos remains
    rw [← displayed] at more
    cases later with
    | cons => exact ⟨_, _, more⟩

/-- Linked markers are split into the markers. -/
theorem segments_linked {names : Text → Text → Prop} {junction : Junction} {bytes : Nat}
    {first : Text} {groups markers : List Text}
    (marked : Markers names (first :: groups) bytes markers) :
    junction.segments (linked junction markers) = markers := by
  obtain ⟨word, displayed, link⟩ := isLink_displayed junction
  induction groups generalizing first bytes markers with
  | nil =>
    obtain _ | ⟨number, -, ⟨⟩⟩ := marked
    have remains := remains_marker number
    exact (remains.isAbsent separates_space junction.rank_pos).segments_eq
      (remains.isBracket separates_space)
  | cons second groups ih =>
    cases marked with
    | @cons digits _ _ _ others number named later =>
      have rest := ih later
      have trailing : ∃ expression full,
          Remains isSpace (fun _ _ => True) expression full (linked junction others) := by
        cases groups with
        | nil =>
          obtain _ | ⟨last, -, ⟨⟩⟩ := later
          exact ⟨_, _, remains_marker last⟩
        | cons third groups =>
          obtain ⟨further, full, remains⟩ := remains_linked later
          exact ⟨_, _, remains⟩
      obtain ⟨expression, full, remains⟩ := trailing
      have split := Remains.segments_link separates_space link (remains_marker number)
        junction.rank_pos remains
      rw [← displayed, rest] at split
      cases later with
      | cons => exact split

/-- Operands in brackets are read from left to right, with one store. -/
theorem readOperands_of_markers {names : Text → Text → Prop} {store : ClauseStore}
    {parts : List (Text × Condition Leaf)} {markers : List Text} {bytes bound levels : Nat}
    (each : ∀ part ∈ parts, Shows reader part.1 part.2)
    (marked : Markers names (parts.map fun part => bracketed part.1) bytes markers)
    (known : ∀ digits clause, names digits clause → store.Names digits clause)
    (low : ∀ part ∈ parts, part.2.depth ≤ bound) (below : bound ≤ levels)
    (room : store.HasRoom bytes (outlay bound bytes)) (junction : Junction) (rule : Text) :
    store.Answers (outlay bound bytes) (.ok (parts.map Prod.snd))
      (Reader.readOperands (reader.readExpression levels) junction rule store markers) := by
  -- The names that are known stay known while the operands before let the store grow.
  induction parts generalizing store bytes markers with
  | nil =>
    cases marked
    exact (ClauseStore.Answers.pure store []).weaken (Nat.zero_le _)
  | cons part parts ih =>
    obtain ⟨text, condition⟩ := part
    have shows : Shows reader text condition := each (text, condition) (by simp)
    have deep : condition.depth ≤ bound := low (text, condition) (by simp)
    cases marked with
    | @cons digits _ bytes _ markers number named further =>
      have split : outlay bound ((bracketed text).byteLength + bytes) =
          outlay bound (bracketed text).byteLength + outlay bound bytes := Nat.mul_add _ _ _
      have cheap : outlay condition.depth (bracketed text).byteLength ≤
          outlay bound (bracketed text).byteLength := outlay_mono deep (Nat.le_refl _)
      have group : IsGroup (bracketed text) := ⟨text, rfl, shows.balanced⟩
      have filled : Text.trim (Marker.ofDigits digits) ≠ [] := by
        have operand := (remains_marker number).isOperand separates_space
        rw [operand.trimmed.trim_self]
        exact operand.filled
      have expanded : store.expand (Marker.ofDigits digits) = .ok (bracketed text) :=
        ClauseStore.expand_of_abridges (.single number group (known _ _ named))
          (isClean_bracketed shows.clean)
          (room.weaken (Nat.le_add_right _ _) (Nat.le_refl _)).length
      have first := shows.answers_bracketed (Nat.le_trans deep below)
        (room.weaken (Nat.le_add_right _ _)
          (Nat.le_trans cheap (Nat.le_trans (Nat.le_add_right _ _) (Nat.le_of_eq split.symm))))
      rw [Reader.readOperands, if_neg filled, expanded, split]
      show store.Answers _ (Except.ok condition >>= fun condition =>
        Except.ok (condition :: parts.map Prod.snd)) (bind (reader.readExpression levels store _) _)
      refine (first.weaken cheap).bind fun value middle grows => ?_
      have later := ih (fun part mem => each part (by simp [mem])) further
        (fun digits clause named => grows.names _ _ (known _ _ named))
        (fun part mem => low part (by simp [mem]))
        ((room.weaken (Nat.le_add_left _ _) (Nat.le_of_eq split.symm)).after grows)
      exact later.map (value :: ·)

/-- Texts that may stand between keywords have a start and an end without blanks when linked. -/
theorem isTrimmed_linked {junction : Junction} {first : Text} {texts : List Text}
    (each : ∀ text ∈ first :: texts, text.IsTrimmed ∧ text ≠ []) :
    (linked junction (first :: texts)).IsTrimmed ∧ linked junction (first :: texts) ≠ [] := by
  induction texts generalizing first with
  | nil => exact each first (by simp)
  | cons second texts ih =>
    have start := each first (by simp)
    have rest : (linked junction (second :: texts)).IsTrimmed ∧
        linked junction (second :: texts) ≠ [] :=
      ih fun text mem => each text (List.mem_cons_of_mem first mem)
    exact ⟨start.1.append start.2 rest.1 rest.2 _, by simp [linked, start.2]⟩

/-- Linked groups are balanced. -/
theorem balanced_linked {junction : Junction} {texts : List Text}
    (each : ∀ text ∈ texts, IsGroup text) : Balanced (linked junction texts) := by
  match texts with
  | [] => exact balanced_of_free (by simp [linked])
  | [last] => exact (each last (by simp)).balanced
  | first :: second :: texts =>
    have keyword := balanced_of_free (isBracket_displayed junction)
    have rest : Balanced (linked junction (second :: texts)) :=
      balanced_linked fun text mem => each text (by simp [mem])
    exact ((each first (by simp)).balanced.append keyword).append rest

/-- Clean texts are clean when linked. -/
theorem isClean_linked {junction : Junction} {texts : List Text}
    (each : ∀ text ∈ texts, IsClean text) (filled : texts ≠ []) :
    IsClean (linked junction texts) := by
  match texts with
  | [last] => exact each last (by simp)
  | first :: second :: texts =>
    obtain ⟨word, displayed, link⟩ := isLink_displayed junction
    have rest : IsClean (linked junction (second :: texts)) :=
      isClean_linked (fun text mem => each text (by simp [mem])) (by simp)
    have whole := Renders.isClean_link separates_space link (each first (by simp)) rest
    rwa [← displayed] at whole

/-- Linked texts nest brackets no deeper than the deepest one does. -/
theorem nestingFrom_linked_le {junction : Junction} {texts : List Text} {inner : Nat}
    (each : ∀ text ∈ texts, ∀ depth rest, nestingFrom depth (text ++ rest) ≤
      max (depth + inner) (nestingFrom depth rest)) (depth : Nat) (rest : Text) :
    nestingFrom depth (linked junction texts ++ rest) ≤
      max (depth + inner) (nestingFrom depth rest) := by
  match texts with
  | [] => exact Nat.le_max_right _ _
  | [last] => exact each last (by simp) depth rest
  | first :: second :: texts =>
    obtain ⟨word, displayed, link⟩ := isLink_displayed junction
    have later : ∀ depth rest, nestingFrom depth (linked junction (second :: texts) ++ rest) ≤
        max (depth + inner) (nestingFrom depth rest) :=
      nestingFrom_linked_le fun text mem => each text (by simp [mem])
    have whole := Renders.nestingFrom_link separates_space link (each first (by simp)) later
      depth rest
    rw [← displayed, Nat.max_self] at whole
    exact whole

/-- What is left of linked groups is read operand by operand, each from its group. -/
theorem readShape_linked {parts : List (Text × Condition Leaf)} {junction : Junction}
    (several : 2 ≤ parts.length) (each : ∀ part ∈ parts, Shows reader part.1 part.2)
    {levels : Nat} {store : ClauseStore} {rule : Text} (whole : Text)
    (low : Condition.depthOfAll (parts.map Prod.snd) ≤ levels)
    (abridges : Abridges store.Names
      (linked junction (parts.map fun part => bracketed part.1)) rule)
    (free : ∀ c ∈ rule, isBracket c = false) {bytes : Nat}
    (fewer : (linked junction (parts.map fun part => bracketed part.1)).byteLength ≤ bytes)
    (room : store.HasRoom bytes (outlay (Condition.depthOfAll (parts.map Prod.snd)) bytes)) :
    store.Answers (outlay (Condition.depthOfAll (parts.map Prod.snd)) bytes)
      (.ok (junction.join (parts.map Prod.snd)))
      (reader.readShape (reader.readExpression levels) whole rule store) := by
  have groups : ∀ text ∈ parts.map fun part => bracketed part.1, IsGroup text := by
    intro text mem
    obtain ⟨part, inside, rfl⟩ := List.mem_map.mp mem
    exact ⟨part.1, rfl, (each part inside).balanced⟩
  have deep : ∀ part ∈ parts, part.2.depth ≤ Condition.depthOfAll (parts.map Prod.snd) :=
    fun part mem => Condition.depthOfAll_le_iff.mp (Nat.le_refl _) _ (List.mem_map_of_mem mem)
  obtain ⟨marked_bytes, markers, short, rfl, marked⟩ := markers_of_abridges groups abridges free
  obtain _ | ⟨first, _ | ⟨second, rest⟩⟩ := parts
  · simp at several
  · simp at several
  have shape : Shape.of (linked junction markers) = .joined junction markers := by
    obtain ⟨further, full, remains⟩ := remains_linked marked
    rw [remains.shape_joined separates_space, segments_linked marked]
  have cheap := outlay_mono (Nat.le_refl (Condition.depthOfAll
    ((first :: second :: rest).map Prod.snd))) (short.trans fewer)
  have operands := readOperands_of_markers each marked (fun _ _ => id) deep low
    (room.weaken (short.trans fewer) cheap) junction (linked junction markers)
  rw [Reader.readShape, shape]
  exact (operands.weaken cheap).map junction.join

/-- Linked groups, at least two, are no group, not blank, and have no blanks around them. -/
theorem linked_of_several (junction : Junction) {texts : List Text}
    (several : 2 ≤ texts.length) (each : ∀ text ∈ texts, IsGroup text) :
    (linked junction texts).IsTrimmed ∧ linked junction texts ≠ [] ∧
      ¬IsGroup (linked junction texts) := by
  have ends : ∀ text ∈ texts, text.IsTrimmed ∧ text ≠ [] := by
    intro text mem
    obtain ⟨inner, rfl, -⟩ := each text mem
    exact ⟨isTrimmed_bracketed inner, by simp⟩
  obtain _ | ⟨first, _ | ⟨second, rest⟩⟩ := texts
  · simp at several
  · simp at several
  have whole : (linked junction (first :: second :: rest)).IsTrimmed ∧
      linked junction (first :: second :: rest) ≠ [] := isTrimmed_linked ends
  refine ⟨whole.1, whole.2, ?_⟩
  simp only [linked, List.append_assoc]
  exact Renders.not_isGroup_append (each first (by simp)).balanced (ends first (by simp)).2
    (by cases junction <;> simp [Junction.displayed])

/-- Conditions that are shown by texts are joined by showing them in brackets between keywords. -/
theorem Shows.joined {parts : List (Text × Condition Leaf)} (junction : Junction)
    (several : 2 ≤ parts.length) (each : ∀ part ∈ parts, Shows reader part.1 part.2) :
    Shows reader (linked junction (parts.map fun part => bracketed part.1))
      (junction.join (parts.map Prod.snd)) := by
  have among : ∀ {property : Text → Prop}, (∀ part ∈ parts, property (bracketed part.1)) →
      ∀ text ∈ parts.map fun part => bracketed part.1, property text := by
    intro property holds text mem
    obtain ⟨part, inside, rfl⟩ := List.mem_map.mp mem
    exact holds part inside
  have groups : ∀ text ∈ parts.map fun part => bracketed part.1, IsGroup text :=
    among fun part mem => ⟨part.1, rfl, (each part mem).balanced⟩
  have cleans : ∀ text ∈ parts.map fun part => bracketed part.1, IsClean text :=
    among fun part mem => isClean_bracketed (each part mem).clean
  have nested : ∀ text ∈ parts.map fun part => bracketed part.1, ∀ depth rest,
      nestingFrom depth (text ++ rest) ≤ max
        (depth + Condition.depthOfAll (parts.map Prod.snd)) (nestingFrom depth rest) := by
    refine among fun part mem depth rest => ?_
    have deep : part.2.depth ≤ Condition.depthOfAll (parts.map Prod.snd) :=
      Condition.depthOfAll_le_iff.mp (Nat.le_refl _) _ (List.mem_map_of_mem mem)
    have positive := part.2.depth_pos
    have inner := nestingFrom_bracketed_le (each part mem).nested depth rest
    omega
  have depth : (junction.join (parts.map Prod.snd)).depth - 1 =
      Condition.depthOfAll (parts.map Prod.snd) := by
    rw [Junction.depth_join, Nat.add_sub_cancel]
  have more : 2 ≤ (parts.map fun part => bracketed part.1).length := by simpa using several
  obtain ⟨trimmed, filled, bare⟩ := linked_of_several junction more groups
  refine ⟨balanced_linked groups, isClean_linked cleans (List.ne_nil_of_length_pos (by omega)),
    ?_, ?_, fun start text => ?_, fun levels store whole rule low abridges free room => ?_⟩
  · rwa [trimmed.trim_self]
  · rwa [trimmed.trim_self]
  · rw [depth]
    exact nestingFrom_linked_le nested start text
  · rw [trimmed.trim_self] at abridges
    rw [depth] at room ⊢
    exact readShape_linked several each whole (by omega) abridges free (Nat.le_refl _) room

end

end AccessRules
