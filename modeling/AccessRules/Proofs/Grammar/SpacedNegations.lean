import AccessRules.Proofs.Grammar.Rendering
import AccessRules.Proofs.Grammar.RespacedRules

/-!
# Blanks behind the word for negation

Any blank separates operands from keywords, but behind the word for negation only a space, a tab or
a line end counts. A reader that knows literals only refuses every rule in which another blank
follows that word, and reads all other rules as if their blanks were spaces.
-/
namespace AccessRules

/-! ## Words before spaces -/

/-- The letters of the word for negation stand only before spaces. -/
structure SpacesNegations (text : Text) : Prop where
  /-- What follows them is a space. -/
  next : ∀ (word : Text) (c : Char), word.lower = "not".toList → word ++ [c] <:+: text → c = ' '
  /-- Something follows them. -/
  last : ∀ word : Text, word.lower = "not".toList → ¬word <:+ text

/-- Blanks are no letters of the word. -/
theorem toLower_of_isBlank {c : Char} (blank : Text.isBlank c = true) :
    c.toLower ∉ "not".toList := by
  intro letter
  have lower : ∀ w ∈ "not".toList, w.isLower = true := List.all_eq_true.mp (by decide)
  rw [isBlank_of_isAlpha (isAlpha_of_isLower_toLower (lower _ letter))] at blank
  contradiction

namespace SpacesNegations

variable {text front back : Text} {c : Char}

/-- Text without a letter of the word does not have the word. -/
theorem of_not_mem (free : ∀ c ∈ text, c.toLower ≠ 'n') : SpacesNegations text := by
  have absent (word : Text) (written : word.lower = "not".toList) : ¬word <:+: text := by
    intro inside
    have mem : 'n' ∈ word.lower := by
      rw [written]
      decide
    obtain ⟨c, among, lowered⟩ := List.mem_map.mp mem
    exact free c (inside.subset among) lowered
  exact ⟨fun word c written inside =>
      absurd ((List.prefix_append word [c]).isInfix.trans inside) (absent word written),
    fun word written ends => absent word written ends.isInfix⟩

/-- A text as short as the word does not have it, unless it is the word. -/
theorem of_length_le (short : text.length ≤ 3) (other : text.lower ≠ "not".toList) :
    SpacesNegations text := by
  have letters (word : Text) (written : word.lower = "not".toList) : word.length = 3 := by
    simpa [Text.lower] using congrArg List.length written
  constructor
  · intro word c written inside
    have longer := inside.length_le
    rw [List.length_append, letters word written, List.length_singleton] at longer
    omega
  · intro word written ends
    obtain rfl := ends.eq_of_length_le (by rw [letters word written]; exact short)
    exact other written

/-- A character that is no letter of the word may be put in front. -/
theorem cons (spaces : SpacesNegations text) (spare : c.toLower ∉ "not".toList) :
    SpacesNegations (c :: text) := by
  have lacks (word : Text) (written : word.lower = "not".toList) : c ∉ word ∧ word ≠ [] := by
    refine ⟨Text.not_mem_of_lower written spare, ?_⟩
    rintro rfl
    exact absurd written (by decide)
  constructor
  · intro word d written inside
    obtain ⟨absent, filled⟩ := lacks word written
    rcases List.infix_cons_iff.mp inside with first | later
    · obtain ⟨e, word, rfl⟩ := List.exists_cons_of_ne_nil filled
      obtain ⟨rest, split⟩ := first
      exact absurd ((List.cons.inj split).1 ▸ List.mem_cons_self) absent
    · exact spaces.next word d written later
  · intro word written ends
    obtain ⟨absent, -⟩ := lacks word written
    rcases List.suffix_cons_iff.mp ends with rfl | later
    · exact absent List.mem_cons_self
    · exact spaces.last word written later

/-- A character that is no letter of the word may be put behind. -/
theorem concat (spaces : SpacesNegations text) (spare : c.toLower ∉ "not".toList) :
    SpacesNegations (text ++ [c]) := by
  constructor
  · intro word d written inside
    rcases List.infix_concat_iff.mp inside with ends | earlier
    · rcases List.suffix_concat_iff.mp ends with none | ⟨front, same, ends⟩
      · simp at none
      · obtain ⟨rfl, -⟩ := List.append_inj' same rfl
        exact absurd ends (spaces.last word written)
    · exact spaces.next word d written earlier
  · intro word written ends
    have absent : c ∉ word := Text.not_mem_of_lower written spare
    rcases List.suffix_concat_iff.mp ends with rfl | ⟨front, rfl, -⟩
    · exact absurd written (by decide)
    · exact absent (by simp)

/-- Text without letters of the word may be put in front. -/
theorem prepend (spaces : SpacesNegations text) (spare : ∀ c ∈ front, c.toLower ∉ "not".toList) :
    SpacesNegations (front ++ text) := by
  induction front with
  | nil => exact spaces
  | cons c front ih =>
    exact (ih fun d mem => spare d (List.mem_cons_of_mem c mem)).cons (spare c List.mem_cons_self)

/-- Text without letters of the word may be put behind. -/
theorem append (spaces : SpacesNegations text) (spare : ∀ c ∈ back, c.toLower ∉ "not".toList) :
    SpacesNegations (text ++ back) := by
  induction back generalizing text with
  | nil => rwa [List.append_nil]
  | cons c back ih =>
    have more := ih (spaces.concat (spare c List.mem_cons_self))
      fun d mem => spare d (List.mem_cons_of_mem c mem)
    simpa using more

/-- Texts may be joined behind a character that is no letter of the word. -/
theorem join (first : SpacesNegations (front ++ [c])) (spare : c.toLower ∉ "not".toList)
    (second : SpacesNegations back) : SpacesNegations (front ++ c :: back) := by
  have split : front ++ c :: back = (front ++ [c]) ++ back := by simp
  rw [split]
  constructor
  · intro word d written inside
    rcases List.infix_append_iff.mp inside with earlier | later | ⟨left, right, cut, ends, begins⟩
    · exact first.next word d written earlier
    · exact second.next word d written later
    · -- The cut is at an end of the word with what follows it, since the character is not in it.
      have absent : c ∉ word := Text.not_mem_of_lower written spare
      rcases List.suffix_concat_iff.mp ends with rfl | ⟨more, rfl, -⟩
      · exact second.next word d written (by rw [cut]; exact begins.isInfix)
      · rcases List.eq_nil_or_concat right with rfl | ⟨some, e, rfl⟩
        · exact first.next word d written (by rw [cut, List.append_nil]; exact ends.isInfix)
        · rw [List.concat_eq_append, ← List.append_assoc] at cut
          obtain ⟨rfl, -⟩ := List.append_inj' cut rfl
          exact absurd (by simp) absent
  · rintro word written ⟨before, same⟩
    rw [← split] at same
    rcases Text.append_eq_append_cons same with ⟨between, -, rfl⟩ | ⟨between, -, rfl⟩
    · exact second.last word written (List.suffix_append between word)
    · exact Text.not_mem_of_lower written spare (by simp)

/-- Blanks around a text do not matter. -/
theorem of_trim (spaces : SpacesNegations text.trim) : SpacesNegations text := by
  obtain ⟨front, back, split, before, after⟩ := text.exists_eq_trim
  rw [split]
  exact (spaces.prepend fun c mem => toLower_of_isBlank (before c mem)).append
    fun c mem => toLower_of_isBlank (after c mem)

/-- Texts with a boundary between them may be joined. -/
theorem boundary {junction : Junction} {lead word trail : Text} (first : SpacesNegations front)
    (boundary : junction.IsBoundary lead word trail) (second : SpacesNegations back) :
    SpacesNegations (front ++ (lead ++ word ++ trail) ++ back) := by
  have leading : ∀ c ∈ lead, c.toLower ∉ "not".toList := by
    intro c mem
    rcases Junction.leads_iff.mp (boundary.leading c mem) with rfl | blank
    · decide
    · exact toLower_of_isBlank blank
  have trailing : ∀ c ∈ trail, c.toLower ∉ "not".toList := by
    intro c mem
    rcases Junction.trails_iff.mp (boundary.trailing c mem) with rfl | blank
    · decide
    · exact toLower_of_isBlank blank
  have keyword : SpacesNegations word := by
    have written := boundary.written
    have letters := congrArg List.length written
    rw [Text.lower, List.length_map] at letters
    cases junction with
    | or => exact of_length_le (letters.trans_le (by decide)) (written ▸ by decide)
    | and => exact of_length_le (letters.trans_le (by decide)) (written ▸ by decide)
  obtain ⟨c, further, rfl⟩ := List.exists_cons_of_ne_nil boundary.begun
  rcases List.eq_nil_or_concat trail with rfl | ⟨between, d, rfl⟩
  · exact absurd rfl boundary.unfinished
  rw [List.concat_eq_append] at trailing ⊢
  -- The first character before the keyword and the last one behind it are where texts are joined.
  have behind : SpacesNegations (word ++ between ++ d :: back) := by
    refine join ?_ (trailing d (by simp)) second
    rw [List.append_assoc]
    exact keyword.append trailing
  have whole := join (first.concat (leading c (by simp))) (leading c (by simp))
    (behind.prepend fun e mem => leading e (List.mem_cons_of_mem c mem))
  simpa using whole

/-- A negation of a text may be written before it. -/
theorem negation {word : Text} (spaces : SpacesNegations text)
    (written : word.lower = "not ".toList) : SpacesNegations (word ++ text) := by
  obtain ⟨letters, rfl, negates⟩ := eq_append_space_of_lower written
  have alone : SpacesNegations (letters ++ [' ']) := by
    constructor
    · intro other c again inside
      have same : (other ++ [c]).length = (letters ++ [' ']).length := by
        have lengths := congrArg List.length (again.trans negates.symm)
        simpa [Text.lower] using lengths
      exact List.singleton_inj.mp (List.append_inj' (inside.eq_of_length same) rfl).2
    · intro other again ends
      rcases List.suffix_concat_iff.mp ends with rfl | ⟨front, rfl, -⟩
      · exact absurd again (by decide)
      · exact Text.not_mem_of_lower again (by decide) (by simp : ' ' ∈ front ++ [' '])
  have whole := alone.join (by decide) spaces
  simpa using whole

end SpacesNegations

/-! ## Readers without readers of tokens -/

namespace Reader

variable {Leaf : Type} {reader : Reader Leaf}

/-- Without readers of tokens only literals are known. -/
theorem readToken_of_bare (bare : reader.tokenReaders = []) (token : Text) :
    reader.readToken token =
      if Text.sameWord token "true".toList then .ok (.literal true)
      else if Text.sameWord token "false".toList then .ok (.literal false)
      else .error (.unrecognized token) := by
  rw [readToken, bare]
  rfl

/-- Tokens are read as before if their blanks become spaces. -/
theorem readToken_mirrors {respace : Char → Char} (bare : reader.tokenReaders = [])
    (respacing : IsRespacing respace) (token : Text) :
    Mirrors Eq (reader.readToken token) (reader.readToken (token.map respace)) := by
  have letters (word : Text) (lower : word.lower.all Char.isLower = true) :
      Text.sameWord (token.map respace) word = Text.sameWord token word :=
    respacing.sameWord_map (List.all_eq_true.mp lower) token
  rw [readToken_of_bare bare, readToken_of_bare bare, letters _ (by decide), letters _ (by decide)]
  split
  · exact ⟨_, rfl, rfl⟩
  · split
    · exact ⟨_, rfl, rfl⟩
    · exact .of_errors _ _

end Reader

/-- If only literals are known, an accepted text has the word for negation before spaces only. -/
theorem Derives.spacesNegations {Leaf : Type} {reader : Reader Leaf} {text : Text}
    {condition : Condition Leaf} (bare : reader.tokenReaders = [])
    (derives : Derives reader text condition) : SpacesNegations text := by
  induction derives with
  | blank none =>
    apply SpacesNegations.of_trim
    rw [none]
    exact .of_not_mem (by simp)
  | group whole balanced further ih =>
    apply SpacesNegations.of_trim
    rw [whole]
    exact (ih.cons (by decide)).concat (by decide)
  | joined functional divides parted shape filled each ih =>
    apply SpacesNegations.of_trim
    refine divides.separates.whole_of_parts SpacesNegations.boundary fun part mem => ?_
    obtain ⟨pair, inside, rfl⟩ := List.mem_map.mp mem
    exact ih pair inside
  | negation whole written abridges parted shape further ih =>
    apply SpacesNegations.of_trim
    rw [whole]
    exact ih.negation written
  | @token text condition filled free shape read =>
    apply SpacesNegations.of_trim
    have literal {word : Text} (same : Text.sameWord text.trim word = true)
        (lacks : 'n' ∉ word.lower) : SpacesNegations text.trim := by
      refine .of_not_mem fun c mem letter => lacks ?_
      rw [← beq_iff_eq.mp same, ← letter]
      exact List.mem_map_of_mem mem
    rw [Reader.readToken_of_bare bare] at read
    split at read
    · rename_i same
      exact literal same (by decide)
    · split at read
      · rename_i same
        exact literal same (by decide)
      · contradiction

/-! ## Rules -/

/-- Separators behind the word for negation are read as spaces. -/
theorem NegatesWith.map_plainSpace {rule : Text} (negates : NegatesWith isSeparator rule) :
    NegatesWith isSpace (rule.map plainSpace) := by
  intro word c written blank inside
  obtain ⟨before, found, same⟩ := List.infix_map_iff.mp inside
  obtain ⟨letters, last, rfl, lowered, ended⟩ := List.map_eq_append_iff.mp same.symm
  obtain ⟨d, rfl, rfl⟩ := List.map_eq_singleton_iff.mp ended
  obtain rfl := isRespacing_plainSpace.eq_of_solid (solid_of_negation written) lowered
  rw [isBlank_plainSpace] at blank
  exact Expression.isSpace_plainSpace (negates letters d written blank found)

namespace Reader

variable {Leaf : Type} {reader : Reader Leaf} {rule other : Text}

/-- If only literals are known, only separators follow the word for negation in an accepted rule. -/
theorem negatesWith_of_read {tree : Condition Leaf} (bare : reader.tokenReaders = [])
    (accepted : reader.read rule = .ok tree) : NegatesWith isSeparator rule := by
  intro word c written blank inside
  have found := inside.map plainSpace
  rw [List.map_append, isRespacing_plainSpace.map_of_solid (solid_of_negation written)] at found
  have spaces := (derives_of_read accepted).spacesNegations bare
  exact Expression.isSeparator_of_plainSpace (spaces.next word _ written found)

/-- If only literals are known and only separators follow the word for negation, a rule is read as
if all its blanks were spaces. -/
theorem read_mirrors_uniformSpace (bare : reader.tokenReaders = [])
    (negates : NegatesWith isSeparator rule) :
    Mirrors Eq (reader.read rule) (reader.read (rule.map uniformSpace)) :=
  read_mirrors isRespacing_uniformSpace (fun c space => by simpa [isSpace] using space)
    (readToken_mirrors bare isRespacing_uniformSpace) negates.map_plainSpace

/-- Two rules that differ in their blanks only, and exceed no limits, are accepted as the same tree
or refused both, if only literals are known and in both or in neither of them only separators follow
the word for negation. Every rule in which another blank follows that word is refused. -/
theorem read_iff_of_sameSolids (bare : reader.tokenReaders = []) (same : rule.SameSolids other)
    (within : ∀ error, reader.read rule = .error error → error.isExceeded = false)
    (within_other : ∀ error, reader.read other = .error error → error.isExceeded = false) :
    ((NegatesWith isSeparator rule ↔ NegatesWith isSeparator other) →
      ∀ tree, reader.read rule = .ok tree ↔ reader.read other = .ok tree) ∧
    (¬NegatesWith isSeparator rule → ∀ tree, reader.read rule ≠ .ok tree) := by
  have refused {text : Text} (gap : ¬NegatesWith isSeparator text) (tree : Condition Leaf) :
      reader.read text ≠ .ok tree := fun accepted => gap (negatesWith_of_read bare accepted)
  refine ⟨fun both tree => ?_, refused⟩
  by_cases negates : NegatesWith isSeparator rule
  · -- Both are read as the one rule that has spaces for their blanks.
    have first := read_mirrors_uniformSpace bare negates
    have second := read_mirrors_uniformSpace bare (both.mp negates)
    rw [← Text.sameSolids_iff.mp same] at second
    rw [first.ok_iff within, second.ok_iff within_other]
  · exact iff_of_false (refused negates tree) (refused (mt both.mpr negates) tree)

/-- Blanks of other kinds around keywords, brackets and tokens, with separators behind the word for
negation. -/
theorem read_other_blanks :
    ({} : Reader Empty).read "not true\tor\u2003(\u00a0FALSE )".toList =
        .ok (.or [.not (.literal true), .literal false]) ∧
      Text.SameSolids "not true\tor\u2003(\u00a0FALSE )".toList
        "not\ntrue\u3000or\r(\tFALSE\u2028)".toList ∧
      ∀ tree, ({} : Reader Empty).read "not true\tor\u2003(\u00a0FALSE )".toList = .ok tree ↔
        ({} : Reader Empty).read "not\ntrue\u3000or\r(\tFALSE\u2028)".toList = .ok tree := by
  have accepted : ({} : Reader Empty).read "not true\tor\u2003(\u00a0FALSE )".toList =
      .ok (.or [.not (.literal true), .literal false]) := by rfl
  have again : ({} : Reader Empty).read "not\ntrue\u3000or\r(\tFALSE\u2028)".toList =
      .ok (.or [.not (.literal true), .literal false]) := by rfl
  have same : Text.SameSolids "not true\tor\u2003(\u00a0FALSE )".toList
      "not\ntrue\u3000or\r(\tFALSE\u2028)".toList := by decide
  exact ⟨accepted, same, (read_iff_of_sameSolids rfl same
    (fun _ refused => nomatch accepted.symm.trans refused)
    fun _ refused => nomatch again.symm.trans refused).1 (by decide)⟩

/-- A negation with a space is accepted, and the same rule with a no-break space is refused, though
no-break spaces separate operands from keywords. -/
theorem no_break_negation_refused :
    Text.SameSolids "not true".toList "not\u00a0true".toList ∧
      ({} : Reader Empty).read "not true".toList = .ok (.not (.literal true)) ∧
      ({} : Reader Empty).read "not\u00a0true".toList =
        .error (.unrecognized "not\u00a0true".toList) ∧
      ({} : Reader Empty).read "true\u00a0and\u00a0true".toList =
        .ok (.and [.literal true, .literal true]) :=
  ⟨by decide, by rfl, by rfl, by rfl⟩

end Reader

end AccessRules
