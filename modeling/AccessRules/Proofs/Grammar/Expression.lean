import AccessRules.Proofs.Text.Words
import AccessRules.Rule.Reader

/-!
# Expressions

The grammar of rules: disjunctions of conjunctions of negations of atoms, where an atom is a token,
an expression in brackets or an empty pair of brackets. An expression has many written forms, which
differ in the case of keywords and in the blanks around them and inside brackets, and one tree.
-/
namespace AccessRules

/-- How loosely a junction binds. -/
def Junction.rank : Junction → Nat
  | and => 1
  | or => 2

/-- Operands without a junction bind tighter than every junction. -/
theorem Junction.rank_pos (junction : Junction) : 0 < junction.rank := by
  cases junction <;> decide

/-- Junctions bind differently. -/
theorem Junction.rank_inj {left right : Junction} (same : left.rank = right.rank) :
    left = right := by
  cases left <;> cases right <;> first | rfl | exact absurd same (by decide)

/-- An expression of the grammar of rules. -/
inductive Expression where
  /-- A token. -/
  | token (word : Text)
  /-- A pair of brackets around nothing. -/
  | vacant
  /-- An expression in brackets. -/
  | group (inner : Expression)
  /-- A negated operand. -/
  | negation (operand : Expression)
  /-- Operands joined by a junction: a first one and further ones. -/
  | joined (junction : Junction) (first : Expression) (further : List Expression)

namespace Expression

/-- How loosely an expression binds: an operand must bind tighter than what it is an operand of. -/
def rank : Expression → Nat
  | joined junction _ _ => junction.rank
  | _ => 0

mutual

/-- The levels of brackets, negations and junctions above the deepest token. -/
def height : Expression → Nat
  | token _ => 0
  | vacant => 1
  | group inner => height inner + 1
  | negation operand => height operand + 1
  | joined _ first further => max (height first) (heightOfAll further) + 1

/-- The height of the highest expression of a list, zero if there is none. -/
def heightOfAll : List Expression → Nat
  | [] => 0
  | first :: rest => max (height first) (heightOfAll rest)

end

mutual

/-- The tree of an expression. Tokens are compiled from left to right, and the first one that is
refused is the answer. -/
def compile {Leaf : Type} (reader : Reader Leaf) :
    Expression → Except RuleError (Condition Leaf)
  | token word => reader.readToken word
  | vacant => .ok (.literal true)
  | group inner => compile reader inner
  | negation operand => do
    let condition ← compile reader operand
    return .not condition
  | joined junction first further => do
    let condition ← compile reader first
    let others ← compileAll reader further
    return junction.join (condition :: others)

/-- The trees of a list of expressions. -/
def compileAll {Leaf : Type} (reader : Reader Leaf) :
    List Expression → Except RuleError (List (Condition Leaf))
  | [] => .ok []
  | first :: rest => do
    let condition ← compile reader first
    let others ← compileAll reader rest
    return condition :: others

end

/-- A junction is compiled with all its operands from left to right. -/
theorem compile_joined {Leaf : Type} (reader : Reader Leaf) (junction : Junction)
    (first : Expression) (further : List Expression) :
    compile reader (.joined junction first further) = do
      let conditions ← compileAll reader (first :: further)
      return junction.join conditions := by
  rw [compile, compileAll]
  cases compile reader first with
  | error error => rfl
  | ok condition => cases compileAll reader further <;> rfl

/-- What may be written as a token. -/
structure IsToken (word : Text) : Prop where
  /-- It has characters. -/
  filled : word ≠ []
  /-- It is trimmed. -/
  trimmed : word.trim = word
  /-- It has no brackets, tabs and line ends. -/
  plain : ∀ c ∈ word, c ≠ '(' ∧ c ≠ ')' ∧ c ≠ '\t' ∧ c ≠ '\n' ∧ c ≠ '\r'
  /-- It has no markers. -/
  unmarked : Marker.find? word = none
  /-- None of its words is the keyword of a junction. -/
  unjoined : ∀ part ∈ word.words, ∀ junction : Junction, part.lower ≠ junction.keyword
  /-- Its first word is not the one for negation. -/
  affirmative : ∀ part ∈ word.words.head?, part.lower ≠ "not".toList
  /-- It neither starts nor ends with the keyword of a junction as a word of its own. -/
  undangling : ∀ junction : Junction, junction.starts word = false ∧
    junction.finishes word = false

/-- Checks whether a text may be written as a token. -/
def isToken (word : Text) : Bool :=
  !word.isEmpty && word.trim == word &&
    word.all (fun c => c != '(' && c != ')' && c != '\t' && c != '\n' && c != '\r') &&
    (Marker.find? word).isNone &&
    word.words.all (fun part =>
      part.lower != Junction.or.keyword && part.lower != Junction.and.keyword) &&
    word.words.head?.all (fun part => part.lower != "not".toList) &&
    [Junction.or, Junction.and].all (fun junction =>
      !junction.starts word && !junction.finishes word)

/-- The check finds exactly what may be written as a token. -/
theorem isToken_iff {word : Text} : isToken word = true ↔ IsToken word := by
  simp only [isToken, Bool.and_eq_true, Bool.not_eq_true', List.isEmpty_eq_false_iff, beq_iff_eq,
    List.all_eq_true, bne_iff_ne, Option.isNone_iff_eq_none, Option.all_eq_true,
    List.forall_mem_cons, List.not_mem_nil, false_implies, implies_true, and_true, and_assoc]
  constructor
  · rintro ⟨filled, trimmed, plain, unmarked, unjoined, affirmative, startsOr, endsOr, startsAnd,
      endsAnd⟩
    refine ⟨filled, trimmed, plain, unmarked, fun part mem junction => ?_, affirmative,
      fun junction => ?_⟩
    · cases junction with
      | or => exact (unjoined part mem).1
      | and => exact (unjoined part mem).2
    · cases junction with
      | or => exact ⟨startsOr, endsOr⟩
      | and => exact ⟨startsAnd, endsAnd⟩
  · intro valid
    obtain ⟨startsOr, endsOr⟩ := valid.undangling .or
    obtain ⟨startsAnd, endsAnd⟩ := valid.undangling .and
    exact ⟨valid.filled, valid.trimmed, valid.plain, valid.unmarked,
      fun part mem => ⟨valid.unjoined part mem .or, valid.unjoined part mem .and⟩,
      valid.affirmative, startsOr, endsOr, startsAnd, endsAnd⟩

/-- It can be decided whether a text may be written as a token. -/
instance (word : Text) : Decidable (IsToken word) := decidable_of_iff _ isToken_iff

/-- A written keyword of a junction with gaps before and after it. -/
structure IsLink (gap : Char → Bool) (junction : Junction) (before word after : Text) : Prop where
  /-- A gap leads to the keyword. -/
  leading : before ≠ []
  /-- A gap trails the keyword. -/
  trailing : after ≠ []
  /-- Gaps are made of characters of their kind. -/
  gaps : ∀ c ∈ before ++ after, gap c = true
  /-- The keyword is written in any case. -/
  written : word.lower = junction.keyword

/-- The text is a written form of the expression, with gaps of characters of a kind. A junction has
at least two operands, and an operand binds tighter than what it is an operand of. -/
inductive Renders (gap : Char → Bool) : Expression → Text → Prop where
  | token {word : Text} (valid : IsToken word) : Renders gap (.token word) word
  | vacant {inside : Text} (gaps : ∀ c ∈ inside, gap c = true) :
      Renders gap .vacant ('(' :: inside ++ [')'])
  | group {inner : Expression} {before middle after : Text}
      (gaps : ∀ c ∈ before ++ after, gap c = true) (inside : Renders gap inner middle) :
      Renders gap (.group inner) ('(' :: (before ++ middle ++ after) ++ [')'])
  | negation {operand : Expression} {word space rest : Text}
      (written : word.lower = "not".toList) (filled : space ≠ [])
      (gaps : ∀ c ∈ space, gap c = true) (unary : operand.rank = 0)
      (further : Renders gap operand rest) :
      Renders gap (.negation operand) (word ++ space ++ rest)
  | pair {junction : Junction} {first second : Expression} {front before word after back : Text}
      (link : IsLink gap junction before word after) (left : Renders gap first front)
      (tight : first.rank < junction.rank) (right : Renders gap second back)
      (tight_right : second.rank < junction.rank) :
      Renders gap (.joined junction first [second]) (front ++ (before ++ word ++ after) ++ back)
  | more {junction : Junction} {first second : Expression} {further : List Expression}
      {front before word after back : Text} (link : IsLink gap junction before word after)
      (left : Renders gap first front) (tight : first.rank < junction.rank)
      (right : Renders gap (.joined junction second further) back) :
      Renders gap (.joined junction first (second :: further))
        (front ++ (before ++ word ++ after) ++ back)

end Expression

/-- The character separates the parts of a rule: space, tab, line feed or carriage return. -/
def isSeparator (c : Char) : Bool := c = ' ' || c = '\t' || c = '\n' || c = '\r'

/-- The character is a space. -/
def isSpace (c : Char) : Bool := c = ' '

end AccessRules
