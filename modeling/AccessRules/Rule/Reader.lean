import AccessRules.Condition.Render
import AccessRules.Markup.Document
import AccessRules.Markup.Render
import AccessRules.Rule.ClauseStore
import AccessRules.Rule.Limits
import AccessRules.Rule.Shape

/-!
# Readers of rules

A reader compiles rule text, elements and documents to conditions under limits. What a token or an
element means as a leaf is decided by readers of leaves, asked in order: each knows it, does not
know it, or refuses it. The literals `true` and `false` are known without them.
-/
namespace AccessRules

/-- Reads a token as a leaf: gives a condition, none for a token of others, or refuses it. -/
abbrev TokenReader (Leaf : Type) := Text → Except RuleError (Option (Condition Leaf))

/-- Reads an element as a leaf: gives a condition, none for an element of others, or refuses it. -/
abbrev ElementReader (Leaf : Type) := Markup.Element → Except RuleError (Option (Condition Leaf))

/-- The first answer of some reader, in order. A refusal ends the search. -/
def firstAnswer {α β : Type} (source : α) :
    List (α → Except RuleError (Option β)) → Except RuleError (Option β)
  | [] => .ok none
  | reader :: rest => do
    match ← reader source with
    | some answer => return some answer
    | none => firstAnswer source rest

/-- Limits and readers of leaves. -/
structure Reader (Leaf : Type) where
  /-- Bounds on reading. -/
  limits : Limits := {}
  /-- Readers of tokens, the first one asked first. -/
  tokenReaders : List (TokenReader Leaf) := []
  /-- Readers of elements, the first one asked first. -/
  elementReaders : List (ElementReader Leaf) := []

namespace Reader

variable {Leaf : Type}

/-- The condition of a single token. -/
def readToken (reader : Reader Leaf) (token : Text) : Except RuleError (Condition Leaf) :=
  if Text.sameWord token "true".toList then .ok (.literal true)
  else if Text.sameWord token "false".toList then .ok (.literal false)
  else do
    match ← firstAnswer token reader.tokenReaders with
    | some condition => return condition
    | none => .error (.unrecognized token)

/-- Reads the operands of a junction from left to right, each with the store that the one before
left. `rule` is shown where an operand is missing. -/
def readOperands (read : ClauseStore → Text → Except RuleError (Condition Leaf × ClauseStore))
    (junction : Junction) (rule : Text) :
    ClauseStore → List Text → Except RuleError (List (Condition Leaf) × ClauseStore)
  | store, [] => .ok ([], store)
  | store, segment :: rest =>
    if segment.trim = [] then .error (.malformed (.missingOperand junction) (some rule))
    else do
      let text ← store.expand segment
      let (operand, store) ← read store text
      let (operands, store) ← readOperands read junction rule store rest
      return (operand :: operands, store)

/-- Reads what is left of a text after its bracket groups are taken out, by its shape. A token that
hides groups is read again with them, unless nothing was gained. -/
def readShape (reader : Reader Leaf)
    (read : ClauseStore → Text → Except RuleError (Condition Leaf × ClauseStore))
    (text rule : Text) (store : ClauseStore) : Except RuleError (Condition Leaf × ClauseStore) :=
  match Shape.of rule with
  | .joined junction segments => do
    let (operands, store) ← readOperands read junction rule store segments
    return (junction.join operands, store)
  | .dangling junction => do
    let expanded ← store.expand rule
    .error (.malformed (.missingOperand junction) (some expanded))
  | .negation operand => do
    let expanded ← store.expand operand
    let (condition, store) ← read store expanded
    return (.not condition, store)
  | .bareNegation => .error (.malformed .missingNegated (some rule))
  | .atom => do
    let expanded ← store.expand rule
    if expanded.contains '(' && expanded.contains ')' then
      if expanded = rule ∨ expanded.trim = text then
        .error (.malformed .unseparatedBrackets (some expanded))
      else read store expanded
    else
      let condition ← reader.readToken expanded.trim
      return (condition, store)

/-- Reads an expression that may open `levels` levels of nesting. -/
def readExpression (reader : Reader Leaf) :
    (levels : Nat) → ClauseStore → Text → Except RuleError (Condition Leaf × ClauseStore)
  | 0, _, _ => .error (.exceeded (.nesting reader.limits.maxDepth))
  | levels + 1, store, text =>
    if text.trim = [] ∨ text.trim = ['(', ')'] then .ok (.literal true, store)
    else do
      let (rule, store) ← store.extract text.trim
      if rule = [] then return (.literal true, store)
      reader.readShape (reader.readExpression levels) text.trim rule store

/-- Tabs and line ends separate like spaces. -/
def plainSpaces (text : Text) : Text :=
  text.map fun c => if c = '\t' ∨ c = '\n' ∨ c = '\r' then ' ' else c

/-- Compiles rule text. Blank text and empty brackets always hold. -/
def read (reader : Reader Leaf) (rule : Text) : Except RuleError (Condition Leaf) :=
  let limits := reader.limits
  if limits.maxLength < rule.byteLength then
    .error (.exceeded (.rule rule.byteLength limits.maxLength))
  else if limits.maxDepth < Bracket.nesting rule then
    .error (.exceeded (.brackets (Bracket.nesting rule) limits.maxDepth))
  else
    match Marker.find? rule with
    | some digits => .error (.malformed .reservedMarker (some (Marker.ofDigits digits)))
    | none => do
      let (condition, _) ←
        reader.readExpression limits.levels (.ofLimits limits) (plainSpaces rule)
      return condition

/-- The condition of an element that stands for no operator. -/
def readLeafElement (reader : Reader Leaf) (element : Markup.Element) :
    Except RuleError (Condition Leaf) := do
  match ← firstAnswer element reader.elementReaders with
  | some condition => return condition
  | none => .error (.unrecognized element.render)

/-- Compiles an element that may open `levels` levels of nesting. A negation takes the first child
and passes over the others. -/
def readElementWithin (reader : Reader Leaf) :
    (levels : Nat) → Markup.Element → Except RuleError (Condition Leaf)
  | 0, _ => .error (.exceeded (.nesting reader.limits.maxDepth))
  | levels + 1, element =>
    if element.name = operatorElement then
      match element.attribute? operatorKey with
      | none => .error (.malformed .missingOperator (some element.render))
      | some name =>
        match Operator.ofName? name.trim.lower with
        | some (.literal value) => .ok (.literal value)
        | some .not =>
          match element.firstChild? with
          | none => .error (.malformed .missingNegated (some element.render))
          | some child => do
            let operand ← reader.readElementWithin levels child
            return .not operand
        | some .and => do
          let operands ← element.children.mapM (reader.readElementWithin levels)
          return .and operands
        | some .or => do
          let operands ← element.children.mapM (reader.readElementWithin levels)
          return .or operands
        | none => reader.readLeafElement element
    else reader.readLeafElement element

/-- Compiles an element. -/
def readElement (reader : Reader Leaf) (element : Markup.Element) :
    Except RuleError (Condition Leaf) :=
  reader.readElementWithin reader.limits.levels element

/-- Compiles an element that may be absent; an absent one always holds. -/
def readElement? (reader : Reader Leaf) :
    Option Markup.Element → Except RuleError (Condition Leaf)
  | none => .ok (.literal true)
  | some element => reader.readElement element

/-- Compiles the root of a document. -/
def readDocument (reader : Reader Leaf) (document : Text) : Except RuleError (Condition Leaf) :=
  if reader.limits.maxLength < document.byteLength then
    .error (.exceeded (.document document.byteLength reader.limits.maxLength))
  else
    match Markup.Element.read document with
    | .error error => .error (.markup error)
    | .ok root => reader.readElement root

/-- The reader with all its parts named. -/
def inspect (reader : Reader Leaf) : Text :=
  "ConditionParser \x7b leaf_factories: ".toList ++ Text.decimal reader.tokenReaders.length ++
    ", xml_leaf_factories: ".toList ++ Text.decimal reader.elementReaders.length ++
    ", limits: ".toList ++ reader.limits.inspect ++ " \x7d".toList

end Reader

end AccessRules
