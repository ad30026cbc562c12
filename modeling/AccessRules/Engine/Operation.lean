import AccessRules.Engine.Basic

/-!
# Operations

Everything that can be asked of an engine, as data. An operation gives an answer and the engine
after it; a list of operations is performed from left to right.
-/
namespace AccessRules

/-- A request to an engine. -/
inductive Operation (Subject : Type) where
  /-- Compile rule text. -/
  | compile (rule : Text)
  /-- Compile an element. -/
  | compileElement (element : Markup.Element)
  /-- Compile rules in order, up to the first that fails. -/
  | preload (rules : List Text)
  /-- Check rule text against a subject, or say why it does not compile. -/
  | tryCheck (rule : Text) (subject : Subject)
  /-- Check rule text against a subject. -/
  | check (rule : Text) (subject : Subject)
  /-- Check an element against a subject. -/
  | checkElement (element : Markup.Element) (subject : Subject)
  /-- Forget all compiled rules. -/
  | clear

/-- The answer to a request. -/
inductive Answer (Leaf : Type) where
  /-- A compiled rule. -/
  | condition (condition : Condition Leaf)
  /-- How many rules were compiled. -/
  | count (rules : Nat)
  /-- Whether access is granted. -/
  | decision (granted : Bool)
  /-- Nothing to say. -/
  | done

namespace Engine

variable {Leaf Subject : Type}

/-- Performs one operation. -/
def perform [Predicate Leaf Subject] (engine : Engine Leaf) :
    Operation Subject → Except RuleError (Answer Leaf) × Engine Leaf
  | .compile rule =>
    let (condition, engine) := engine.compile rule
    (condition.map .condition, engine)
  | .compileElement element =>
    let (condition, engine) := engine.compileElement element
    (condition.map .condition, engine)
  | .preload rules =>
    let (count, engine) := engine.preload rules
    (count.map .count, engine)
  | .tryCheck rule subject =>
    let (granted, engine) := engine.tryCheck rule subject
    (granted.map .decision, engine)
  | .check rule subject =>
    let (granted, engine) := engine.check rule subject
    (.ok (.decision granted), engine)
  | .checkElement element subject =>
    let (granted, engine) := engine.checkElement element subject
    (.ok (.decision granted), engine)
  | .clear => (.ok .done, engine.clear)

/-- The engine after a list of operations. -/
def after [Predicate Leaf Subject] (engine : Engine Leaf) (operations : List (Operation Subject)) :
    Engine Leaf :=
  operations.foldl (fun engine operation => (engine.perform operation).2) engine

end Engine

end AccessRules
