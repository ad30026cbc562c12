import AccessRules.Rule.Reader
import AccessRules.Settings.Basic

/-!
# Engines

An engine compiles rules and keeps what it compiled under the source, so that no source is
compiled twice while it is kept. Rule text and elements are different sources, also where they
are written alike. A rule that does not compile is never kept, and a check against it denies.
-/
namespace AccessRules

/-- What a compiled rule is kept under. -/
inductive Source where
  /-- Rule text. -/
  | text (rule : Text)
  /-- The written form of an element. -/
  | markup (written : Text)
deriving DecidableEq

/-- Why an engine fails. -/
inductive EngineError where
  /-- There are no settings. -/
  | settings (error : SettingsError)
  /-- A rule does not compile. -/
  | rule (error : RuleError)
deriving DecidableEq

/-- The message of a failure. -/
def EngineError.message : EngineError → String
  | settings error => error.message
  | rule error => "Parser error: " ++ error.message

/-- A reader of rules and the rules that it compiled. -/
structure Engine (Leaf : Type) where
  /-- The reader of rules. -/
  reader : Reader Leaf
  /-- How compiled rules are kept. -/
  settings : CacheSettings
  /-- The compiled rules that are kept, each under its source. -/
  cache : List (Source × Condition Leaf) := []

namespace Engine

variable {Leaf Subject : Type}

/-- An engine with settings and readers of leaves. The settings are checked first. -/
def build (settings : Settings) (tokenReaders : List (TokenReader Leaf))
    (elementReaders : List (ElementReader Leaf)) : Except SettingsError (Engine Leaf) := do
  let settings ← settings.validate
  return ⟨{ limits := settings.limits, tokenReaders, elementReaders }, settings.cache, []⟩

/-- The compiled rule that is kept under a source. -/
def lookup? (engine : Engine Leaf) (source : Source) : Option (Condition Leaf) :=
  if engine.settings.enabled then engine.cache.lookup source else none

/-- Keeps a compiled rule, unless one is kept under its source or there is no room. -/
def store (engine : Engine Leaf) (source : Source) (condition : Condition Leaf) : Engine Leaf :=
  if engine.settings.enabled ∧ engine.cache.lookup source = none ∧
      engine.cache.length < engine.settings.maxEntries then
    { engine with cache := (source, condition) :: engine.cache }
  else engine

/-- The condition of a source: the one that is kept, or a fresh one, which is then kept. -/
def compileSource (engine : Engine Leaf) (source : Source)
    (fresh : Unit → Except RuleError (Condition Leaf)) :
    Except RuleError (Condition Leaf) × Engine Leaf :=
  match engine.lookup? source with
  | some condition => (.ok condition, engine)
  | none =>
    match fresh () with
    | .error error => (.error error, engine)
    | .ok condition => (.ok condition, engine.store source condition)

/-- Compiles rule text. -/
def compile (engine : Engine Leaf) (rule : Text) :
    Except RuleError (Condition Leaf) × Engine Leaf :=
  engine.compileSource (.text rule) fun _ => engine.reader.read rule

/-- Compiles an element. -/
def compileElement (engine : Engine Leaf) (element : Markup.Element) :
    Except RuleError (Condition Leaf) × Engine Leaf :=
  engine.compileSource (.markup element.render) fun _ => engine.reader.readElement element

/-- Compiles rules in order up to the first that fails, and counts them. -/
def preload : Engine Leaf → List Text → Except RuleError Nat × Engine Leaf
  | engine, [] => (.ok 0, engine)
  | engine, rule :: rest =>
    match engine.compile rule with
    | (.error error, engine) => (.error error, engine)
    | (.ok _, engine) =>
      let (count, engine) := preload engine rest
      (count.map (· + 1), engine)

/-- The rule holds of the subject. -/
def tryCheck [Predicate Leaf Subject] (engine : Engine Leaf) (rule : Text) (subject : Subject) :
    Except RuleError Bool × Engine Leaf :=
  let (condition, engine) := engine.compile rule
  (condition.map (·.holds subject), engine)

/-- The rule compiles and holds of the subject. -/
def check [Predicate Leaf Subject] (engine : Engine Leaf) (rule : Text) (subject : Subject) :
    Bool × Engine Leaf :=
  let (granted, engine) := engine.tryCheck rule subject
  (granted.toOption.getD false, engine)

/-- The element compiles and holds of the subject. -/
def checkElement [Predicate Leaf Subject] (engine : Engine Leaf) (element : Markup.Element)
    (subject : Subject) : Bool × Engine Leaf :=
  let (condition, engine) := engine.compileElement element
  ((condition.map (·.holds subject)).toOption.getD false, engine)

/-- Forgets all compiled rules. -/
def clear (engine : Engine Leaf) : Engine Leaf := { engine with cache := [] }

/-- How many compiled rules are kept. -/
def cached (engine : Engine Leaf) : Nat := engine.cache.length

/-- The engine with all its parts named. -/
def inspect (engine : Engine Leaf) : Text :=
  "RuleEngine \x7b parser: ".toList ++ engine.reader.inspect ++ ", cache_config: ".toList ++
    engine.settings.inspect ++ ", cached_rules: ".toList ++ Text.decimal engine.cached ++
    " \x7d".toList

end Engine

end AccessRules
