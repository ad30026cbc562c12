import AccessRules.Proofs.Engine.Freshness

/-!
# Accounting for kept rules

What an operation does to the rules that an engine keeps is settled by three questions: is anything
kept at all, is a rule kept under the source already, and is there room. A single rule that compiles
is added if the answers allow it, and nothing else is added or taken away but by forgetting all. So
the sources of the kept rules are distinct, there are never more than the settings allow, and
preloading is compiling one rule after another.
-/
namespace AccessRules

/-- The single rule that an operation asks for: its source, and what the reader makes of it. -/
def Reader.request? {Leaf Subject : Type} (reader : Reader Leaf) :
    Operation Subject → Option (Source × Except RuleError (Condition Leaf))
  | .compile rule => some (.text rule, reader.read rule)
  | .tryCheck rule _ => some (.text rule, reader.read rule)
  | .check rule _ => some (.text rule, reader.read rule)
  | .compileElement element => some (.markup element.render, reader.readElement element)
  | .checkElement element _ => some (.markup element.render, reader.readElement element)
  | .preload _ => none
  | .clear => none

namespace Engine

variable {Leaf Subject : Type} {engine : Engine Leaf} {source : Source}

/-- A rule that is compiled from the source is kept. -/
structure Admits (engine : Engine Leaf) (source : Source) : Prop where
  /-- Rules are kept at all. -/
  enabled : engine.settings.enabled = true
  /-- No rule is kept under the source yet. -/
  absent : source ∉ engine.cache.map Prod.fst
  /-- There is room for one more. -/
  room : engine.cached < engine.settings.maxEntries

/-- The engine with one more rule that is kept. -/
def keeping (engine : Engine Leaf) (source : Source) (condition : Condition Leaf) : Engine Leaf :=
  { engine with cache := (source, condition) :: engine.cache }

/-- The engine after compiling rules one by one. -/
def compiling (engine : Engine Leaf) (rules : List Text) : Engine Leaf :=
  rules.foldl (fun engine rule => (engine.compile rule).2) engine

/-- What asking for a single rule does to an engine: a rule that compiles is added where it is
admitted, and else nothing changes. -/
structure Accounts (before : Engine Leaf) (source : Source)
    (outcome : Except RuleError (Condition Leaf)) (after : Engine Leaf) : Prop where
  /-- An admitted rule that compiles is added. -/
  added : ∀ condition, before.Admits source → outcome = .ok condition →
    after = before.keeping source condition
  /-- A rule that is not admitted or does not compile changes nothing. -/
  unchanged : ¬(before.Admits source ∧ ∃ condition, outcome = .ok condition) → after = before

/-! ## One rule -/

/-- Nothing is found under a source exactly if no rule is kept under it. -/
theorem lookup_eq_none_iff :
    engine.cache.lookup source = none ↔ source ∉ engine.cache.map Prod.fst := by
  rw [List.lookup_eq_none_iff]
  constructor
  · intro refused mem
    obtain ⟨entry, inside, rfl⟩ := List.mem_map.mp mem
    simpa using refused entry inside
  · intro absent entry inside
    have other : source ≠ entry.1 := fun same => absent (same ▸ List.mem_map_of_mem inside)
    simpa using other

/-- A rule is stored where it is admitted. -/
theorem store_eq_keeping (admits : engine.Admits source) (condition : Condition Leaf) :
    engine.store source condition = engine.keeping source condition :=
  if_pos ⟨admits.enabled, lookup_eq_none_iff.mpr admits.absent, admits.room⟩

/-- A rule that is not admitted is not stored. -/
theorem store_eq_self (refused : ¬engine.Admits source) (condition : Condition Leaf) :
    engine.store source condition = engine :=
  if_neg fun room => refused ⟨room.1, lookup_eq_none_iff.mp room.2.1, room.2.2⟩

/-- Nothing is found under a source that is admitted. -/
theorem Admits.lookup?_eq_none (admits : engine.Admits source) : engine.lookup? source = none := by
  rw [lookup?, if_pos admits.enabled]
  exact lookup_eq_none_iff.mpr admits.absent

/-- Compiling a source adds a rule where it is admitted and else changes nothing. -/
theorem compileSource_accounts (fresh : Unit → Except RuleError (Condition Leaf)) :
    engine.Accounts source (fresh ()) (engine.compileSource source fresh).2 := by
  constructor
  · intro condition admits compiled
    rw [compileSource, admits.lookup?_eq_none, compiled]
    exact store_eq_keeping admits condition
  · intro refused
    unfold compileSource
    split
    · rfl
    · split
      · rfl
      · rename_i condition compiled
        exact store_eq_self (fun admits => refused ⟨admits, condition, compiled⟩) condition

/-- An operation on a single rule leaves the engine that compiling its source leaves. -/
theorem exists_fresh_of_request [Predicate Leaf Subject] {operation : Operation Subject}
    {outcome : Except RuleError (Condition Leaf)}
    (asked : engine.reader.request? operation = some (source, outcome)) :
    ∃ fresh, fresh () = outcome ∧
      (engine.perform operation).2 = (engine.compileSource source fresh).2 := by
  refine ⟨fun _ => outcome, rfl, ?_⟩
  cases operation with
  | preload rules => contradiction
  | clear => contradiction
  | compile rule =>
    obtain ⟨rfl, rfl⟩ := Prod.mk.inj (Option.some.inj asked)
    rfl
  | tryCheck rule subject =>
    obtain ⟨rfl, rfl⟩ := Prod.mk.inj (Option.some.inj asked)
    rfl
  | check rule subject =>
    obtain ⟨rfl, rfl⟩ := Prod.mk.inj (Option.some.inj asked)
    rfl
  | compileElement element =>
    obtain ⟨rfl, rfl⟩ := Prod.mk.inj (Option.some.inj asked)
    rfl
  | checkElement element subject =>
    obtain ⟨rfl, rfl⟩ := Prod.mk.inj (Option.some.inj asked)
    rfl

/-- Every operation on a single rule accounts for it. -/
theorem perform_accounts [Predicate Leaf Subject] {operation : Operation Subject}
    {outcome : Except RuleError (Condition Leaf)}
    (asked : engine.reader.request? operation = some (source, outcome)) :
    engine.Accounts source outcome (engine.perform operation).2 := by
  obtain ⟨fresh, rfl, same⟩ := exists_fresh_of_request asked
  rw [same]
  exact compileSource_accounts fresh

/-! ## What operations preserve -/

section

variable {holds : Engine Leaf → Prop}

/-- What adding an admitted rule preserves is preserved by compiling a source. -/
theorem compileSource_preserves (start : holds engine)
    (add : ∀ engine source condition, Admits engine source → holds engine →
      holds (engine.keeping source condition))
    (fresh : Unit → Except RuleError (Condition Leaf)) :
    holds (engine.compileSource source fresh).2 := by
  have accounts : engine.Accounts source (fresh ()) (engine.compileSource source fresh).2 :=
    compileSource_accounts fresh
  by_cases keeps : engine.Admits source ∧ ∃ condition, fresh () = .ok condition
  · obtain ⟨admits, condition, compiled⟩ := keeps
    rw [accounts.added condition admits compiled]
    exact add engine source condition admits start
  · rw [accounts.unchanged keeps]
    exact start

/-- What adding an admitted rule preserves is preserved by preloading, also where it stops half
way. -/
theorem preload_preserves (start : holds engine)
    (add : ∀ engine source condition, Admits engine source → holds engine →
      holds (engine.keeping source condition)) (rules : List Text) :
    holds (engine.preload rules).2 := by
  induction rules generalizing engine with
  | nil => exact start
  | cons rule rest ih =>
    have first : holds (engine.compile rule).2 := compileSource_preserves start add _
    unfold preload
    split
    · rename_i stopped
      rwa [stopped] at first
    · rename_i passed
      rw [passed] at first
      exact ih first

/-- What adding an admitted rule and forgetting all rules preserve is preserved by every
operation. -/
theorem perform_preserves [Predicate Leaf Subject] (start : holds engine)
    (add : ∀ engine source condition, Admits engine source → holds engine →
      holds (engine.keeping source condition))
    {operation : Operation Subject} (clear : operation = .clear → holds engine.clear) :
    holds (engine.perform operation).2 := by
  cases asked : engine.reader.request? operation with
  | some request =>
    obtain ⟨fresh, -, same⟩ := exists_fresh_of_request asked
    rw [same]
    exact compileSource_preserves start add fresh
  | none =>
    cases operation with
    | preload rules => exact preload_preserves start add rules
    | clear => exact clear rfl
    | _ => contradiction

end

/-- The cache is as the settings say: empty if nothing is kept, no fuller than allowed, and with one
rule for each source. -/
structure Orderly (engine : Engine Leaf) : Prop where
  /-- A disabled cache is empty. -/
  disabled : engine.settings.enabled = false → engine.cached = 0
  /-- There are no more rules than allowed. -/
  bounded : engine.cached ≤ engine.settings.maxEntries
  /-- Each source has one rule. -/
  distinct : (engine.cache.map Prod.fst).Nodup

/-- An engine that keeps nothing is orderly. -/
theorem orderly_of_empty (empty : engine.cache = []) : engine.Orderly := by
  have none : engine.cached = 0 := by rw [cached, empty, List.length_nil]
  exact ⟨fun _ => none, none ▸ Nat.zero_le _, by simp [empty]⟩

/-- Adding an admitted rule leaves the engine orderly. -/
theorem Orderly.keeping (orderly : engine.Orderly) (admits : engine.Admits source)
    (condition : Condition Leaf) : (engine.keeping source condition).Orderly where
  disabled off := absurd (off.symm.trans admits.enabled) (by decide)
  bounded := Nat.succ_le_of_lt admits.room
  distinct := List.nodup_cons.mpr ⟨admits.absent, orderly.distinct⟩

/-- Every operation leaves the engine orderly. -/
theorem Orderly.perform [Predicate Leaf Subject] (orderly : engine.Orderly)
    (operation : Operation Subject) : (engine.perform operation).2.Orderly :=
  perform_preserves orderly (fun _ _ condition admits orderly => orderly.keeping admits condition)
    fun _ => orderly_of_empty rfl

/-- Every list of operations leaves the engine orderly. -/
theorem Orderly.after [Predicate Leaf Subject] (orderly : engine.Orderly)
    (operations : List (Operation Subject)) : (engine.after operations).Orderly := by
  induction operations generalizing engine with
  | nil => exact orderly
  | cons operation rest ih => exact ih (orderly.perform operation)

/-- Every operation but forgetting leaves all rules that are kept. -/
theorem subset_perform [Predicate Leaf Subject] {operation : Operation Subject}
    (other : operation ≠ .clear) : engine.cache ⊆ (engine.perform operation).2.cache :=
  have add : ∀ (next : Engine Leaf) source condition, next.Admits source →
      engine.cache ⊆ next.cache → engine.cache ⊆ (next.keeping source condition).cache :=
    fun _ _ _ _ kept => List.subset_cons_of_subset _ kept
  perform_preserves (List.Subset.refl _) add fun clear => absurd clear other

/-! ## Preloading -/

/-- A faithful engine compiles rule text as its reader does. -/
theorem Faithful.compile_eq_read {kind : Markup.Element → Prop} (faithful : engine.Faithful kind)
    (rule : Text) : (engine.compile rule).1 = engine.reader.read rule :=
  compileSource_fresh faithful fun _ _ compiled => compiled

/-- Rules that compile are passed on the way of a preload, and counted. -/
theorem preload_append {kind : Markup.Element → Prop} (faithful : engine.Faithful kind)
    {front : List Text}
    (compiles : ∀ rule ∈ front, ∃ condition, engine.reader.read rule = .ok condition)
    (back : List Text) :
    engine.preload (front ++ back) = (((engine.compiling front).preload back).1.map
      (· + front.length), ((engine.compiling front).preload back).2) := by
  induction front generalizing engine with
  | nil =>
    show engine.preload back = ((engine.preload back).1.map (· + 0), (engine.preload back).2)
    cases outcome : engine.preload back with
    | mk count next => cases count <;> rfl
  | cons rule front ih =>
    obtain ⟨condition, compiled⟩ := compiles rule List.mem_cons_self
    have follows : Follows kind engine (engine.compile rule).2 := compile_follows rule
    have passed : engine.compile rule = (.ok condition, (engine.compile rule).2) :=
      Prod.ext ((faithful.compile_eq_read rule).trans compiled) rfl
    have later := ih (follows.faithful faithful) fun other mem => by
      rw [follows.reader]
      exact compiles other (List.mem_cons_of_mem rule mem)
    rw [List.cons_append, preload, passed]
    dsimp only
    rw [later]
    refine Prod.ext ?_ rfl
    show Except.map _ (Except.map _ ((compiling (engine.compile rule).2 front).preload back).1) =
      Except.map _ ((compiling (engine.compile rule).2 front).preload back).1
    cases ((compiling (engine.compile rule).2 front).preload back).1 with
    | error error => rfl
    | ok count => exact congrArg Except.ok (Nat.add_assoc _ _ _)

/-- Compiling rules one by one keeps the engine faithful. -/
theorem compiling_follows {kind : Markup.Element → Prop} (rules : List Text) :
    Follows kind engine (engine.compiling rules) := by
  induction rules generalizing engine with
  | nil => exact .refl kind engine
  | cons rule rest ih => exact (compile_follows rule).trans ih

/-- Rules that all compile are preloaded one by one, and counted. -/
theorem preload_of_compiles {kind : Markup.Element → Prop} (faithful : engine.Faithful kind)
    {rules : List Text}
    (compiles : ∀ rule ∈ rules, ∃ condition, engine.reader.read rule = .ok condition) :
    engine.preload rules = (.ok rules.length, engine.compiling rules) := by
  have passed := preload_append faithful compiles []
  rw [List.append_nil] at passed
  rw [passed]
  simp [preload, Except.map]

/-- A preload compiles rules one by one up to the first that fails, and fails with it. -/
theorem preload_of_refused {kind : Markup.Element → Prop} (faithful : engine.Faithful kind)
    {front : List Text} {rule : Text} {error : RuleError}
    (compiles : ∀ first ∈ front, ∃ condition, engine.reader.read first = .ok condition)
    (refused : engine.reader.read rule = .error error) (back : List Text) :
    engine.preload (front ++ rule :: back) =
      (.error error, engine.compiling (front ++ [rule])) := by
  have follows : Follows kind engine (engine.compiling front) := compiling_follows front
  have fails := (follows.faithful faithful).compile_eq_read rule
  rw [follows.reader, refused] at fails
  have stopped : (engine.compiling front).compile rule =
      (.error error, ((engine.compiling front).compile rule).2) := Prod.ext fails rfl
  have last : engine.compiling (front ++ [rule]) = ((engine.compiling front).compile rule).2 := by
    rw [compiling, List.foldl_append]
    rfl
  rw [preload_append faithful compiles, preload, stopped, last]
  rfl

/-! ## Any number of operations -/

/-- After any operations a disabled cache is empty, and another one holds no more rules than the
settings allow, with one for each source. Then a rule that is asked for is added exactly if it is
admitted and compiles, and else nothing changes; preloading leaves what compiling the rules one by
one up to the first failure leaves, and answers with that failure or with the number of rules; and
nothing but forgetting takes a rule away. -/
theorem cache_accounting [Predicate Leaf Subject] (reader : Reader Leaf)
    (settings : CacheSettings) (operations : List (Operation Subject)) :
    let engine := Engine.after { reader, settings } operations
    ((settings.enabled = false → engine.cached = 0) ∧ engine.cached ≤ settings.maxEntries ∧
      (engine.cache.map Prod.fst).Nodup) ∧
    (∀ (operation : Operation Subject) source outcome,
      reader.request? operation = some (source, outcome) →
        engine.Accounts source outcome (engine.perform operation).2) ∧
    (∀ rules, (∀ rule ∈ rules, ∃ condition, reader.read rule = .ok condition) →
      engine.preload rules = (.ok rules.length, engine.compiling rules)) ∧
    (∀ front rule back error, (∀ first ∈ front, ∃ condition, reader.read first = .ok condition) →
      reader.read rule = .error error →
        engine.preload (front ++ rule :: back) =
          (.error error, engine.compiling (front ++ [rule]))) ∧
    (∀ operation : Operation Subject, operation ≠ .clear →
      engine.cache ⊆ (engine.perform operation).2.cache) ∧
    (engine.perform (.clear : Operation Subject)).2.cached = 0 := by
  intro engine
  have follows : Follows (fun _ => True) { reader, settings } engine :=
    after_follows fun operation _ => by cases operation <;> trivial
  have faithful := follows.faithful (faithful_new reader settings)
  have same : engine.reader = reader := follows.reader
  have orderly : engine.Orderly := (orderly_of_empty rfl).after operations
  have kept : engine.settings = settings := follows.settings
  refine ⟨?_, fun operation source outcome asked => ?_, fun rules compiles => ?_,
    fun front rule back error compiles refused => ?_, fun _ => subset_perform, rfl⟩
  · rw [← kept]
    exact ⟨orderly.disabled, orderly.bounded, orderly.distinct⟩
  · rw [← same] at asked
    exact perform_accounts asked
  · rw [← same] at compiles
    exact preload_of_compiles faithful compiles
  · rw [← same] at compiles refused
    exact preload_of_refused faithful compiles refused back

end Engine

end AccessRules
