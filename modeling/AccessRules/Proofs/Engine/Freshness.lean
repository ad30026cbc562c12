import AccessRules.Engine.Operation
import AccessRules.Proofs.Markup.WrittenForm
import AccessRules.Subject.Render

/-!
# Answers from the cache

An engine answers what its reader answers, whatever was asked of it before, as long as every kept
rule is one that the reader compiles from each source it is kept under. For rule text that holds
after all operations: the text is its own source. Elements are kept under their written form, and
there it holds exactly as far as the written form decides what an element compiles to.
-/
namespace AccessRules

/-- Some compiled rule can be kept. -/
def CacheSettings.Keeps (settings : CacheSettings) : Prop :=
  settings.enabled = true ∧ 0 < settings.maxEntries

/-- The operation mentions only elements of a given kind. -/
def Operation.Uses {Subject : Type} (kind : Markup.Element → Prop) : Operation Subject → Prop
  | .compileElement element => kind element
  | .checkElement element _ => kind element
  | _ => True

/-- A source from which the reader compiles a condition; an element source has some element of
the kind with that written form. -/
def Source.Compiles {Leaf : Type} (kind : Markup.Element → Prop) (reader : Reader Leaf) :
    Source → Condition Leaf → Prop
  | .text rule, condition => reader.read rule = .ok condition
  | .markup written, condition =>
    ∃ element, kind element ∧ element.render = written ∧
      reader.readElement element = .ok condition

/-- The written form of an element decides what the elements of a kind compile to. -/
def Reader.DecidedByForm {Leaf : Type} (reader : Reader Leaf) (kind : Markup.Element → Prop) :
    Prop :=
  ∀ left right, kind left → kind right → left.render = right.render →
    ∀ condition, reader.readElement left = .ok condition →
      reader.readElement right = .ok condition

namespace Engine

variable {Leaf Subject : Type} {kind : Markup.Element → Prop} {engine : Engine Leaf}

/-- Every kept rule is compiled from its source, and none is kept where none can be. -/
def Faithful (kind : Markup.Element → Prop) (engine : Engine Leaf) : Prop :=
  ∀ entry ∈ engine.cache, engine.settings.Keeps ∧ entry.1.Compiles kind engine.reader entry.2

/-- What an operation must leave as it was: the reader, the settings and faithfulness. -/
structure Follows (kind : Markup.Element → Prop) (before after : Engine Leaf) : Prop where
  /-- The reader is the same. -/
  reader : after.reader = before.reader
  /-- The settings are the same. -/
  settings : after.settings = before.settings
  /-- Kept rules are still compiled from their sources. -/
  faithful : before.Faithful kind → after.Faithful kind

namespace Follows

/-- Nothing changed. -/
theorem refl (kind : Markup.Element → Prop) (engine : Engine Leaf) : Follows kind engine engine :=
  ⟨rfl, rfl, id⟩

/-- One step after another. -/
theorem trans {before middle after : Engine Leaf} (first : Follows kind before middle)
    (second : Follows kind middle after) : Follows kind before after :=
  ⟨second.reader.trans first.reader, second.settings.trans first.settings,
    second.faithful ∘ first.faithful⟩

end Follows

/-! ## One operation -/

/-- A rule that is found was compiled from its source. -/
theorem Faithful.compiles_of_lookup {source : Source} {condition : Condition Leaf}
    (faithful : engine.Faithful kind) (found : engine.lookup? source = some condition) :
    engine.settings.Keeps ∧ source.Compiles kind engine.reader condition := by
  unfold lookup? at found
  split at found
  · obtain ⟨entry, mem, rfl, rfl⟩ : ∃ entry ∈ engine.cache, entry.1 = source ∧
        entry.2 = condition := by
      rw [List.lookup_eq_some_iff] at found
      obtain ⟨front, back, split, -⟩ := found
      exact ⟨(source, condition), by simp [split], rfl, rfl⟩
    exact faithful entry mem
  · contradiction

/-- Keeping a rule compiled from its source keeps the engine faithful. -/
theorem store_follows {source : Source} {condition : Condition Leaf}
    (compiled : source.Compiles kind engine.reader condition) :
    Follows kind engine (engine.store source condition) := by
  unfold store
  split
  · rename_i room
    refine ⟨rfl, rfl, fun faithful entry mem => ?_⟩
    rcases List.mem_cons.mp mem with rfl | old
    · exact ⟨⟨room.1, Nat.zero_lt_of_lt room.2.2⟩, compiled⟩
    · exact faithful entry old
  · exact .refl kind engine

/-- Compiling a source keeps the engine faithful. -/
theorem compileSource_follows {source : Source} {fresh : Unit → Except RuleError (Condition Leaf)}
    (compiled : ∀ condition, fresh () = .ok condition →
      source.Compiles kind engine.reader condition) :
    Follows kind engine (engine.compileSource source fresh).2 := by
  unfold compileSource
  split
  · exact .refl kind engine
  · split
    · exact .refl kind engine
    · rename_i condition made
      exact store_follows (compiled condition made)

/-- A faithful engine answers a source afresh if every rule that may be kept under the source is
the fresh one. -/
theorem compileSource_fresh {source : Source} {fresh : Unit → Except RuleError (Condition Leaf)}
    (faithful : engine.Faithful kind) (decided : ∀ condition, engine.settings.Keeps →
      source.Compiles kind engine.reader condition → fresh () = .ok condition) :
    (engine.compileSource source fresh).1 = fresh () := by
  unfold compileSource
  split
  · rename_i condition found
    obtain ⟨keeps, compiles⟩ := faithful.compiles_of_lookup found
    exact (decided condition keeps compiles).symm
  · split <;> simp_all

/-- Compiling rule text keeps the engine faithful. -/
theorem compile_follows (rule : Text) : Follows kind engine (engine.compile rule).2 :=
  compileSource_follows fun _ compiled => compiled

/-- Compiling an element of the kind keeps the engine faithful. -/
theorem compileElement_follows {element : Markup.Element} (used : kind element) :
    Follows kind engine (engine.compileElement element).2 :=
  compileSource_follows fun _ compiled => ⟨element, used, rfl, compiled⟩

/-- Compiling a list of rules keeps the engine faithful, also where it stops half way. -/
theorem preload_follows (rules : List Text) : Follows kind engine (engine.preload rules).2 := by
  induction rules generalizing engine with
  | nil => exact .refl kind engine
  | cons rule rest ih =>
    have first : Follows kind engine (engine.compile rule).2 := compile_follows rule
    unfold preload
    split
    · rename_i stopped
      rw [stopped] at first
      exact first
    · rename_i next passed
      rw [passed] at first
      exact first.trans ih

/-- Every operation on elements of the kind keeps the engine faithful. -/
theorem perform_follows [Predicate Leaf Subject] {operation : Operation Subject}
    (used : operation.Uses kind) : Follows kind engine (engine.perform operation).2 := by
  cases operation with
  | compile rule => exact compile_follows rule
  | compileElement element => exact compileElement_follows used
  | preload rules => exact preload_follows rules
  | tryCheck rule subject => exact compile_follows rule
  | check rule subject => exact compile_follows rule
  | checkElement element subject => exact compileElement_follows used
  | clear => exact ⟨rfl, rfl, fun _ _ mem => absurd mem List.not_mem_nil⟩

/-! ## Any number of operations -/

/-- Every list of operations on elements of the kind keeps the engine faithful. -/
theorem after_follows [Predicate Leaf Subject] {operations : List (Operation Subject)}
    (used : ∀ operation ∈ operations, operation.Uses kind) :
    Follows kind engine (engine.after operations) := by
  induction operations generalizing engine with
  | nil => exact .refl kind engine
  | cons operation rest ih =>
    exact (perform_follows (used operation (by simp))).trans
      (ih fun operation mem => used operation (by simp [mem]))

/-- A new engine keeps nothing, so it is faithful. -/
theorem faithful_new (reader : Reader Leaf) (settings : CacheSettings) :
    Faithful kind { reader, settings } :=
  fun _ mem => absurd mem List.not_mem_nil

/-- An answer grants exactly if it is a condition that holds. -/
theorem granted_iff {answer : Except RuleError (Condition Leaf)} {holds : Condition Leaf → Bool} :
    (answer.map holds).toOption.getD false = true ↔
      ∃ condition, answer = .ok condition ∧ holds condition = true := by
  cases answer with
  | error error => simp [Except.map, Except.toOption]
  | ok condition => simp [Except.map, Except.toOption]

/-- After any operations on any engine settings, rule text is answered as the reader alone answers
it: the same condition or the same refusal, and a grant exactly where that condition holds. So
nothing that was asked before grants a rule that does not compile. -/
theorem text_answers_fresh [Predicate Leaf Subject] (reader : Reader Leaf)
    (settings : CacheSettings) (operations : List (Operation Subject)) (rule : Text) :
    let engine := Engine.after { reader, settings } operations
    (engine.compile rule).1 = reader.read rule ∧
      ∀ subject : Subject,
        (engine.tryCheck rule subject).1 = (reader.read rule).map (·.holds subject) ∧
          ((engine.check rule subject).1 = true ↔
            ∃ condition, reader.read rule = .ok condition ∧ condition.holds subject = true) := by
  intro engine
  have follows : Follows (fun _ => True) { reader, settings } engine :=
    after_follows fun operation _ => by cases operation <;> trivial
  have faithful := follows.faithful (faithful_new reader settings)
  have fresh : (engine.compile rule).1 = reader.read rule := by
    rw [← show engine.reader = reader from follows.reader]
    exact compileSource_fresh faithful fun _ _ compiled => compiled
  refine ⟨fresh, fun subject => ⟨?_, ?_⟩⟩
  · exact congrArg (Except.map _) fresh
  · rw [← fresh]
    exact granted_iff

/-- The engine answers an element as the reader alone does: the same condition or the same refusal,
and a grant exactly where that condition holds. -/
def AnswersFresh (Subject : Type) [Predicate Leaf Subject] (reader : Reader Leaf)
    (engine : Engine Leaf) (element : Markup.Element) : Prop :=
  (engine.compileElement element).1 = reader.readElement element ∧
    ∀ subject : Subject, (engine.checkElement element subject).1 = true ↔
      ∃ condition, reader.readElement element = .ok condition ∧ condition.holds subject = true

/-- A faithful engine answers elements of the kind afresh where the written form decides. -/
theorem Faithful.answersFresh [Predicate Leaf Subject] {element : Markup.Element}
    (faithful : engine.Faithful kind) (decided : engine.settings.Keeps →
      engine.reader.DecidedByForm kind) (used : kind element) :
    AnswersFresh Subject engine.reader engine element := by
  have fresh : (engine.compileElement element).1 = engine.reader.readElement element := by
    apply compileSource_fresh faithful
    intro condition keeps compiles
    obtain ⟨kept, usedKept, same, compiled⟩ := compiles
    exact decided keeps kept element usedKept used same condition compiled
  exact ⟨fresh, fun subject => by rw [← fresh]; exact granted_iff⟩

/-- The first element that a new engine compiles is kept, if anything can be kept. -/
theorem compileElement_keeps {reader : Reader Leaf} {settings : CacheSettings}
    {element : Markup.Element} {condition : Condition Leaf} (keeps : settings.Keeps)
    (compiled : reader.readElement element = .ok condition) :
    (Engine.compileElement { reader, settings } element).2 =
      { reader, settings, cache := [(.markup element.render, condition)] } := by
  simp [compileElement, compileSource, lookup?, store, compiled, keeps.1, keeps.2]

/-- Elements are answered afresh after all operations on elements of a kind exactly if nothing can
be kept or the written form decides what elements of the kind compile to. It decides for legible
elements, which it even determines. -/
theorem element_answers_fresh_iff [Predicate Leaf Subject] (reader : Reader Leaf)
    (settings : CacheSettings) :
    (∀ kind : Markup.Element → Prop,
      (∀ operations : List (Operation Subject), (∀ operation ∈ operations, operation.Uses kind) →
        ∀ element, kind element →
          AnswersFresh Subject reader (Engine.after { reader, settings } operations)
            element) ↔
      (settings.Keeps → reader.DecidedByForm kind)) ∧
    reader.DecidedByForm Markup.Element.Legible := by
  refine ⟨fun kind => ⟨fun fresh keeps left right usedLeft usedRight same condition compiled => ?_,
    fun decided operations used element usedElement => ?_⟩, ?_⟩
  · -- The left element is kept under the form that the right one has too.
    let first : Operation Subject := .compileElement left
    have used : ∀ operation ∈ [first], operation.Uses kind := by
      simpa [first, Operation.Uses] using usedLeft
    have answer := (fresh [first] used right usedRight).1
    rw [← answer]
    change (compileElement (compileElement { reader, settings } left).2 right).1 = _
    rw [compileElement_keeps keeps compiled]
    simp [compileElement, compileSource, lookup?, keeps.1, same]
  · have follows : Follows kind { reader, settings }
        (Engine.after { reader, settings } operations) := after_follows used
    have faithful := follows.faithful (faithful_new reader settings)
    have answers : AnswersFresh Subject _ _ element := faithful.answersFresh
      (by rw [follows.reader, follows.settings]; exact decided) usedElement
    rwa [follows.reader] at answers
  · intro left right legible other same condition compiled
    rwa [← legible.eq_of_render_eq other same]

end Engine

/-- A name that holds markup imitates an operator: the reader refuses the element, and the engine
grants it once the operator itself was compiled. -/
theorem Engine.imitated_operator_granted :
    let reader : Reader SubjectLeaf := {}
    let operator := (Operator.literal true).toElement []
    let imitation : Markup.Element := { name := "boolean operator=\"true\"".toList }
    let operations : List (Operation Subject) := [.compileElement operator]
    let subject : Subject := ⟨"alice".toList, fun _ => false, none, ⟨2024, 6, 15, by decide⟩⟩
    reader.readElement imitation = .error (.unrecognized imitation.render) ∧
      ((Engine.after { reader, settings := {} } operations).checkElement imitation subject).1 =
        true :=
  ⟨rfl, rfl⟩

end AccessRules
