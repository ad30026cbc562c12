import AccessRules.Rule.Bracket
import AccessRules.Rule.Fault
import AccessRules.Rule.Limits
import AccessRules.Rule.Marker

/-!
# Clause stores

A clause store holds the bracket groups of a rule while the rule is read. `extract` takes the
groups out of a text, innermost first, and leaves markers; `expand` puts them back. Both fail
rather than hold more text than the limits allow.
-/
namespace AccessRules

/-- The bracket groups taken out of a rule so far. -/
structure ClauseStore where
  /-- Most bytes of an expanded text. -/
  maxExpansion : Nat
  /-- Most bytes of all clauses together. -/
  maxStored : Nat
  /-- The groups, brackets included; a marker names one by its index. -/
  clauses : Array Text := #[]
  /-- Bytes of all clauses together. -/
  stored : Nat := 0

namespace ClauseStore

/-- The store with which the reading of a rule starts. -/
def ofLimits (limits : Limits) : ClauseStore :=
  { maxExpansion := limits.maxLength, maxStored := limits.maxStored }

/-- The clause that the digits of a marker name. -/
def clause? (store : ClauseStore) (digits : Text) : Option Text :=
  (Marker.index? digits).bind (store.clauses[·]?)

/-- Puts clauses in the place of markers, each given by its digits with the text after it. The
text before the first one has `used` bytes. -/
def substitute (store : ClauseStore) :
    (used : Nat) → List (Text × Text) → Except RuleError Text
  | _, [] => .ok []
  | used, (digits, after) :: rest =>
    match store.clause? digits with
    | none => .error (.malformed .unknownMarker (some (Marker.ofDigits digits)))
    | some clause =>
      let used := used + clause.byteLength
      if store.maxExpansion < used then .error (.exceeded (.expansion store.maxExpansion))
      else do
        let others ← store.substitute (used + after.byteLength) rest
        return clause ++ after ++ others

/-- Replaces markers until none is left, in at most `passes` passes. -/
def expandWithin (store : ClauseStore) : (passes : Nat) → Text → Except RuleError Text
  | 0, text => .ok text
  | passes + 1, text =>
    let cut := Text.cut Marker.read? text
    if cut.finds.isEmpty then .ok text
    else do
      let replaced ← store.substitute cut.lead.byteLength cut.finds
      store.expandWithin passes (cut.lead ++ replaced)

/-- The text with every marker replaced by its clause. A clause names only clauses stored before
it, so there are no more passes than clauses. -/
def expand (store : ClauseStore) (text : Text) : Except RuleError Text := do
  let expanded ← store.expandWithin (store.clauses.size + 1) text
  if store.maxExpansion < expanded.byteLength then
    .error (.exceeded (.expansion store.maxExpansion))
  else return expanded

/-- Stores a clause and gives its marker. -/
def push (store : ClauseStore) (clause : Text) : Except RuleError (Text × ClauseStore) :=
  let stored := store.stored + clause.byteLength
  if store.maxStored < stored then .error (.exceeded (.groups store.maxStored))
  else .ok (Marker.render store.clauses.size,
    { store with clauses := store.clauses.push clause, stored })

/-- Stores groups from left to right, each given without its brackets and with the text after
it. The groups become clauses without markers; the result has their markers in their place. -/
def capture : (store : ClauseStore) → List (Text × Text) → Except RuleError (Text × ClauseStore)
  | store, [] => .ok ([], store)
  | store, (inner, after) :: rest => do
    let clause ← store.expand ('(' :: inner ++ [')'])
    let (marker, store) ← store.push clause
    let (others, store) ← store.capture rest
    return (marker ++ after ++ others, store)

/-- Takes out all innermost groups until none is left, in at most `passes` passes. -/
def extractWithin :
    (passes : Nat) → ClauseStore → Text → Except RuleError (Text × ClauseStore)
  | 0, store, text => .ok (Bracket.unwrap text, store)
  | passes + 1, store, text =>
    let cut := Bracket.groups (Bracket.unwrap text)
    if cut.finds.isEmpty then .ok (Bracket.unwrap text, store)
    else do
      let (marked, store) ← store.capture cut.finds
      extractWithin passes store (cut.lead ++ marked)

/-- The text with every bracket group replaced by a marker. A pass takes out at least one opening
bracket, so their number bounds the passes. Fails if brackets of one kind are left over. -/
def extract (store : ClauseStore) (text : Text) : Except RuleError (Text × ClauseStore) := do
  let (extracted, store) ← extractWithin (text.count '(') store text
  if extracted.contains '(' != extracted.contains ')' then
    .error (.malformed .missingBracket (some extracted))
  else return (extracted, store)

end ClauseStore

end AccessRules
