import AccessRules.Settings.Basic

/-!
# Data of settings

JSON and YAML documents are both read as data first: scalars, lists, mappings, and aliases that
stand for data given elsewhere. Settings are records of named fields. Fields that no record has
are ignored, also where they are repeated; a field that is missing has its usual value; a field
that is given twice is refused. JSON may give the fields of a record by a list in their order, and
YAML may leave a record out.
-/
namespace AccessRules

/-- What a scalar can mean in settings. -/
inductive Meaning where
  /-- Nothing is written. -/
  | nothing
  /-- A truth value. -/
  | boolean (value : Bool)
  /-- A number. -/
  | natural (value : Nat)
  /-- Anything else. -/
  | other
deriving DecidableEq

/-- What a document of data holds, as far as settings can tell it apart. -/
inductive Datum where
  /-- A scalar: its text, if it has one, and what it means where no text is asked for. -/
  | scalar (text? : Option Text) (meaning : Meaning)
  /-- Data in order. -/
  | list (items : List Datum)
  /-- Data under keys, which are data too. -/
  | mapping (entries : List (Datum × Datum))
  /-- The datum that was given this number. -/
  | alias (number : Nat)

/-- A document of data. -/
structure Data where
  /-- The datum that is the document. -/
  root : Datum
  /-- The data that aliases stand for, under their numbers. None of them is an alias. -/
  numbered : List (Nat × Datum) := []

namespace Data

/-- What a datum stands for. -/
def follow (data : Data) : Datum → Datum
  | .alias number => (data.numbered.lookup number).getD (.scalar none .other)
  | datum => datum

/-- The text of a key. -/
def key? (data : Data) (key : Datum) : Option Text :=
  match data.follow key with
  | .scalar text? _ => text?
  | _ => none

/-- The data under a key: none if there is no such key, and a failure if there are two. -/
def single? (key : Text) (entries : List (Text × Datum)) : Option (Option Datum) :=
  match entries.filter fun (k, _) => k == key with
  | [] => some none
  | [(_, datum)] => some (some datum)
  | _ => none

/-- The data of two fields. `listed` says whether a list may give them, and else nothing may. -/
def fields? (data : Data) (listed : Bool) (first second : Text) (datum : Datum) :
    Option (Option Datum × Option Datum) :=
  match data.follow datum with
  | .mapping entries => do
    let entries ← entries.mapM fun (key, value) => (data.key? key).map (·, value)
    return (← single? first entries, ← single? second entries)
  | .scalar _ .nothing => if listed then none else some (none, none)
  | .list items =>
    if listed then
      match items with
      | [] => some (none, none)
      | [a] => some (some a, none)
      | [a, b] => some (some a, some b)
      | _ => none
    else none
  | _ => none

/-- What a scalar means, if a datum is given and is one. -/
def meaning? (data : Data) (datum : Datum) : Option Meaning :=
  match data.follow datum with
  | .scalar _ meaning => some meaning
  | _ => none

/-- A truth value, the usual one if there is no data. -/
def boolean? (data : Data) (usual : Bool) : Option Datum → Option Bool
  | none => some usual
  | some datum =>
    match data.meaning? datum with
    | some (.boolean value) => some value
    | _ => none

/-- A number of 64 bits, the usual one if there is no data. -/
def natural? (data : Data) (usual : Nat) : Option Datum → Option Nat
  | none => some usual
  | some datum =>
    match data.meaning? datum with
    | some (.natural value) => if value < 0x10000000000000000 then some value else none
    | _ => none

/-- Limits, the usual ones if there is no data. -/
def limits? (data : Data) (listed : Bool) : Option Datum → Option Limits
  | none => some {}
  | some datum => do
    let (depth, length) ← data.fields? listed "max_depth".toList "max_input_len".toList datum
    let usual : Limits := {}
    return ⟨← data.natural? usual.maxDepth depth, ← data.natural? usual.maxLength length⟩

/-- Settings of the cache, the usual ones if there is no data. -/
def cacheSettings? (data : Data) (listed : Bool) : Option Datum → Option CacheSettings
  | none => some {}
  | some datum => do
    let (enabled, entries) ← data.fields? listed "enabled".toList "max_entries".toList datum
    let usual : CacheSettings := {}
    return ⟨← data.boolean? usual.enabled enabled, ← data.natural? usual.maxEntries entries⟩

/-- Settings, not checked yet. -/
def settings? (data : Data) (listed : Bool) : Option Settings := do
  let (limits, cache) ← data.fields? listed "limits".toList "cache".toList data.root
  return ⟨← data.limits? listed limits, ← data.cacheSettings? listed cache⟩

end Data

end AccessRules
