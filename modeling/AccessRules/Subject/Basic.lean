import AccessRules.Address.Network
import AccessRules.Calendar.Date
import AccessRules.Condition.Basic

/-!
# Subjects

A subject asks for access: a user, in groups, from an address that may be unknown, on a day. Leaves
over subjects compare one of these with a value.
-/
namespace AccessRules

/-- Who asks for access. -/
structure Subject where
  /-- The name of the user. -/
  user : Text
  /-- The user is in the group of that name. -/
  inGroup : Text → Bool
  /-- The address that the request comes from, if it is known. -/
  client? : Option Address
  /-- The day of the request. -/
  today : Date

/-- How a name is compared. -/
inductive Equality where
  /-- The name is the same. -/
  | equal
  /-- The name is another. -/
  | notEqual
deriving DecidableEq

namespace Equality

/-- The sign of a comparison. -/
def symbol : Equality → Text
  | equal => "=".toList
  | notEqual => "!=".toList

/-- The comparison with a given sign; a doubled equals sign is one too. -/
def ofSymbol? (symbol : Text) : Option Equality :=
  if symbol = "=".toList ∨ symbol = "==".toList then some equal
  else if symbol = "!=".toList then some notEqual
  else none

/-- The comparison has this outcome if the names are, or are not, the same. -/
def decides : Equality → (same : Bool) → Bool
  | equal, same => same
  | notEqual, same => !same

/-- A comparison is found under its sign. -/
theorem ofSymbol?_symbol (equality : Equality) : ofSymbol? equality.symbol = some equality := by
  cases equality <;> rfl

end Equality

/-- How a day is compared. -/
inductive Comparison where
  /-- The day is before. -/
  | less
  /-- The day is before or the same. -/
  | lessOrEqual
  /-- The day is after. -/
  | greater
  /-- The day is after or the same. -/
  | greaterOrEqual
  /-- The day is the same. -/
  | equal
deriving DecidableEq

namespace Comparison

/-- The sign of a comparison. -/
def symbol : Comparison → Text
  | less => "<".toList
  | lessOrEqual => "<=".toList
  | greater => ">".toList
  | greaterOrEqual => ">=".toList
  | equal => "=".toList

/-- The comparison with a given sign; a doubled equals sign is one too. -/
def ofSymbol? (symbol : Text) : Option Comparison :=
  if symbol = "==".toList then some equal
  else [less, lessOrEqual, greater, greaterOrEqual, equal].find? (·.symbol == symbol)

/-- The comparison has this outcome for the order of the day and the value. -/
def decides : Comparison → Ordering → Bool
  | less, order => order == .lt
  | lessOrEqual, order => order != .gt
  | greater, order => order == .gt
  | greaterOrEqual, order => order != .lt
  | equal, order => order == .eq

/-- A comparison is found under its sign. -/
theorem ofSymbol?_symbol (comparison : Comparison) :
    ofSymbol? comparison.symbol = some comparison := by
  cases comparison <;> rfl

end Comparison

/-- A leaf over subjects. -/
inductive SubjectLeaf where
  /-- The user has that name, or another. -/
  | user (equality : Equality) (name : Text)
  /-- The user is in that group, or is not. -/
  | group (equality : Equality) (name : Text)
  /-- The client is inside the network. -/
  | network (range : Network)
  /-- The day compares so with a date. -/
  | date (comparison : Comparison) (day : Date)
deriving DecidableEq

/-- The leaf holds of the subject. No network holds an unknown client. -/
def SubjectLeaf.holds (leaf : SubjectLeaf) (subject : Subject) : Bool :=
  match leaf with
  | .user equality name => equality.decides (subject.user == name)
  | .group equality name => equality.decides (subject.inGroup name)
  | .network range => subject.client?.any range.contains
  | .date comparison day => comparison.decides (subject.today.order day)

end AccessRules
