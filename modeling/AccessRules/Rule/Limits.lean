import AccessRules.Text.Basic

/-!
# Limits

Two numbers bound the reading of a rule: how deep its parts may nest, and how many bytes of text
may be held, in the rule itself and in every text made from it.
-/
namespace AccessRules

/-- Bounds on reading a rule. -/
structure Limits where
  /-- Most levels of nesting. -/
  maxDepth : Nat := 64
  /-- Most bytes of a rule and of an expanded part of it. -/
  maxLength : Nat := 65536
deriving DecidableEq

namespace Limits

/-- The levels that reading may open: one for the rule itself and one for each level of nesting. -/
def levels (limits : Limits) : Nat := limits.maxDepth + 1

/-- Most bytes of bracket groups that are held while a rule is read. This is a product of unbounded
naturals: one of machine words stops at the largest word. No text that fits in memory tells the two
apart, as its groups have fewer bytes than that. -/
def maxStored (limits : Limits) : Nat := limits.maxLength * max limits.maxDepth 1

/-- The limits with all their parts named. -/
def inspect (limits : Limits) : Text :=
  "ParserLimits \x7b max_depth: ".toList ++ Text.decimal limits.maxDepth ++
    ", max_input_len: ".toList ++ Text.decimal limits.maxLength ++ " \x7d".toList

end Limits

end AccessRules
