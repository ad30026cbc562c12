import AccessRules.Settings.Datum
import AccessRules.Settings.Yaml.Token

/-!
# Nodes of YAML

A node is a scalar, a list, a mapping or the name of an earlier node. In front of it may stand a
tag and an anchor, in either order; where nothing follows them the node is an empty scalar, and so
are keys, values and items that are left out. Tags have to be known, but matter only for literal
blocks: such a block is a number or a truth value if its tag says so, and a plain scalar is one by
its text.
-/
namespace AccessRules.Yaml

/-- The digits of a number in a radix, at least one. -/
def readRadix (radix : Nat) (digits : Text) : Option Nat :=
  if digits = [] then none
  else digits.foldlM (fun number c => (Text.digitValue? radix c).map (number * radix + ·)) 0

/-- The number that a text is: decimal without leading zeros, or in a named radix, with at most
one plus sign. -/
def natural? (content : Text) : Option Nat :=
  match (Text.after? ['+'] content).getD content with
  | '0' :: 'x' :: digits => readRadix 16 digits
  | '0' :: 'o' :: digits => readRadix 8 digits
  | '0' :: 'b' :: digits => readRadix 2 digits
  | '0' :: _ :: _ => none
  | digits => readRadix 10 digits

/-- The truth value that a text is. -/
def boolean? (content : Text) : Option Bool :=
  if ["true".toList, "True".toList, "TRUE".toList].contains content then some true
  else if ["false".toList, "False".toList, "FALSE".toList].contains content then some false
  else none

/-- The start of the tags of the format itself. -/
def formatTag : Text := "tag:yaml.org,2002:".toList

/-- What a scalar means: an empty plain one is nothing. -/
def meaningOf (style : Style) (tag? : Option Text) (text : Text) : Meaning :=
  if style = .plain && text = [] then .nothing
  else
    let asks := fun name => style = .plain || style = .literal && tag? = some (formatTag ++ name)
    let boolean := if asks "bool".toList then (boolean? text).map .boolean else none
    let natural := if asks "int".toList then (natural? text).map .natural else none
    (boolean.or natural).getD .other

/-- A scalar that is left out. -/
def empty : Datum := .scalar (some []) .nothing

/-- The anchors of the first part of a document. A name that is given again stands for the later
node from there on. The number of an anchor is that of the different names before it; of nodes
that share a number the last to start is the one that the number stands for. -/
structure Anchors where
  /-- The numbers of the names, each name once. -/
  numbers : List (Text × Nat) := []
  /-- The numbers of the named nodes, the last to start first. -/
  nodes : List Nat := []
  /-- The named nodes that have ended, under their places among those that started. -/
  ended : List (Nat × Datum) := []

namespace Anchors

/-- A node with a name starts. -/
def start (anchors : Anchors) (name : Text) : Anchors :=
  let number := anchors.numbers.length
  { anchors with
    numbers := (name, number) :: anchors.numbers.filter (·.1 != name)
    nodes := number :: anchors.nodes }

/-- The node at a place among the named ones ends. -/
def finish (anchors : Anchors) (place : Nat) (datum : Datum) : Anchors :=
  { anchors with ended := (place, datum) :: anchors.ended }

/-- The nodes under their numbers, that of the last to start first. -/
def numbered (anchors : Anchors) : List (Nat × Datum) :=
  (anchors.nodes.zipIdx.filterMap fun (number, later) =>
    (anchors.ended.lookup (anchors.nodes.length - 1 - later)).map (number, ·))

end Anchors

/-- What is left of the tokens of a document, and the anchors before. -/
structure Reading where
  /-- The tokens. -/
  tokens : List Token
  /-- The anchors. -/
  anchors : Anchors := {}

/-- What stands in front of a node. -/
structure Properties where
  /-- The name of the node. -/
  anchor? : Option Text := none
  /-- The handle and the suffix of the tag. -/
  tag? : Option (Text × Text) := none

/-- Reads what stands in front of a node. -/
def Properties.read : List Token → Properties × List Token
  | .anchor name :: .tag handle suffix :: rest => (⟨name, (handle, suffix)⟩, rest)
  | .tag handle suffix :: .anchor name :: rest => (⟨name, (handle, suffix)⟩, rest)
  | .anchor name :: rest => (⟨name, none⟩, rest)
  | .tag handle suffix :: rest => (⟨none, (handle, suffix)⟩, rest)
  | rest => ({}, rest)

/-- The tag with a handle and a suffix, if the handle is known. -/
def resolveTag? (handles : List (Text × Text)) (handle suffix : Text) : Option Text :=
  if handle = [] then some suffix else (handles.lookup handle).map (· ++ suffix)

/-- The tokens of the next item in brackets. Every item but the first has a comma before it, and
the closing bracket needs none. -/
def nextItem? : (isFirst : Bool) → List Token → Option (List Token)
  | true, tokens => some tokens
  | false, .comma :: rest => some rest
  | false, .flowListEnd :: rest => some (.flowListEnd :: rest)
  | false, .flowMappingEnd :: rest => some (.flowMappingEnd :: rest)
  | false, _ => none

section

variable (handles : List (Text × Text))

mutual

/-- Reads a node. `inBlock` says whether it may be a block, and `atKey` whether it may be a list
whose hyphens stand in the column of the keys around it. -/
def readNode : (fuel : Nat) → (inBlock atKey : Bool) → Reading → Option (Datum × Reading)
  | 0, _, _, _ => none
  | fuel + 1, inBlock, atKey, reading =>
    match reading.tokens with
    | .alias name :: rest => do
      let number ← reading.anchors.numbers.lookup name
      return (.alias number, { reading with tokens := rest })
    | tokens => do
      let (properties, tokens) := Properties.read tokens
      let tag? ← match properties.tag? with
        | none => some none
        | some (handle, suffix) => (resolveTag? handles handle suffix).map some
      let place := reading.anchors.nodes.length
      let anchors := match properties.anchor? with
        | none => reading.anchors
        | some name => reading.anchors.start name
      let named := properties.anchor?.isSome || properties.tag?.isSome
      let (datum, reading) ← readContent fuel inBlock atKey tag? named ⟨tokens, anchors⟩
      if properties.anchor?.isSome then
        return (datum, { reading with anchors := reading.anchors.finish place datum })
      else return (datum, reading)

/-- Reads a node after its properties; `named` says whether it has any. -/
def readContent : (fuel : Nat) → (inBlock atKey : Bool) → (tag? : Option Text) → (named : Bool) →
    Reading → Option (Datum × Reading)
  | 0, _, _, _, _, _ => none
  | fuel + 1, inBlock, atKey, tag?, named, ⟨tokens, anchors⟩ =>
    let left : Option (Datum × Reading) :=
      if named then some (empty, ⟨tokens, anchors⟩) else none
    match tokens with
    | .scalar style text :: rest =>
      some (.scalar (some text) (meaningOf style tag? text), ⟨rest, anchors⟩)
    | .flowList :: rest => do
      let (items, reading) ← readItems fuel true ⟨rest, anchors⟩
      return (.list items, reading)
    | .flowMapping :: rest => do
      let (pairs, reading) ← readPairs fuel true ⟨rest, anchors⟩
      return (.mapping pairs, reading)
    | .blockList :: rest =>
      if inBlock then do
        let (items, reading) ← readEntries fuel true ⟨rest, anchors⟩
        return (.list items, reading)
      else left
    | .blockMapping :: rest =>
      if inBlock then do
        let (members, reading) ← readMembers fuel ⟨rest, anchors⟩
        return (.mapping members, reading)
      else left
    | .entry :: _ =>
      if atKey then do
        let (items, reading) ← readEntries fuel false ⟨tokens, anchors⟩
        return (.list items, reading)
      else left
    | _ => left

/-- Reads items after hyphens. If they are a block, its end is read too; else they end before the
first token that is no hyphen. -/
def readEntries : (fuel : Nat) → (isBlock : Bool) → Reading → Option (List Datum × Reading)
  | 0, _, _ => none
  | fuel + 1, isBlock, ⟨tokens, anchors⟩ =>
    match tokens with
    | .entry :: rest => do
      let isOmitted := match rest with
        | .entry :: _ | .blockEnd :: _ => true
        | .key :: _ | .value :: _ => !isBlock
        | _ => false
      let (item, reading) ←
        if isOmitted then some (empty, ⟨rest, anchors⟩)
        else readNode fuel true false ⟨rest, anchors⟩
      let (items, reading) ← readEntries fuel isBlock reading
      return (item :: items, reading)
    | tokens =>
      if isBlock then
        match tokens with
        | .blockEnd :: rest => some ([], ⟨rest, anchors⟩)
        | _ => none
      else some ([], ⟨tokens, anchors⟩)

/-- Reads keys and values of a block up to its end. -/
def readMembers : (fuel : Nat) → Reading → Option (List (Datum × Datum) × Reading)
  | 0, _ => none
  | fuel + 1, ⟨tokens, anchors⟩ =>
    match tokens with
    | .key :: rest => do
      let (key, reading) ← readPart fuel ⟨rest, anchors⟩
      let (value, reading) ←
        match reading.tokens with
        | .value :: rest => readPart fuel { reading with tokens := rest }
        | _ => some (empty, reading)
      let (members, reading) ← readMembers fuel reading
      return ((key, value) :: members, reading)
    | .blockEnd :: rest => some ([], ⟨rest, anchors⟩)
    | _ => none

/-- Reads a key or a value of a block, after its mark; it may be left out. -/
def readPart : (fuel : Nat) → Reading → Option (Datum × Reading)
  | 0, _ => none
  | fuel + 1, reading =>
    match reading.tokens with
    | .key :: _ | .value :: _ | .blockEnd :: _ => some (empty, reading)
    | _ => readNode fuel true true reading

/-- Reads the value of a pair in brackets; it may be left out, with the colon or without. -/
def readFlowValue : (fuel : Nat) → Reading → Option (Datum × Reading)
  | 0, _ => none
  | fuel + 1, ⟨tokens, anchors⟩ =>
    match tokens with
    | .value :: rest =>
      match rest with
      | .comma :: _ | .flowListEnd :: _ | .flowMappingEnd :: _ => some (empty, ⟨rest, anchors⟩)
      | _ => readNode fuel false false ⟨rest, anchors⟩
    | _ => some (empty, ⟨tokens, anchors⟩)

/-- Reads items in brackets up to the closing one. An item with the mark of a key is a pair; where
such a key is left out, the token that shows it goes with it. -/
def readItems : (fuel : Nat) → (isFirst : Bool) → Reading → Option (List Datum × Reading)
  | 0, _, _ => none
  | fuel + 1, isFirst, ⟨tokens, anchors⟩ =>
    match nextItem? isFirst tokens with
    | some (.key :: rest) => do
      let (key, reading) ←
        match rest with
        | .value :: rest | .comma :: rest | .flowListEnd :: rest => some (empty, ⟨rest, anchors⟩)
        | _ => readNode fuel false false ⟨rest, anchors⟩
      let (value, reading) ← readFlowValue fuel reading
      let (items, reading) ← readItems fuel false reading
      return (.mapping [(key, value)] :: items, reading)
    | some (.flowListEnd :: rest) => some ([], ⟨rest, anchors⟩)
    | some tokens => do
      let (item, reading) ← readNode fuel false false ⟨tokens, anchors⟩
      let (items, reading) ← readItems fuel false reading
      return (item :: items, reading)
    | none => none

/-- Reads pairs in braces up to the closing one. A key without a mark has no value. -/
def readPairs : (fuel : Nat) → (isFirst : Bool) → Reading →
    Option (List (Datum × Datum) × Reading)
  | 0, _, _ => none
  | fuel + 1, isFirst, ⟨tokens, anchors⟩ =>
    match nextItem? isFirst tokens with
    | some (.key :: rest) => do
      let (key, reading) ←
        match rest with
        | .value :: _ | .comma :: _ | .flowMappingEnd :: _ => some (empty, ⟨rest, anchors⟩)
        | _ => readNode fuel false false ⟨rest, anchors⟩
      let (value, reading) ← readFlowValue fuel reading
      let (pairs, reading) ← readPairs fuel false reading
      return ((key, value) :: pairs, reading)
    | some (.flowMappingEnd :: rest) => some ([], ⟨rest, anchors⟩)
    | some tokens => do
      let (key, reading) ← readNode fuel false false ⟨tokens, anchors⟩
      let (pairs, reading) ← readPairs fuel false reading
      return ((key, empty) :: pairs, reading)
    | none => none

end

end

end AccessRules.Yaml
