import VerilogIndex.Yaml.Node
import VerilogIndex.Yaml.Scan
import VerilogIndex.Yaml.Typed

/-!
# Documents as values

The value of a document. Lists, sets and mappings cannot be keys. A key that occurs again takes the
later value and keeps its place; a merge key brings the entries of other mappings, before which
those of the mapping itself go. A tag makes a set of the keys of a mapping, or a list of pairs of
mappings with one entry each.
-/

namespace VerilogIndex.Yaml

/-- The type that a standard tag names. -/
def tagType? (tag : Text) : Option ScalarType :=
  let names : List (Text × ScalarType) :=
    [("null", .null), ("bool", .bool), ("int", .int), ("float", .float),
     ("timestamp", .timestamp), ("merge", .merge), ("value", .default), ("binary", .binary),
     ("str", .text)]
  (Text.after? standardTag tag).bind fun name => names.lookup name

/-- The type of a node as a key or value; none for a collection or an unknown tag. -/
def scalarType? : Node → Option ScalarType
  | .scalar none typed text => some (if typed then typeOf text else .text)
  | .scalar (some tag) _ _ => tagType? tag
  | _ => none

/-- The name of a collection's type; without a tag it is the given one. -/
def kindOf (standard : Text) : Option Text → Text
  | none => standard
  | some tag => (Text.after? standardTag tag).getD []

/-- The entries with one more; a key that is there keeps its place. -/
def putEntry (entries : List (Value × Value)) (k v : Value) : List (Value × Value) :=
  match entries with
  | [] => [(k, v)]
  | (k', v') :: rest => if k'.sameKey k then (k', v) :: rest else (k', v') :: putEntry rest k v

/-- The entries put one after another. -/
def putAll (entries : List (Value × Value)) : List (Value × Value) :=
  entries.foldl (fun done e => putEntry done e.1 e.2) []

mutual

/-- The text of a scalar; a mapping has that of its default value. -/
def scalarText? : Node → Option Text
  | .scalar _ _ text => some text
  | .mapping _ entries => defaultText? entries
  | .sequence .. => none

def defaultText? : List (Node × Node) → Option Text
  | [] => none
  | (k, v) :: rest => if scalarType? k = some .default then scalarText? v else defaultText? rest

end

mutual

/-- The value of a node. -/
def value? : Node → Option Value
  | .scalar tag typed text => do
    let type ← scalarType? (.scalar tag typed text)
    valueOf? type text
  | .sequence tag items => do
    let kind := kindOf "seq" tag
    if kind = "seq".toList then return .list (← values? items)
    else if kind = "pairs".toList ∨ kind = "omap".toList then return .list (← pairs? items)
    else none
  | .mapping tag entries => do
    if let some type := tag.bind tagType? then
      valueOf? type (← defaultText? entries)
    else
      let kind := kindOf "map" tag
      let (merged, own) ← entries? entries
      if kind = "map".toList then return .map (putAll (merged ++ own))
      else if kind = "set".toList then return .set ((putAll (merged ++ own)).map (·.1))
      else none

def values? : List Node → Option (List Value)
  | [] => some []
  | n :: ns => do return (← value? n) :: (← values? ns)

/-- The entries of mappings that have one each; here any value can be a key. -/
def pairs? : List Node → Option (List Value)
  | [] => some []
  | .mapping _ [(k, v)] :: ns => do return .pair (← value? k) (← value? v) :: (← pairs? ns)
  | _ => none

/-- The entries that merge keys bring, and those of the mapping itself. -/
def entries? : List (Node × Node) → Option (List (Value × Value) × List (Value × Value))
  | [] => some ([], [])
  | (k, v) :: rest => do
    match scalarType? k with
    | some .merge =>
      let here ← mergedEntries? v
      let (merged, own) ← entries? rest
      return (here ++ merged, own)
    | type =>
      let key ← if type = some .default then some (defaultKey k) else value? k
      if !key.isKey then none
      let entry := (key, ← value? v)
      let (merged, own) ← entries? rest
      return (merged, entry :: own)

/-- The entries of a mapping to be merged, or of several, of which the first ones prevail. -/
def mergedEntries? : Node → Option (List (Value × Value))
  | .mapping _ entries => do
    let (merged, own) ← entries? entries
    return merged ++ own
  | .sequence _ items => mergedItems? items
  | .scalar .. => none

def mergedItems? : List Node → Option (List (Value × Value))
  | [] => some []
  | .mapping _ entries :: rest => do
    let (merged, own) ← entries? entries
    return (← mergedItems? rest) ++ (merged ++ own)
  | _ => none

/-- The key of the default value stands for its text. -/
def defaultKey : Node → Value
  | .scalar _ _ text => .text text
  | _ => .null

end

/-- The value of a text with one document, null if it has none; none if it is not well formed. -/
def read? (t : Text) : Option Value := do
  let tokens ← tokens? t
  match ← document? tokens with
  | none => return .null
  | some n => value? n

end VerilogIndex.Yaml
