import VerilogIndex.Text.Basic

/-!
# Tables

A table keeps a value for each of some texts, in the order in which the texts were first put.
-/

namespace VerilogIndex

abbrev Table (α : Type) := List (Text × α)

namespace Table

variable {α : Type}

/-- The value under a key. -/
def get? (t : Table α) (key : Text) : Option α := t.lookup key

def contains (t : Table α) (key : Text) : Bool := (t.get? key).isSome

/-- The table with the value under a key replaced, or added at the end. -/
def put (key : Text) (a : α) : Table α → Table α
  | [] => [(key, a)]
  | (k, b) :: rest => if k = key then (k, a) :: rest else (k, b) :: put key a rest

/-- The table without a key. -/
def erase (key : Text) (t : Table α) : Table α := t.filter fun e => e.1 != key

/-- The keys in the order in which they were first put. -/
def keys (t : Table α) : List Text := t.map (·.1)

/-- The table with one more member in the list under a key. -/
def addTo (key : Text) (member : Text) (t : Table (List Text)) : Table (List Text) :=
  let members := (t.get? key).getD []
  t.put key (if member ∈ members then members else members ++ [member])

/-- The table with one member less in the list under a key; a list that gets empty goes. -/
def dropFrom (key : Text) (member : Text) (t : Table (List Text)) : Table (List Text) :=
  match t.get? key with
  | none => t
  | some members =>
    let left := members.filter (· != member)
    if left.isEmpty then t.erase key else t.put key left

end Table

end VerilogIndex
