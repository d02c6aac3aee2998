import VerilogIndex.Text.Blank

/-!
# Bracket groups

A bracket group runs from an opening square bracket to the first closing one after it, whatever
stands between them.
-/

namespace VerilogIndex.Text

/-- The first bracket group, with its brackets. -/
def firstGroup? (t : Text) : Option Text :=
  match t.dropWhile (· != '[') with
  | [] => none
  | _ :: r => if ']' ∈ r then some ('[' :: r.takeWhile (· != ']') ++ [']']) else none

/-- The text with each group replaced by a space, from inside or outside of a group. -/
def spaceGroupsFrom : (inside : Bool) → Text → Text
  | _, [] => []
  | false, c :: r =>
    if c = '[' ∧ ']' ∈ r then ' ' :: spaceGroupsFrom true r else c :: spaceGroupsFrom false r
  | true, c :: r => spaceGroupsFrom (c != ']') r

/-- The text with a space in place of each bracket group. -/
def spaceGroups (t : Text) : Text := spaceGroupsFrom false t

end VerilogIndex.Text
