import VerilogIndex.Text.Basic

/-!
# Items of a list

A list is cut at its separators outside of round, square and curly brackets. The kinds of bracket
are not told apart, and a closing bracket without an open one counts for nothing. Nothing after the
last separator makes no item.
-/

namespace VerilogIndex.Source

/-- The number of open brackets after one more character. -/
def depthAfter (depth : Nat) (c : Char) : Nat :=
  if c = '(' ∨ c = '[' ∨ c = '\x7b' then depth + 1
  else if c = ')' ∨ c = ']' ∨ c = '\x7d' then depth - 1
  else depth

/-- The items of a list, given the open brackets and the item that has begun, back to front. -/
def splitFrom (separator : Option Char) : (depth : Nat) → (begun : Text) → Text → List Text
  | _, begun, [] => if begun.isEmpty then [] else [begun.reverse]
  | depth, begun, c :: r =>
    let depth := depthAfter depth c
    if separator = some c ∧ depth = 0 then begun.reverse :: splitFrom separator depth [] r
    else splitFrom separator depth (c :: begun) r

/-- The text cut at the separators outside of brackets. -/
def splitTopLevel (t : Text) (separator : Option Char := some ',') : List Text :=
  splitFrom separator 0 [] t

end VerilogIndex.Source
