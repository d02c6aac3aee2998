import VerilogIndex.Text.Basic

/-!
# Lines

A line ends at a line break; a return followed by a line feed is one break. Nothing after the last
break makes no line.
-/

namespace VerilogIndex.Text

def isLineBreak (c : Char) : Bool :=
  let n := c.toNat
  (0xA ≤ n && n ≤ 0xD) || (0x1C ≤ n && n ≤ 0x1E) || n == 0x85 || n == 0x2028 || n == 0x2029

/-- The lines of a text, given the one that has begun, back to front; `returned` right after a
return. -/
def linesFrom : (returned : Bool) → (begun : Text) → Text → List Text
  | _, begun, [] => if begun.isEmpty then [] else [begun.reverse]
  | returned, begun, c :: r =>
    if returned && c == '\n' then linesFrom false begun r
    else if isLineBreak c then begun.reverse :: linesFrom (c == '\r') [] r
    else linesFrom false (c :: begun) r

def lines (t : Text) : List Text := linesFrom false [] t

/-- The text with every return, alone or before a line feed, as a line feed. -/
def unifyBreaksFrom : (returned : Bool) → Text → Text
  | _, [] => []
  | returned, c :: r =>
    if c = '\r' then '\n' :: unifyBreaksFrom true r
    else if returned ∧ c = '\n' then unifyBreaksFrom false r
    else c :: unifyBreaksFrom false r

def unifyBreaks (t : Text) : Text := unifyBreaksFrom false t

end VerilogIndex.Text
