import VerilogIndex.Source.Ports

/-!
# Ports declared in a body

A header may list names only; the body then declares each of them in a statement that opens with a
direction and ends at a semicolon. The first declaration of a name counts, and the ports come in the
order of the header.
-/

namespace VerilogIndex.Source

open Text

/-- The statements of a body that open with a direction, without their semicolons. `begun` is the
statement being read, back to front; `glued` if a word character precedes. -/
def portStatementsFrom : (glued : Bool) → (begun : Option Text) → Text → List Text
  | _, _, [] => []
  | _, some begun, c :: r =>
    if c = ';' then begun.reverse :: portStatementsFrom false none r
    else portStatementsFrom false (some (c :: begun)) r
  | glued, none, c :: r =>
    if !glued && (directionKeyword? (c :: r)).isSome then portStatementsFrom false (some [c]) r
    else portStatementsFrom (isWord c) none r

def portStatements (body : Text) : List Text := portStatementsFrom false none body

/-- The ports a body declares, in the order of their declarations. -/
def declaredPorts (body : Text) : List Port := (portStatements body).flatMap ports

/-- The ports named by `order` that a body declares, in that order. -/
def bodyPorts (body : Text) (order : List Text) : List Port :=
  let declared := declaredPorts body
  order.filterMap fun name => declared.find? fun p => p.name == name

end VerilogIndex.Source
