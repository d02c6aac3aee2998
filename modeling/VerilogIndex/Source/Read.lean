import VerilogIndex.Source.BodyPorts
import VerilogIndex.Source.Comment
import VerilogIndex.Source.Header
import VerilogIndex.Source.Instances
import VerilogIndex.Source.Parameters
import VerilogIndex.Source.Position

/-!
# Reading a module

The first module of a text. The text may be unfinished or wrong: what cannot be read is left out,
and only a text without a heading has no module.
-/

namespace VerilogIndex.Source

open Text

/-- The text up to the keyword that ends a module. -/
def bodyOf (t : Text) : Text :=
  match findWord? "endmodule" false t with
  | some n => t.take n
  | none => t

/-- The ports of a header: those it declares, else those that the body declares for its names. -/
def headerPorts (h : Header) : List Port :=
  match ports h.ports with
  | [] =>
    let names := (splitTopLevel h.ports).map trim
    bodyPorts (bodyOf h.rest) (names.filter isIdentifier)
  | ps => ps

/-- The instances in the code of a text from an offset on, located in the text itself. -/
def locatedInstances (t code : Text) (start : Nat) (path : Text) : List Instance :=
  (instances code start).map fun f =>
    { type := f.type, name := f.name, location := locate t f.name f.offset path, owner := path }

/-- The first module of a text, recorded under `path`. -/
def readModule (t : Text) (path : Text := []) : Option Module := do
  let code := blankComments t
  let heading ← findHeading? code
  let header := header? heading.rest
  some {
    name := heading.name
    file := path
    location := locate t heading.name heading.nameStart path
    parameters := (header.bind (·.parameters)).elim [] parameters
    ports := header.elim [] headerPorts
    instances := locatedInstances t code heading.start path }

end VerilogIndex.Source
