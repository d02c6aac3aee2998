import VerilogIndex.Disk.Basic
import VerilogIndex.Elaboration
import VerilogIndex.Registry

/-!
# Reading strategies

A strategy reads the first module of a text. Two come with the library: one scans the text alone,
the other asks a compiler. No compiler comes with the library, so that strategy fails on every text.
-/

namespace VerilogIndex

structure Strategy where
  /-- The first module of a text, recorded under a path. -/
  readModule : (t path : Text) → Except Elaboration.Error (Option Module)

namespace Strategy

/-- The module that a scan of the text finds. -/
def scan : Strategy := ⟨fun t path => .ok (Source.readModule t path)⟩

/-- The module that a compiler finds. -/
def compile : Strategy := ⟨fun t path => (Elaboration.readModule [] none t path).1⟩

def registry : Registry Strategy where
  name := "parser"
  items := [⟨"fast", "FastStrategy", .scan⟩, ⟨"slang", "SlangStrategy", .compile⟩]

/-- Why a file has no reading: it cannot be opened, or the strategy fails on its text. -/
inductive Error where
  | disk (f : Disk.Failure)
  | text (e : Elaboration.Error)
  deriving DecidableEq, Repr

/-- The first module of the file at a path. -/
def readAt (s : Strategy) (d : Disk) (path : Text) : Except Error (Option Module) := do
  let t ← (d.text path).mapError .disk
  (s.readModule t path).mapError .text

end Strategy

end VerilogIndex
