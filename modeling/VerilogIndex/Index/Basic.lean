import VerilogIndex.Index.Discovery
import VerilogIndex.Index.Requests
import VerilogIndex.Index.Tables
import VerilogIndex.Strategy

/-!
# The index of a project

The modules of the files below a root. Paths are absolute and normalised throughout.
-/

namespace VerilogIndex

structure Index where
  root : Text
  config : Config := {}
  strategy : Strategy := .scan
  /-- Whether filelists named the files at the last discovery. -/
  byFilelist : Bool := false
  tables : Tables := {}
  requests : Requests := {}

namespace Index

/-- An empty index of the project at `root`. -/
def create (d : Disk) (root : Text) (c : Config) : Except Registry.Error Index := do
  return {
    root := d.absolute root, config := c
    strategy := (← Strategy.registry.get c.strategy).item }

def module? (x : Index) (name : Text) : Option Module := x.tables.module? name

/-- Records the module just read from a path. -/
def record (x : Index) (path : Text) (m : Module) : Index × List Notice :=
  let (tables, notices) := x.tables.apply path m
  ({ x with tables }, notices)

/-- Reads a text as the present content of a path. -/
def updateText (x : Index) (path t : Text) :
    Except Elaboration.Error (Option Module) × Index × List Notice :=
  let x := { x with requests := x.requests.outdate path }
  match x.strategy.readModule t path with
  | .ok (some m) => (.ok (some m), x.record path m)
  | result => (result, x, [])

/-- Forgets what was read from a path; gives the names it owned. -/
def remove (x : Index) (path : Text) : List Text × Index × List Notice :=
  let (owned, tables, notices) := x.tables.remove path
  (owned, { x with tables, requests := x.requests.outdate path }, notices)

/-- Forgets everything; requests in flight become stale. -/
def clear (x : Index) : Index :=
  { x with tables := x.tables.clear, requests := x.requests.outdateAll }

/-- The source files of the project. -/
def discover (x : Index) (d : Disk) : Except Discovery.Error (List Text × Index × List Notice) := do
  let (found, notices) ← Discovery.discover d x.root x.config
  return (found.files, { x with byFilelist := found.byFilelist }, notices)

end Index

end VerilogIndex
