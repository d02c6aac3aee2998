import VerilogIndex.Design.Module
import VerilogIndex.Notice
import VerilogIndex.Table

/-!
# The tables of an index

Module names share one space. The table of a path holds its last module; of several paths that
define a name the one read last wins, and the others take over again when it goes.
-/

namespace VerilogIndex

structure Tables where
  /-- The module that a name stands for. -/
  modules : Table Module := []
  /-- The names that stand for a module of a path. -/
  files : Table (List Text) := []
  /-- The last module read from a path. -/
  parsed : Table Module := []
  /-- The paths that define a name. -/
  definers : Table (List Text) := []
  /-- When a path was last read. -/
  stamps : Table Nat := []
  /-- The next stamp. -/
  nextStamp : Nat := 1
  deriving Repr

namespace Tables

def module? (t : Tables) (name : Text) : Option Module := t.modules.get? name

/-- The number of names. -/
def size (t : Tables) : Nat := t.modules.length

/-- The paths that own a name, in order. -/
def paths (t : Tables) : List Text := Text.sorted t.files.keys

/-- The names that a path owns, in order. -/
def namesOf (t : Tables) (path : Text) : List Text := Text.sorted ((t.files.get? path).getD [])

/-- The modules that a path owns, by name. -/
def modulesOf (t : Tables) (path : Text) : List Module := (t.namesOf path).filterMap t.module?

/-- The paths that define a name, the one read last at the end. -/
def definitions (t : Tables) (name : Text) : List Text :=
  let stamp := fun (p : Text) => (t.stamps.get? p).getD 0
  ((t.definers.get? name).getD []).mergeSort fun a b => stamp a ≤ stamp b

/-- The names that several paths define, in order, with these paths. -/
def duplicates (t : Tables) : List (Text × List Text) :=
  let names := Table.keys (t.definers.filter fun e => 1 < e.2.length)
  (Text.sorted names).map fun n => (n, t.definitions n)

/-- The modules by name. -/
def sortedModules (t : Tables) : List Module :=
  (Text.sorted t.modules.keys).filterMap t.module?

/-- A path gives up a name, which then stands for the module of the path that was read last among
those that define it. -/
def release (t : Tables) (path name : Text) : Tables × List Notice :=
  let t := { t with files := t.files.dropFrom path name }
  match t.module? name with
  | none => (t, [])
  | some m =>
    if m.file ≠ path then (t, [])
    else
      let t := { t with modules := t.modules.erase name }
      match (t.definitions name).getLast? with
      | none => (t, [])
      | some heir =>
        match t.parsed.get? heir with
        | none => (t, [])
        | some m =>
          ({ t with modules := t.modules.put name m, files := t.files.addTo heir name },
            [.resolvesTo name heir])

/-- A path does not define a name any more. -/
def forget (t : Tables) (path name : Text) : Tables × List Notice :=
  { t with definers := t.definers.dropFrom name path }.release path name

/-- The module just read from a path takes its name over. -/
def takeOver (t : Tables) (path : Text) (m : Module) : Tables × List Notice :=
  let t := { t with definers := t.definers.addTo m.name path }
  let (t, notices) := match t.module? m.name with
    | none => (t, [])
    | some held =>
      if held.file ≠ path then
        ({ t with files := t.files.dropFrom held.file m.name },
          [Notice.shadows m.name path held.file])
      else (t, [])
  ({ t with modules := t.modules.put m.name m, files := t.files.addTo path m.name }, notices)

/-- Records the module just read from a path. -/
def apply (t : Tables) (path : Text) (m : Module) : Tables × List Notice :=
  let previous := t.parsed.get? path
  let t := { t with
    parsed := t.parsed.put path m
    stamps := t.stamps.put path t.nextStamp
    nextStamp := t.nextStamp + 1 }
  let (t, before) := match previous with
    | none => (t, [])
    | some p => if p.name ≠ m.name then t.forget path p.name else (t, [])
  let (t, after) := t.takeOver path m
  (t, before ++ after)

/-- Forgets what was read from a path; gives the names it owned. -/
def remove (t : Tables) (path : Text) : List Text × Tables × List Notice :=
  let owned := t.namesOf path
  let previous := t.parsed.get? path
  let t := { t with parsed := t.parsed.erase path, stamps := t.stamps.erase path }
  let (t, notices) := match previous with
    | none => (t, [])
    | some p => t.forget path p.name
  let t := { t with files := t.files.erase path }
  (owned, t, notices ++ if owned.isEmpty then [] else [.removed path owned])

/-- Forgets everything but the stamps given out. -/
def clear (t : Tables) : Tables := { nextStamp := t.nextStamp }

end Tables

end VerilogIndex
