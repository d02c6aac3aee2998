import VerilogIndex.Config.Basic
import VerilogIndex.Disk.Walk
import VerilogIndex.Filelist
import VerilogIndex.Glob

/-!
# Discovery

The source files of a project. If there are filelists below its root, these name the files;
otherwise they are the files below the root that have one of the extensions. Folders that are to be
ignored are not entered.
-/

namespace VerilogIndex.Discovery

/-- Settings that are of no use for discovery. -/
inductive Error where
  /-- Something that is no key among the names of ignored folders. -/
  | ignoreDirs
  /-- A file name pattern that is no text. -/
  | filelistPattern
  deriving DecidableEq, Repr

/-- The names of the folders to be ignored. -/
def ignoredNames (c : Config) : Except Error (List Text) :=
  if c.ignoreDirs.all (·.isKey) then
    .ok (c.ignoreDirs.filterMap fun
      | .text t => some t
      | _ => none)
  else .error .ignoreDirs

/-- The name is that of a filelist. -/
def isFilelist (c : Config) (name : Text) : Except Error Bool :=
  match c.filelistPattern with
  | .text p => .ok (Glob.accepts p name)
  | _ => .error .filelistPattern

/-- The files below the root, outside of ignored folders, as folder and name. -/
def candidates (d : Disk) (root : Text) (c : Config) : Except Error (List (Text × Text)) := do
  let ignored ← ignoredNames c
  return d.filesBelow ignored.contains root

/-- The path of a file in a folder. -/
def pathOf (f : Text × Text) : Text := Path.normalise (Path.join f.1 f.2)

/-- The filelists below the root, in order. -/
def filelists (d : Disk) (root : Text) (c : Config) : Except Error (List Text) := do
  let found ← (← candidates d root c).filterM fun f => isFilelist c f.2
  return Text.sorted (found.map pathOf)

/-- What a discovery found: the files, and whether filelists named them. -/
structure Found where
  files : List Text
  byFilelist : Bool
  deriving DecidableEq, Repr

/-- The source files of the project at `root`. -/
def discover (d : Disk) (root : Text) (c : Config) : Except Error (Found × List Notice) := do
  let lists ← filelists d root c
  if lists.isEmpty then
    let files := (← candidates d root c).filter fun f => hasExtension c.extensions f.2
    return (⟨Text.sorted (files.map pathOf), false⟩, [])
  else
    let resolved := lists.map (Filelist.resolve d c.extensions)
    let files := Text.distinct (resolved.flatMap (·.1))
    return (⟨files, true⟩, .filelistsFound lists.length :: resolved.flatMap (·.2))

end VerilogIndex.Discovery
