import VerilogIndex.Disk.Basic

/-!
# Walking a folder

The files below a folder, leaving out folders of some names with all that is in them.
-/

namespace VerilogIndex

mutual

/-- The files below an entry named `name` in the folder at `dir`, as folder and name. -/
def Entry.filesUnder (skips : Text → Bool) (dir name : Text) : Entry → List (Text × Text)
  | .file _ => [(dir, name)]
  | .folder entries => if skips name then [] else Folder.filesIn skips (Path.join dir name) entries

/-- The files below the folder at `dir`, each as the path of its folder and its name. -/
def Folder.filesIn (skips : Text → Bool) (dir : Text) : List (Text × Entry) → List (Text × Text)
  | [] => []
  | (name, e) :: rest => e.filesUnder skips dir name ++ Folder.filesIn skips dir rest

end

/-- The files below a folder, each as the path of its folder and its name; none if there is no
folder at the path. -/
def Disk.filesBelow (d : Disk) (skips : Text → Bool) (p : Text) : List (Text × Text) :=
  match d.entry p with
  | .ok (.folder entries) => Folder.filesIn skips p entries
  | _ => []

/-- The files that are new or have another content than before, by path. -/
def Disk.changes (before after : Disk) : List (Text × Text.Utf8.Bytes) :=
  let paths := (after.filesBelow (fun _ => false) ['/']).map fun f => Path.join f.1 f.2
  (Text.sorted paths).filterMap fun p =>
    match after.bytes p with
    | .ok content => if (before.bytes p).toOption = some content then none else some (p, content)
    | .error _ => none

end VerilogIndex
