import VerilogIndex.Disk.Basic

/-!
# Writing to a disk

New folders and files. A folder is made together with the folders above it that are missing; a file
needs its folder. Neither is undone if something fails after it.
-/

namespace VerilogIndex.Disk

/-- The path without slashes at its end, unless it is nothing but slashes. -/
def trimSlashes (p : Text) : Text :=
  let bare := (p.reverse.dropWhile (· == '/')).reverse
  if bare.isEmpty then p else bare

/-- The components from the root of the folder that the last component of a path is in. -/
def folderOf (d : Disk) (p : Text) : Except Fault (List Text) := do
  let dir := Path.dirName p
  let place ← d.resolve (if dir.isEmpty then d.here else dir)
  match Folder.at? place d.root with
  | some (.folder _) => return place
  | _ => throw .notFolder

/-- The disk with an entry in a folder, which the components from the root lead to. -/
def putIn (d : Disk) (place : List Text) (name : Text) (e : Entry) : Disk :=
  { d with root := Folder.putAt (place ++ [name]) e d.root }

/-- Makes a folder in one that is there. -/
def makeFolder (d : Disk) (p : Text) : Except Fault Disk := do
  let p := trimSlashes p
  if p.isEmpty then throw .notFound
  let place ← d.folderOf p
  let name := Path.baseName p
  if d.exists? p then throw .exists
  return d.putIn place name (.folder [])

/-- The path of the folder above, and the last component. -/
def splitLast (p : Text) : Text × Text :=
  let last := fun (p : Text) => (Path.dirName p, Path.baseName p)
  if (Path.baseName p).isEmpty then last (Path.dirName p) else last p

/-- Makes a folder, unless there is one already. -/
def ensureFolder (d : Disk) (p : Text) : Except Fault Unit × Disk :=
  match d.makeFolder p with
  | .ok d => (.ok (), d)
  | .error f => (if d.isFolder p then .ok () else .error f, d)

/-- Makes a folder unless it is there, and the missing ones above it. A folder that was made stays
also if one below it cannot be made. -/
def makeFoldersFrom : (fuel : Nat) → Disk → Text → Except Fault Unit × Disk
  | 0, d, _ => (.ok (), d)
  | fuel + 1, d, p =>
    let (dir, name) := splitLast p
    let isBelow := !dir.isEmpty && !name.isEmpty && !d.exists? dir
    let (above, d) := if isBelow then makeFoldersFrom fuel d dir else (.ok (), d)
    match above with
    | .ok () | .error .exists =>
      if isBelow && name == ['.'] then (.ok (), d) else d.ensureFolder p
    | .error f => (.error f, d)

/-- Makes a folder unless it is there, and the missing ones above it. -/
def makeFolders (d : Disk) (p : Text) : Except Failure Unit × Disk :=
  let (result, d) := makeFoldersFrom (p.length + 1) d p
  (result.mapError fun f => ⟨f, p⟩, d)

/-- There is room for the content. -/
def fits (room : Option Nat) (content : Text.Utf8.Bytes) : Bool := room.all (content.length ≤ ·)

/-- The bytes of a content that there is room for. -/
def fitting (room : Option Nat) (content : Text.Utf8.Bytes) : Text.Utf8.Bytes :=
  room.elim content content.take

/-- Writes a file into a folder that is there. What the file held is gone as soon as it is open, and
what there is no room for is missing at its end. -/
def save (d : Disk) (room : Option Nat) (p : Text) (content : Text.Utf8.Bytes) :
    Except Failure Unit × Disk :=
  match d.entry p, d.folderOf p with
  | .ok (.folder _), _ => (.error ⟨.isFolder, p⟩, d)
  | .ok (.file none), _ => (.error ⟨.noDevice, p⟩, d)
  | _, .error f => (.error ⟨f, p⟩, d)
  | _, .ok place =>
    (if fits room content then .ok () else .error ⟨.noSpace, p⟩,
      d.putIn place (Path.baseName p) (.file (fitting room content)))

end VerilogIndex.Disk
