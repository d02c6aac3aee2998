import VerilogIndex.Path
import VerilogIndex.Table
import VerilogIndex.Text.Lines
import VerilogIndex.Text.Quoted
import VerilogIndex.Text.Utf8

/-!
# A disk

A disk is a tree of folders and files with a current folder. A path is followed from component to
component: each step needs a folder, two dots go to the folder above, and a slash after a file leads
nowhere. A file may be one that cannot be opened, such as a socket: it is listed with the others,
but it is no regular file.
-/

namespace VerilogIndex

open Text.Utf8 (Bytes)

inductive Entry where
  /-- A file; one without content cannot be opened. -/
  | file (content : Option Bytes)
  | folder (entries : List (Text × Entry))
  deriving Repr, Inhabited

/-- The content of a folder. -/
abbrev Folder := Table Entry

namespace Folder

/-- The folder of that name, empty if there is none. -/
def inner (f : Folder) (name : Text) : Folder :=
  match Table.get? f name with
  | some (.folder entries) => entries
  | _ => []

/-- The entry below the folder that the components lead to. -/
def at? : (components : List Text) → Folder → Option Entry
  | [], f => some (.folder f)
  | [c], f => Table.get? f c
  | c :: cs, f =>
    match Table.get? f c with
    | some (.folder entries) => at? cs entries
    | _ => none

/-- The folder with an entry put where the components lead, folders on the way made as needed. -/
def putAt : (components : List Text) → Entry → Folder → Folder
  | [], _, f => f
  | [c], e, f => Table.put c e f
  | c :: cs, e, f => Table.put c (.folder (putAt cs e (inner f c))) f

/-- The folder without the entry that the components lead to. -/
def eraseAt : (components : List Text) → Folder → Folder
  | [], f => f
  | [c], f => Table.erase c f
  | c :: cs, f =>
    match Table.get? f c with
    | some (.folder entries) => Table.put c (.folder (eraseAt cs entries)) f
    | _ => f

end Folder

structure Disk where
  root : Folder
  /-- The current folder, as an absolute path. -/
  here : Text
  deriving Repr

namespace Disk

/-- Why a path cannot be used. -/
inductive Fault where
  | notFound
  | exists
  | notFolder
  | isFolder
  | noDevice
  | noSpace
  deriving DecidableEq, Repr

/-- The system's words for a fault. -/
def Fault.text : Fault → Text
  | .notFound => "[Errno 2] No such file or directory"
  | .noDevice => "[Errno 6] No such device or address"
  | .exists => "[Errno 17] File exists"
  | .notFolder => "[Errno 20] Not a directory"
  | .isFolder => "[Errno 21] Is a directory"
  | .noSpace => "[Errno 28] No space left on device"

/-- A fault of a path. -/
structure Failure where
  fault : Fault
  path : Text
  deriving DecidableEq, Repr

/-- Where space runs out, the file is open already, and its path is not told. -/
def Failure.message (f : Failure) : Text :=
  f.fault.text ++ Text.onlyIf (f.fault != .noSpace) (": " ++ Text.quoted f.path)

/-- One component further from the place that components from the root lead to. -/
def walkStep (d : Disk) (place : List Text) (c : Text) : Except Fault (List Text) :=
  match Folder.at? place d.root with
  | some (.folder entries) =>
    if c = [] ∨ c = ['.'] then .ok place
    else if c = ['.', '.'] then .ok place.dropLast
    else if Table.contains entries c then .ok (place ++ [c])
    else .error .notFound
  | some (.file _) => .error .notFolder
  | none => .error .notFound

/-- The components from the root of what a path leads to. -/
def resolve (d : Disk) (p : Text) : Except Fault (List Text) :=
  if p.isEmpty then .error .notFound
  else
    let start := if Path.isAbsolute p then [] else Path.components d.here
    (Text.splitAll '/' p).foldlM d.walkStep start

/-- The entry that a path leads to. -/
def entry (d : Disk) (p : Text) : Except Fault Entry := do
  match Folder.at? (← d.resolve p) d.root with
  | some e => return e
  | none => throw .notFound

/-- There is a regular file at the path. -/
def isFile (d : Disk) (p : Text) : Bool :=
  match d.entry p with
  | .ok (.file (some _)) => true
  | _ => false

def isFolder (d : Disk) (p : Text) : Bool :=
  match d.entry p with
  | .ok (.folder _) => true
  | _ => false

def exists? (d : Disk) (p : Text) : Bool := (d.entry p).isOk

/-- The bytes of the file at a path. -/
def bytes (d : Disk) (p : Text) : Except Failure Bytes :=
  match d.entry p with
  | .ok (.file (some content)) => .ok content
  | .ok (.file none) => .error ⟨.noDevice, p⟩
  | .ok (.folder _) => .error ⟨.isFolder, p⟩
  | .error f => .error ⟨f, p⟩

/-- The text of the file at a path: wrong bytes are replaced, and each line break is a line feed. -/
def text (d : Disk) (p : Text) : Except Failure Text := do
  return Text.unifyBreaks (Text.Utf8.decodeLossy (← d.bytes p))

/-- The disk with a file at an absolute path; folders on the way are made. -/
def putFile (d : Disk) (p : Text) (content : Bytes) : Disk :=
  { d with root := Folder.putAt (Path.components p) (.file content) d.root }

/-- The disk with a folder at an absolute path; what is there already stays. -/
def putFolder (d : Disk) (p : Text) : Disk :=
  let cs := Path.components p
  match Folder.at? cs d.root with
  | some _ => d
  | none => { d with root := Folder.putAt cs (.folder []) d.root }

/-- The disk without what is at an absolute path. -/
def erase (d : Disk) (p : Text) : Disk :=
  { d with root := Folder.eraseAt (Path.components p) d.root }

/-- The path made absolute from the current folder, and normalised. -/
def absolute (d : Disk) (p : Text) : Text := Path.absolute d.here p

end Disk

end VerilogIndex
