import Std.Time
import VerilogIndex.Command.Run
import VerilogIndex.Disk.Walk

/-!
# The program

The program loads the folders that its arguments name, runs the command on this disk, and writes
back the files that the command made.
-/

namespace VerilogIndex

/-- The deepest folder that is loaded. -/
def loadDepth : Nat := 64

/-- What is at a path, as far down as `depth`. -/
def loadEntry : (depth : Nat) → (path : String) → IO (Option Entry)
  | 0, _ => return none
  | depth + 1, path => do
    let place := (← IO.currentDir) / path
    if ← place.isDir then
      let found ← place.readDir
      let entries ← found.toList.mapM fun f => do
        return (f.fileName.toList, ← loadEntry depth (path ++ "/" ++ f.fileName))
      return some (.folder (entries.filterMap fun e => e.2.map fun x => (e.1, x)))
    else
      try return some (.file (← IO.FS.readBinFile path).toList)
      catch _ => return some (.file none)

/-- The disk with what is at a path, or in the folder of the file there. -/
def loadInto (d : Disk) (arg : Text) : IO Disk := do
  let path := d.absolute arg
  let place := (← IO.currentDir) / String.ofList path
  if !(← place.pathExists) then return d
  let folder := if ← place.isDir then path else Path.dirName path
  match ← loadEntry loadDepth (String.ofList folder) with
  | none => return d
  | some e => return { d with root := Folder.putAt (Path.components folder) e d.root }

/-- The input, if the command takes it. -/
def inputFor (i : Command.Invocation) : IO Text := do
  match i with
  | .run _ (.declare none _) => return (← (← IO.getStdin).readToEnd).toList
  | _ => return []

end VerilogIndex

open VerilogIndex in
def main (args : List String) : IO UInt32 := do
  let args := args.map String.toList
  let invocation := Command.read args
  let here := (← IO.currentDir).toString.toList
  let before ← (['.'] :: args).foldlM loadInto { root := [], here }
  let today := (toString (← Std.Time.PlainDate.now)).toList
  let console : Console := { disk := before, input := ← inputFor invocation, today }
  let (exit, after) := Command.execute console args
  for (path, content) in before.changes after.disk do
    IO.FS.createDirAll (String.ofList (Path.dirName path))
    IO.FS.writeBinFile (String.ofList path) ⟨content.toArray⟩
  for notice in after.log do
    if invocation.isVerbose || notice.level != .info then
      IO.eprintln (String.ofList notice.line)
  IO.print (String.ofList after.output)
  IO.eprint (String.ofList exit.complaint)
  return exit.status.toUInt32
