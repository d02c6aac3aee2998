import VerilogIndex.Config.Basic
import VerilogIndex.Yaml.Document

/-!
# Configuration files

A configuration file holds one mapping in YAML. Without a file of its own a project is configured by
the file of a fixed name in its root, if there is one.
-/

namespace VerilogIndex.Config

/-- The name of a project's own configuration file. -/
def fileName : Text := ".hdlhelper.yaml"

/-- The document in the file at a path. -/
def document (d : Disk) (path : Text) : Except Error Value := do
  let bytes ← (d.bytes path).mapError (.cannotRead path)
  match Text.Utf8.decode? bytes with
  | none => throw (.notUtf8 path)
  | some t =>
    match Yaml.read? (Text.unifyBreaks t) with
    | some v => return v
    | none => throw (.malformed path)

/-- The configuration in the file at a path; an empty file changes nothing. -/
def ofFile (d : Disk) (path : Text) : Except Error Config × List Notice :=
  match document d path with
  | .error e => (.error e, [])
  | .ok .null => (.ok {}, [])
  | .ok (.map data) => ofMap data
  | .ok _ => (.error (.notMapping path), [])

/-- The configuration in the given file, else that of the project at `root`. -/
def load (d : Disk) (root : Text) (path : Option Text) : Except Error Config × List Notice :=
  match path.filter fun p => !p.isEmpty with
  | some p => ofFile d p
  | none =>
    let own := Path.join root fileName
    if d.isFile own then ofFile d own else (.ok {}, [])

end VerilogIndex.Config
