import VerilogIndex.Notice
import VerilogIndex.Text.Blank
import VerilogIndex.Text.Case

/-!
# Filelists

A filelist names source files, one to a line, between comments and flags for tools. A relative path
starts at the filelist's own folder. Lines with a variable are not expanded: they are noticed and
left out, and so is what is no source file on the disk, without a word.
-/

namespace VerilogIndex

/-- The name ends in one of the extensions, apart from case. -/
def hasExtension (extensions : List Text) (name : Text) : Bool :=
  extensions.any fun e => (Text.lower e).isSuffixOf (Text.lower name)

namespace Filelist

/-- The text starts with one of these. -/
def startsWithAny (leads : List Text) (t : Text) : Bool := leads.any fun l => l.isPrefixOf t

/-- The path on a line: none for a comment, a flag or an empty line. -/
def entry? (line : Text) : Option Text :=
  let t := Text.trim line
  if t.isEmpty || startsWithAny ["//", "#", "*", "+", "-"] t then none
  else
    let path := match Text.find? "//" t with
      | some n => Text.trim (t.take n)
      | none => t
    if path.isEmpty then none else some path

/-- What one line, by number, adds: a source file, or a notice. -/
def lineOf (d : Disk) (extensions : List Text) (filelist dir : Text) (line : Nat × Text) :
    Option Text × Option Notice :=
  match entry? line.2 with
  | none => (none, none)
  | some path =>
    if '$' ∈ path then (none, some (.variableInFilelist filelist line.1 path))
    else
      let path := Path.normalise (Path.join dir path)
      if d.isFile path && hasExtension extensions path then (some path, none) else (none, none)

/-- The source files that a filelist names, each once, and the notices on its lines. -/
def resolve (d : Disk) (extensions : List Text) (path : Text) : List Text × List Notice :=
  if !d.isFile path then ([], [.filelistNotFound path])
  else
    match d.text path with
    | .error _ => ([], [])
    | .ok t =>
      let dir := Path.dirName (d.absolute path)
      let lines := Text.lines t
      let found := ((List.range lines.length).map (· + 1)).zip lines |>.map
        (lineOf d extensions path dir)
      (Text.distinct (found.filterMap (·.1)), found.filterMap (·.2))

end Filelist

end VerilogIndex
