import VerilogIndex.Index.Discovery

/-!
# File events

What happens to files, and what of it concerns an index. A change of a filelist asks for a new scan,
since it may change the set of files; a change of a source file concerns that file only. What
happens to a folder concerns no file.
-/

namespace VerilogIndex

/-- What an index has to do about a path. -/
inductive EventKind where
  | created
  | changed
  | deleted
  | rescan
  deriving DecidableEq, Repr

def EventKind.text : EventKind → Text
  | .created => "created"
  | .changed => "changed"
  | .deleted => "deleted"
  | .rescan => "rescan"

/-- What happened on the disk. -/
inductive FileEvent where
  | created (path : Text)
  | modified (path : Text)
  | deleted (path : Text)
  | moved (source target : Text)
  /-- The same happened to a folder. -/
  | ofFolder (e : FileEvent)
  deriving DecidableEq, Repr

/-- The events of files that a file event is made of. -/
def FileEvent.parts : FileEvent → List (EventKind × Text)
  | .created p => [(.created, p)]
  | .modified p => [(.changed, p)]
  | .deleted p => [(.deleted, p)]
  | .moved source target => [(.deleted, source), (.created, target)]
  | .ofFolder _ => []

inductive Category where
  | filelist
  | source
  deriving DecidableEq, Repr

/-- What concerns an index: its settings and the names of the folders to be ignored. -/
structure EventFilter where
  config : Config
  ignored : List Text
  deriving Repr

namespace EventFilter

def ofConfig (c : Config) : Except Discovery.Error EventFilter := do
  return { config := c, ignored := ← Discovery.ignoredNames c }

/-- What a path is for the index, if anything. -/
def classify (f : EventFilter) (path : Text) : Except Discovery.Error (Option Category) := do
  let parts := Text.splitAll '/' (Path.normalise path)
  if parts.dropLast.any f.ignored.contains then return none
  let name := parts.getLastD []
  if ← Discovery.isFilelist f.config name then return some .filelist
  return if hasExtension f.config.extensions name then some .source else none

/-- What is posted about an event of a path. -/
def post (f : EventFilter) (kind : EventKind) (path : Text) :
    Except Discovery.Error (Option (EventKind × Text)) := do
  match ← f.classify path with
  | none => return none
  | some .filelist => return some (.rescan, path)
  | some .source => return some (kind, path)

/-- What is posted about a file event. -/
def posts (f : EventFilter) (e : FileEvent) : Except Discovery.Error (List (EventKind × Text)) :=
  do
  let found ← e.parts.mapM fun p => f.post p.1 p.2
  return found.filterMap id

end EventFilter

end VerilogIndex
