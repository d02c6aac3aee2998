import VerilogIndex.Command.Help
import VerilogIndex.Config.Load
import VerilogIndex.Disk.Write
import VerilogIndex.Generate.Declaration
import VerilogIndex.Generate.Generator
import VerilogIndex.Navigate.Hierarchy
import VerilogIndex.Navigate.Hover
import VerilogIndex.Watch.Watcher

/-!
# Running commands

A command runs on a console, which has a disk, an input, an output and a log. It ends with an exit;
whatever it did to the console before stays. The disk may be full, and the output may not take what
is printed: a run that meets this fails.
-/

namespace VerilogIndex

structure Console where
  disk : Disk
  input : Text := []
  /-- The date of the day. -/
  today : Text
  output : Text := []
  log : List Notice := []
  /-- The bytes that there is room for in a file, if there is not room for all. -/
  room : Option Nat := none
  /-- The output takes a text after those before it. -/
  takes : (printed t : Text) → Bool := fun _ _ => true

namespace Command

/-- What a command cannot deal with. -/
inductive Failure where
  | config (e : Config.Error)
  | registry (e : Registry.Error)
  | discovery (e : Discovery.Error)
  | disk (f : Disk.Failure)
  | search (e : Generate.SearchError)
  /-- Something that is no key among the names that are not to be declared. -/
  | declarationIgnore
  /-- A module is looked up without a name. -/
  | noName
  /-- A text that the output does not take. -/
  | output

def Failure.message : Failure → Text
  | .config _ => "the configuration cannot be read"
  | .registry e => e.message
  | .discovery .ignoreDirs => "ignore_dirs holds what cannot be looked up"
  | .discovery .filelistPattern => "filelist_pattern is no text"
  | .disk f => f.message
  | .search (.pattern _) => "a pattern cannot be read"
  | .search .bytes => "a pattern for bytes cannot be looked for in a name"
  | .declarationIgnore => "declaration_ignore holds what cannot be looked up"
  | .noName => "no module name"
  | .output => "the output cannot be written"

/-- How a run ends. -/
inductive Exit where
  | code (n : Nat)
  /-- With an error, which is told to the user. -/
  | error (message : Text)
  /-- With a wrong command line, about which something is said. -/
  | usage (complaint : Text)
  | failure (f : Failure)

namespace Exit

/-- The code for the system. -/
def status : Exit → Nat
  | code n => n
  | error _ | failure _ => 1
  | usage _ => 2

/-- What the user is told at the end. -/
def complaint : Exit → Text
  | code _ => []
  | error message => message ++ "\n"
  | usage complaint => complaint
  | failure f => "Error: " ++ f.message ++ "\n"

end Exit

abbrev Run := ExceptT Exit (StateM Console)

/-- Ends the run with an error. -/
def quit {α : Type} (message : Text) : Run α := throw (.error ("Error: " ++ message))

def fail {α : Type} (f : Failure) : Run α := throw (.failure f)

def print (t : Text) : Run Unit := do
  let c ← get
  if c.takes c.output t then set { c with output := c.output ++ t } else fail .output

def printLine (t : Text) : Run Unit := print (t ++ "\n")

def say (notices : List Notice) : Run Unit := modify fun c => { c with log := c.log ++ notices }

/-- The configuration for a root, with what the command line sets. -/
def loadConfig (o : GlobalOptions) (storage : Option Text) (root : Text) : Run Config := do
  let (result, notices) := Config.load (← get).disk root o.config
  say notices
  match result with
  | .ok c => return c.override o.strategy storage
  | .error e =>
    match e.message? with
    | some message => quit message
    | none => fail (.config e)

/-- The index of the project at `root`, not read yet. -/
def newSession (o : GlobalOptions) (root : Text) : Run Session := do
  let d := (← get).disk
  unless d.isFolder root do quit ("Directory not found: " ++ root)
  let c ← loadConfig o none root
  match Session.create d root c with
  | .ok s => return s
  | .error e => fail (.registry e)

/-- Reads a whole project; gives the number of modules. -/
def rescan (s : Session) : Run (Nat × Session) := do
  let (result, s) := { s with log := [] }.rescan
  say s.log
  match result with
  | .ok count => return (count, s)
  | .error e => fail (.discovery e)

/-- The index of the project at `root`. -/
def openIndex (o : GlobalOptions) (root : Text) : Run Index := do
  let (_, s) ← rescan (← newSession o root)
  return s.index

/-- The folder of a file. -/
def folderOf (path : Text) : Run Text := do
  return Path.dirName ((← get).disk.absolute path)

/-- The value, unless it is empty. -/
def given (t : Option Text) : Option Text := t.filter fun t => !t.isEmpty

/-- The module of a file. -/
def moduleOfFile (o : GlobalOptions) (verb : Verb) (file : Option Text) : Run (Module × Config) :=
  do
  match given file with
  | none =>
    quit ("No file provided. Usage: " ++ programName (some verb) ++ " FILE | --module NAME")
  | some path =>
    let d := (← get).disk
    unless d.isFile path do quit ("File not found: " ++ path)
    let c ← loadConfig o none (← folderOf path)
    match Strategy.registry.get c.strategy with
    | .error e => fail (.registry e)
    | .ok item =>
      match item.item.readAt d path with
      | .ok (some m) => return (m, c)
      | .ok none => quit ("No module definition found in " ++ path)
      | .error (.disk f) => quit f.message
      | .error (.text e) => quit e.message

/-- The module that a command is about. -/
def loadModule (o : GlobalOptions) (verb : Verb) (source : ModuleSource) :
    Run (Module × Config) := do
  match given source.module with
  | none => moduleOfFile o verb source.file
  | some name =>
    if (given source.file).isSome then quit "Give either FILE or --module, not both"
    let x ← openIndex o source.root
    match x.module? name with
    | some m => return (m, x.config)
    | none => quit ("Module not found: " ++ name)

def naming (c : Config) : Generate.Naming := ⟨.ofSource c.clockPattern, .ofSource c.resetPattern⟩

/-- The text that a generator gives for a module. -/
def render (g : Generator) (m : Module) : Run Text := do
  match g.render (← get).today m with
  | .ok t => return t
  | .error e => fail (.search e)

def runInstantiate (o : GlobalOptions) (source : ModuleSource) (comments : Bool) : Run Unit := do
  let (m, c) ← loadModule o .instantiate source
  let template : Generate.Template :=
    { comments, commentColumn := (c.commentColumn.int?).getD 0 }
  printLine (← render (.instantiation template) m)

/-- The names that are not to be declared. -/
def ignoredSignals (c : Config) : Run (List Text) :=
  if c.declarationIgnore.all (·.isKey) then
    return c.declarationIgnore.filterMap fun
      | .text t => some t
      | _ => none
  else fail .declarationIgnore

/-- The text of a file or of the input, and the folder it belongs to. -/
def textOrInput (file : Option Text) : Run (Text × Text) := do
  let console ← get
  match given file with
  | none => return (console.input, console.disk.here)
  | some path =>
    unless console.disk.isFile path do quit ("File not found: " ++ path)
    match console.disk.text path with
    | .ok t => return (t, ← folderOf path)
    | .error f => fail (.disk f)

def runDeclare (o : GlobalOptions) (file storage : Option Text) : Run Unit := do
  let (t, root) ← textOrInput file
  let c ← loadConfig o storage root
  let d : Generate.Declarator :=
    { storage := c.declarationStorage.display, ignored := ← ignoredSignals c }
  let declarations := d.render t
  if declarations.isEmpty then
    quit ("No connected signals with direction comments found. " ++
      "Generate the instantiation with --comments first.")
  printLine declarations

/-- Does something to the disk. What was done stays if it fails. -/
def onDisk (change : Disk → Except Disk.Failure Unit × Disk) : Run Unit := do
  let c ← get
  set { c with disk := (change c.disk).2 }
  match (change c.disk).1 with
  | .ok () => return
  | .error f => fail (.disk f)

/-- Writes a file, after making its folder. -/
def writeFile (dir path t : Text) : Run Unit := do
  onDisk (·.makeFolders dir)
  let room := (← get).room
  onDisk (·.save room path (Text.Utf8.encode t))

def runTestbench (o : GlobalOptions) (source : ModuleSource) (outputDir : Option Text)
    (force toOutput : Bool) : Run Unit := do
  let (m, c) ← loadModule o .testbench source
  let bench : Generate.Testbench := { naming := naming c }
  let t ← render (.testbench bench) m
  if toOutput then print t
  else
    let dir ← match given outputDir with
      | some dir => pure dir
      | none => folderOf m.file
    let path := Path.join dir (Generate.Testbench.fileName m)
    if (← get).disk.exists? path && !force then
      quit (path ++ " already exists (use --force to overwrite)")
    writeFile dir path t
    say [.wroteTestbench m.name]
    printLine path

def runDoc (o : GlobalOptions) (source : ModuleSource) (format : DocFormat) : Run Unit := do
  let (m, c) ← loadModule o .doc source
  let g : Generator := match format with
    | .markdown => .markdown { naming := naming c }
    | .csv => .csv { naming := naming c }
  print (← render g m)

/-- The lines on the names that several files define. -/
def duplicateLines (x : Index) : List Text :=
  match x.tables.duplicates with
  | [] => []
  | duplicates =>
    let line := fun (d : Text × List Text) =>
      "  " ++ d.1 ++ ": " ++ Text.joinWith ", " (d.2.map fun p => Path.relative p x.root)
    ([[], "Duplicate module names (last parse wins):"] : List Text) ++ duplicates.map line

/-- The lines on an index: a summary, the modules with their files, and the duplicates. -/
def scanLines (x : Index) : List Text :=
  let modules := x.tables.sortedModules
  let mode : Text := if x.byFilelist then "filelist" else "directory"
  let width := Text.maxLength (modules.map (·.name))
  let line := fun (m : Module) =>
    "  " ++ Text.padRight width m.name ++ "  " ++ Path.relative m.file x.root
  ("Indexed " ++ Text.ofNat modules.length ++ " module(s) from " ++
      Text.ofNat x.tables.paths.length ++ " file(s) (" ++ mode ++ " mode)") ::
    modules.map line ++ duplicateLines x

def runScan (o : GlobalOptions) (root : Text) : Run Unit := do
  print (textOf (scanLines (← openIndex o root)))

def runHierarchy (o : GlobalOptions) (root : Text) (top : Option Text) : Run Unit := do
  let x ← openIndex o root
  match given top with
  | some name => if (x.module? name).isNone then quit ("Module not found: " ++ name)
  | none => pure ()
  let nodes := Hierarchy.forest x.tables top Hierarchy.usualDepth
  printLine (Hierarchy.render Hierarchy.usualIndent nodes)

/-- Prints something about a module of a project. -/
def runLookup (o : GlobalOptions) (root : Text) (name : Option Text) (about : Module → Text) :
    Run Unit := do
  let x ← openIndex o root
  match name with
  | none => fail .noName
  | some name =>
    match x.module? name with
    | some m => printLine (about m)
    | none => quit ("Module not found: " ++ name)

/-- Watches a project until the user stops it; no file event comes in before. -/
def runWatch (o : GlobalOptions) (root : Text) : Run Unit := do
  let (count, s) ← rescan (← newSession o root)
  printLine ("Indexed " ++ Text.ofNat count ++ " module(s); watching " ++ s.index.root ++
    " (Ctrl-C to stop)")
  match Watcher.create { s with log := [] } with
  | .error e => fail (.discovery e)
  | .ok w =>
    let w := w.start.2.stop.2
    say w.session.log
    printLine ("Stopped; " ++ Text.ofNat w.session.index.tables.size ++ " module(s) indexed")

def run (o : GlobalOptions) : Command → Run Unit
  | instantiate source comments => runInstantiate o source comments
  | declare file storage => runDeclare o file storage
  | testbench source outputDir force toOutput => runTestbench o source outputDir force toOutput
  | doc source format => runDoc o source format
  | scan root => runScan o root
  | hierarchy root top => runHierarchy o root top
  | definition root name => runLookup o root name fun m => m.location.text
  | hover root name => runLookup o root name Hover.ofModule
  | watch root => runWatch o root

/-- Does what a command line asks for. -/
def Invocation.perform : Invocation → Run Nat
  | help verb => do
    print (helpText verb)
    return 0
  | noCommand => do
    print (helpText none)
    return 1
  | wrong verb e => throw (.usage (complaint verb e))
  | .run o command => do
    Command.run o command
    return 0

/-- Runs the program on a console. -/
def execute (console : Console) (args : List Text) : Exit × Console :=
  match ((read args).perform.run).run console with
  | (.ok n, console) => (.code n, console)
  | (.error e, console) => (e, console)

end Command

end VerilogIndex
