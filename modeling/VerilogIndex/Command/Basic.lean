import VerilogIndex.Command.Arguments
import VerilogIndex.Strategy

/-!
# Commands

What the program can be asked to do, and how a command line asks for it.
-/

namespace VerilogIndex

/-- Where a command takes its module from: a file, or the index of a project. -/
structure ModuleSource where
  file : Option Text
  module : Option Text
  root : Text := "."
  deriving DecidableEq, Repr

inductive DocFormat where
  | markdown
  | csv
  deriving DecidableEq, Repr

inductive Command where
  | instantiate (source : ModuleSource) (comments : Bool)
  | declare (file storage : Option Text)
  | testbench (source : ModuleSource) (outputDir : Option Text) (force toOutput : Bool)
  | doc (source : ModuleSource) (format : DocFormat)
  | scan (root : Text)
  | hierarchy (root : Text) (top : Option Text)
  | definition (root : Text) (name : Option Text)
  | hover (root : Text) (name : Option Text)
  | watch (root : Text)
  deriving DecidableEq, Repr

/-- Settings for all commands. -/
structure GlobalOptions where
  config : Option Text := none
  strategy : Option Text := none
  /-- Tell also what is no warning. -/
  verbose : Bool := false
  deriving DecidableEq, Repr

namespace Command

inductive Verb where
  | instantiate
  | declare
  | testbench
  | doc
  | scan
  | hierarchy
  | definition
  | hover
  | watch
  deriving DecidableEq, Repr

namespace Verb

def text : Verb → Text
  | instantiate => "instantiate"
  | declare => "declare"
  | testbench => "testbench"
  | doc => "doc"
  | scan => "scan"
  | hierarchy => "hierarchy"
  | definition => "definition"
  | hover => "hover"
  | watch => "watch"

def all : List Verb :=
  [instantiate, declare, testbench, doc, scan, hierarchy, definition, hover, watch]

/-- The command of that name. -/
def ofText? (t : Text) : Option Verb := all.find? fun v => v.text == t

/-- The switches that tell where a module comes from. -/
def sourceSwitches : List Switch := [.help, .setting "--module" [], .setting "--root" []]

def root : Slot := .required "ROOT"

def file : Slot := .optional "FILE"

def name : Slot := .required "NAME"

def grammar : Verb → Grammar
  | instantiate => ⟨sourceSwitches ++ [.flag none "--comments"], [file]⟩
  | declare => ⟨[.help, .setting "--storage" ["logic", "wire", "reg"]], [file]⟩
  | testbench =>
    ⟨sourceSwitches ++ [.setting "--output-dir" [], .flag none "--force", .flag none "--stdout"],
      [file]⟩
  | doc => ⟨sourceSwitches ++ [.setting "--doc-format" ["markdown", "csv"]], [file]⟩
  | scan => ⟨[.help], [root]⟩
  | hierarchy => ⟨[.help, .setting "--top" []], [root]⟩
  | definition => ⟨[.help], [root, name]⟩
  | hover => ⟨[.help], [root, name]⟩
  | watch => ⟨[.help], [root]⟩

end Verb

open Grammar (Reading)

/-- The source that a command line tells. -/
def sourceOf (r : Reading) : ModuleSource where
  file := r.argument? 0
  module := r.value? "--module"
  root := (r.value? "--root").getD "."

/-- The command that a command line tells. -/
def ofReading (r : Reading) : Verb → Command
  | .instantiate => instantiate (sourceOf r) (r.hasFlag "--comments")
  | .declare => declare (r.argument? 0) (r.value? "--storage")
  | .testbench =>
    testbench (sourceOf r) (r.value? "--output-dir") (r.hasFlag "--force") (r.hasFlag "--stdout")
  | .doc => doc (sourceOf r) (if r.value? "--doc-format" = some "csv" then .csv else .markdown)
  | .scan => scan ((r.argument? 0).getD [])
  | .hierarchy => hierarchy ((r.argument? 0).getD []) (r.value? "--top")
  | .definition => definition ((r.argument? 0).getD []) (r.argument? 1)
  | .hover => hover ((r.argument? 0).getD []) (r.argument? 1)
  | .watch => watch ((r.argument? 0).getD [])

/-- The command line up to the name of a command. -/
def globalGrammar : Grammar where
  switches := [.help, .setting "--config" [], .setting "--strategy" Strategy.registry.keys,
    .flag (some 'v') "--verbose"]
  slots := [.rest]

def globalOptions (r : Reading) : GlobalOptions where
  config := r.value? "--config"
  strategy := r.value? "--strategy"
  verbose := r.hasFlag "--verbose"

/-- What a command line asks for. -/
inductive Invocation where
  | help (verb : Option Verb)
  | noCommand
  | wrong (verb : Option Verb) (e : UsageError)
  | run (options : GlobalOptions) (command : Command)
  deriving DecidableEq, Repr

/-- The user wants to be told more. -/
def Invocation.isVerbose : Invocation → Bool
  | run o _ => o.verbose
  | _ => false

/-- What comes of a command line that is not read to its end. -/
def Invocation.ofStop (verb : Option Verb) : Grammar.Stop → Invocation
  | .help => help verb
  | .error e => wrong verb e

/-- Arguments without a place are an error once all else is in order. -/
def Invocation.withExtras (extras : List Text) (i : Invocation) : Invocation :=
  if extras.isEmpty then i else wrong none (.unrecognised extras)

/-- Reads a command line. -/
def read (args : List Text) : Invocation :=
  match globalGrammar.read args with
  | .error stop => .ofStop none stop
  | .ok r =>
    match r.arguments with
    | (name :: args) :: _ =>
      match Verb.ofText? name with
      | none => .wrong none (.badChoice "command" name (Verb.all.map Verb.text))
      | some verb =>
        match verb.grammar.read args with
        | .error stop => .ofStop (some verb) stop
        | .ok own =>
          (Invocation.run (globalOptions r) (ofReading own verb)).withExtras
            (r.extras ++ own.extras)
    | _ => Invocation.noCommand.withExtras r.extras

end Command

end VerilogIndex
