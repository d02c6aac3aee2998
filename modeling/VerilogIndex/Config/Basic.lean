import VerilogIndex.Notice
import VerilogIndex.Pattern.Read
import VerilogIndex.Strategy

/-!
# Configuration

The settings for discovery, reading and generation. A configuration comes from a mapping: unknown
keys are noticed and left out, and the settings are checked one after another, so that the first
wrong one is told.
-/

namespace VerilogIndex

structure Config where
  /-- The suffixes of source files. -/
  extensions : List Text := [".v", ".sv", ".vh", ".svh"]
  /-- The file name pattern of filelists, if it is a text. -/
  filelistPattern : Value := .text "*.f"
  ignoreDirs : List Value := [.text ".git", .text ".svn", .text "node_modules", .text "__pycache__"]
  strategy : Text := "fast"
  /-- Seconds for reading one file; without limit if it does not hold. -/
  parseTimeout : Value := .double (Double.ofDecimal false 5 0)
  /-- Seconds between a file event and its handling. -/
  debounce : Value := .double (Double.ofDecimal false 1 (-1))
  declarationStorage : Value := .text "logic"
  declarationIgnore : List Value :=
    [.text "clk", .text "rst_n", .text "rst", .text "clock", .text "reset"]
  clockPattern : Pattern.Source := .text "clk|clock"
  resetPattern : Pattern.Source := .text "rst|reset"
  commentColumn : Value := .int 30
  deriving Repr, BEq

namespace Config

inductive Error where
  | cannotRead (path : Text) (reason : Disk.Failure)
  | notUtf8 (path : Text)
  | malformed (path : Text)
  | notMapping (path : Text)
  | extensions
  | declarationIgnore
  | ignoreDirs
  | number (setting : Text)
  | commentColumn
  | strategy (v : Value)
  /-- Something that is no key where the name of a strategy is looked up. -/
  | strategyKey
  | pattern (setting reason : Text)
  /-- A pattern that its reader fails on. -/
  | patternReader (setting : Text) (fault : Pattern.Fault)
  deriving Repr

/-- What is said about an error; nothing where it is no error of a configuration. -/
def Error.message? : Error → Option Text
  | .cannotRead path reason => some ("cannot read " ++ path ++ ": " ++ reason.message)
  | .notUtf8 _ => none
  | .malformed path => some ("invalid YAML in " ++ path)
  | .notMapping path => some (path ++ ": top level must be a mapping")
  | .extensions => some "extensions must be a list of suffixes such as '.sv'"
  | .declarationIgnore => some "declaration_ignore must be a list of names"
  | .ignoreDirs => some "ignore_dirs must be a list of directory names"
  | .number setting => some (setting ++ " must be a non-negative number")
  | .commentColumn => some "comment_column must be a non-negative integer"
  | .strategy v =>
    some ("unknown strategy '" ++ v.display ++ "'; available: "
      ++ Text.joinWith ", " Strategy.registry.keys)
  | .strategyKey => none
  | .pattern setting reason =>
    some (setting ++ " is not a valid regular expression: " ++ reason)
  | .patternReader .. => none

/-- The names of the settings. -/
def settings : List Text :=
  ["extensions", "filelist_pattern", "ignore_dirs", "strategy", "parse_timeout", "debounce",
   "declaration_storage", "declaration_ignore", "clock_pattern", "reset_pattern",
   "comment_column"]

/-- The key names a setting. -/
def isSetting : Value → Bool
  | .text t => settings.contains t
  | _ => false

/-- The value under a setting's name. -/
def given? (data : List (Value × Value)) (name : Text) : Option Value :=
  data.findSome? fun
    | (.text t, v) => if t = name then some v else none
    | _ => none

/-- A text that is a suffix of file names. -/
def suffix? : Value → Option Text
  | .text ('.' :: t) => some ('.' :: t)
  | _ => none

def checkExtensions : Option Value → Except Error (List Text)
  | none => .ok ({} : Config).extensions
  | some (.list xs) =>
    match xs.mapM suffix? with
    | some ts => .ok ts
    | none => .error .extensions
  | some _ => .error .extensions

/-- A list of any values. -/
def checkList (standard : List Value) (e : Error) : Option Value → Except Error (List Value)
  | none => .ok standard
  | some (.list xs) => .ok xs
  | some _ => .error e

/-- A number that is not below zero. -/
def checkNumber (standard : Value) (setting : Text) : Option Value → Except Error Value
  | none => .ok standard
  | some (.double x) => if x.isNegative then .error (.number setting) else .ok (.double x)
  | some v =>
    if v.int?.any fun n => 0 ≤ n then .ok v else .error (.number setting)

/-- A whole number that is not below zero. -/
def checkColumn : Option Value → Except Error Value
  | none => .ok ({} : Config).commentColumn
  | some v => if v.int?.any fun n => 0 ≤ n then .ok v else .error .commentColumn

def checkStrategy : Option Value → Except Error Text
  | none => .ok ({} : Config).strategy
  | some v =>
    if !v.isKey then .error .strategyKey
    else
      match v with
      | .text t => if Strategy.registry.contains t then .ok t else .error (.strategy v)
      | _ => .error (.strategy v)

def checkSource (setting : Text) (p : Pattern.Source) : Except Error Pattern.Source :=
  match p.read with
  | .ok _ => .ok p
  | .error e =>
    .error (if e.fault.isTold then .pattern setting (p.message e)
      else .patternReader setting e.fault)

def source? : Value → Option Pattern.Source
  | .text t => some (.text t)
  | .bytes bs => some (.bytes bs)
  | _ => none

/-- Why a value that is neither text nor bytes is no pattern. -/
def noPattern (v : Value) : Text :=
  match v.unhashable? with
  | some type => "unhashable type: '" ++ type ++ "'"
  | none => "first argument must be string or compiled pattern"

def checkPattern (standard : Pattern.Source) (setting : Text) :
    Option Value → Except Error Pattern.Source
  | none => .ok standard
  | some v =>
    match source? v with
    | some p => checkSource setting p
    | none => .error (.pattern setting (noPattern v))

/-- The configuration that a mapping gives, checked in a fixed order. -/
def check (data : List (Value × Value)) : Except Error Config := do
  let standard : Config := {}
  let given := fun (name : Text) => given? data name
  let extensions ← checkExtensions (given "extensions")
  let declarationIgnore ←
    checkList standard.declarationIgnore .declarationIgnore (given "declaration_ignore")
  let ignoreDirs ← checkList standard.ignoreDirs .ignoreDirs (given "ignore_dirs")
  let parseTimeout ← checkNumber standard.parseTimeout "parse_timeout" (given "parse_timeout")
  let debounce ← checkNumber standard.debounce "debounce" (given "debounce")
  let commentColumn ← checkColumn (given "comment_column")
  let strategy ← checkStrategy (given "strategy")
  let clockPattern ←
    checkPattern standard.clockPattern "clock_pattern" (given "clock_pattern")
  let resetPattern ←
    checkPattern standard.resetPattern "reset_pattern" (given "reset_pattern")
  return {
    extensions, ignoreDirs, strategy, parseTimeout, debounce, declarationIgnore, clockPattern,
    resetPattern, commentColumn
    filelistPattern := (given "filelist_pattern").getD standard.filelistPattern
    declarationStorage := (given "declaration_storage").getD standard.declarationStorage }

/-- The configuration that a mapping gives, and the notices on its unknown keys. -/
def ofMap (data : List (Value × Value)) : Except Error Config × List Notice :=
  (check data, (data.filter fun e => !isSetting e.1).map fun e => .unknownSetting e.1)

/-- A copy of the configuration with a strategy and a storage class from elsewhere; none if neither
is given, or both are empty. -/
def copyWith? (c : Config) (strategy storage : Option Text) : Option Config :=
  let given := fun (t : Option Text) => t.filter fun t => !t.isEmpty
  if (given strategy).isNone && (given storage).isNone then none
  else
    some { c with
      strategy := (given strategy).getD c.strategy
      declarationStorage := ((given storage).map Value.text).getD c.declarationStorage }

/-- The configuration with what is given from elsewhere; the same one if nothing is. -/
def override (c : Config) (strategy storage : Option Text) : Config :=
  (c.copyWith? strategy storage).getD c

end Config

end VerilogIndex
