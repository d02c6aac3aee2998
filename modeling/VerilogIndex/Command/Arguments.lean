import VerilogIndex.Table
import VerilogIndex.Text.Digit
import VerilogIndex.Text.Quoted

/-!
# Arguments of a command line

A command line has switches, which begin with dashes, and places for other arguments. A long switch
may be shortened as long as it stays unique, a value follows its switch or an equals sign, and short
flags may share one dash. After two dashes alone there are no switches any more.
-/

namespace VerilogIndex

inductive Switch where
  /-- A switch without value; its short form is one letter. -/
  | flag (short : Option Char) (long : Text)
  /-- A switch with a value, which is one of the choices if there are any. -/
  | setting (long : Text) (choices : List Text)
  deriving DecidableEq, Repr

namespace Switch

def long : Switch → Text
  | flag _ long | setting long _ => long

def hasShort (s : Switch) (c : Char) : Bool :=
  match s with
  | flag (some short) _ => short == c
  | _ => false

/-- All forms of the switch. -/
def title : Switch → Text
  | flag (some short) long => ['-', short, '/'] ++ long
  | flag none long | setting long _ => long

/-- Asks for help. -/
def help : Switch := flag (some 'h') "--help"

end Switch

/-- A place for an argument. -/
inductive Slot where
  | required (title : Text)
  | optional (title : Text)
  /-- One argument and all that follow it. -/
  | rest
  deriving DecidableEq, Repr

structure Grammar where
  switches : List Switch
  slots : List Slot
  deriving DecidableEq, Repr

/-- What is wrong with a command line. -/
inductive UsageError where
  | ambiguous (argument : Text) (matching : List Text)
  | unusedValue (switch value : Text)
  | noValue (switch : Text)
  | badChoice (place value : Text) (choices : List Text)
  | missing (titles : List Text)
  | unrecognised (arguments : List Text)
  deriving DecidableEq, Repr

def UsageError.message : UsageError → Text
  | .ambiguous argument matching =>
    "ambiguous option: " ++ argument ++ " could match " ++ Text.joinWith ", " matching
  | .unusedValue switch value =>
    "argument " ++ switch ++ ": ignored explicit argument " ++ Text.quoted value
  | .noValue switch => "argument " ++ switch ++ ": expected one argument"
  | .badChoice place value choices =>
    "argument " ++ place ++ ": invalid choice: " ++ Text.quoted value ++ " (choose from " ++
      Text.joinWith ", " (choices.map Text.quoted) ++ ")"
  | .missing titles => "the following arguments are required: " ++ Text.joinWith ", " titles
  | .unrecognised arguments => "unrecognized arguments: " ++ Text.joinWith " " arguments

namespace Grammar

/-- What an argument is, as far as it can be told alone. -/
inductive Token where
  | long (s : Switch) (value : Option Text)
  /-- A flag in short form, with the letters that share its dash. -/
  | short (s : Switch) (more : Text)
  /-- Looks like a switch, but there is none of that form. -/
  | unknown
  | plain
  /-- Two dashes alone. -/
  | separator
  deriving DecidableEq, Repr

/-- Digits after a minus sign, with at most one point among or before them. A line break at the end
does not count. -/
def isNegativeNumber (t : Text) : Bool :=
  match if t.getLast? = some '\n' then t.dropLast else t with
  | '-' :: digits =>
    let whole := digits.takeWhile Text.isDecimal
    match digits.dropWhile Text.isDecimal with
    | [] => !whole.isEmpty
    | '.' :: fraction => !fraction.isEmpty && fraction.all Text.isDecimal
    | _ => false
  | _ => false

/-- What an argument with a dash is that is no switch: numbers and what has blanks are plain. -/
def noSwitch (arg : Text) : Token :=
  if isNegativeNumber arg || arg.contains ' ' then .plain else .unknown

def tokenOf (g : Grammar) (arg : Text) : Except UsageError Token :=
  match arg with
  | '-' :: '-' :: _ =>
    let (name, value) := Text.cut '=' arg
    match g.switches.find? fun s => s.long == name with
    | some s => .ok (.long s value)
    | none =>
      match g.switches.filter fun s => (Text.after? name s.long).isSome with
      | [] => .ok (noSwitch arg)
      | [s] => .ok (.long s value)
      | several => .error (.ambiguous arg (several.map (·.long)))
  | '-' :: c :: more =>
    match g.switches.find? (·.hasShort c) with
    | some s => .ok (.short s more)
    | none => .ok (noSwitch arg)
  | _ => .ok .plain

/-- Each argument with what it is. -/
def tokens (g : Grammar) : List Text → Except UsageError (List (Text × Token))
  | [] => .ok []
  | arg :: args =>
    if arg = ['-', '-'] then .ok ((arg, .separator) :: args.map fun a => (a, .plain))
    else do
      let token ← g.tokenOf arg
      return (arg, token) :: (← g.tokens args)

/-- The flags that share a dash. Letters from the first unknown one on are left over. -/
def flagsFrom (g : Grammar) (s : Switch) : Text → Except UsageError (List Switch × List Text)
  | [] => .ok ([s], [])
  | '=' :: value => .error (.unusedValue s.title value)
  | '-' :: more => .error (.unusedValue s.title ('-' :: more))
  | c :: more =>
    match g.switches.find? (·.hasShort c) with
    | none => .ok ([s], ['-' :: c :: more])
    | some next => do
      let (flags, left) ← g.flagsFrom next more
      return (s :: flags, left)

/-- What a command line says. -/
structure Reading where
  flags : List Switch := []
  /-- The values of the settings, under their long forms. -/
  settings : Table Text := []
  /-- What stands in the slots, in order. -/
  arguments : List (List Text) := []
  /-- What has no place. -/
  extras : List Text := []
  deriving DecidableEq, Repr

/-- Why a command line is not read to its end. -/
inductive Stop where
  | help
  | error (e : UsageError)
  deriving DecidableEq, Repr

namespace Reading

/-- Sets flags one after the other; the flag for help ends the reading. -/
def setFlags (r : Reading) (flags : List Switch) : Except Stop Reading :=
  if Switch.help ∈ flags then .error .help else .ok { r with flags := r.flags ++ flags }

def setValue (r : Reading) (s : Switch) (value : Text) : Except Stop Reading :=
  match s with
  | .setting long choices =>
    if choices.isEmpty || choices.contains value then
      .ok { r with settings := r.settings.put long value }
    else .error (.error (.badChoice long value choices))
  | .flag .. => .error (.error (.unusedValue s.title value))

def fill (r : Reading) (argument : List Text) : Reading :=
  { r with arguments := r.arguments ++ [argument] }

def leave (r : Reading) (extras : List Text) : Reading := { r with extras := r.extras ++ extras }

/-- The argument in a slot without the first two dashes alone, if any is left. -/
def argument? (r : Reading) (slot : Nat) : Option Text :=
  ((r.arguments.getD slot []).erase ['-', '-']).head?

def value? (r : Reading) (long : Text) : Option Text := r.settings.get? long

def hasFlag (r : Reading) (long : Text) : Bool := r.flags.any fun s => s.long == long

end Reading

/-- The slots that are left must do without an argument. -/
def Reading.finish (r : Reading) (slots : List Slot) : Except Stop Reading :=
  match slots.filterMap fun
    | .required title => some title
    | _ => none with
  | [] => .ok r
  | titles => .error (.error (.missing titles))

/-- Reads the arguments one after the other. Plain ones go to the slots in order. Two dashes alone
go with the argument before them, else with the one that follows. -/
def readFrom (g : Grammar) (slots : List Slot) (r : Reading) :
    List (Text × Token) → Except Stop Reading
  | [] => r.finish slots
  | (arg, .unknown) :: rest => g.readFrom slots (r.leave [arg]) rest
  | (_, .short s more) :: rest => do
    let (flags, left) ← (g.flagsFrom s more).mapError .error
    g.readFrom slots (← (r.leave left).setFlags flags) rest
  | (_, .long s (some value)) :: rest => do g.readFrom slots (← r.setValue s value) rest
  | (_, .long (.flag short long) none) :: rest => do
    g.readFrom slots (← r.setFlags [.flag short long]) rest
  | (_, .long (.setting long choices) none) :: (value, .plain) :: rest => do
    g.readFrom slots (← r.setValue (.setting long choices) value) rest
  | (_, .long (.setting long _) none) :: _ => .error (.error (.noValue long))
  | (arg, .plain) :: (dashes, .separator) :: rest =>
    match slots with
    | [] => g.readFrom [] (r.leave [arg, dashes]) rest
    | .rest :: _ => .ok (r.fill (arg :: dashes :: rest.map (·.1)))
    | _ :: slots => g.readFrom slots (r.fill [arg, dashes]) rest
  | (arg, .plain) :: rest =>
    match slots with
    | [] => g.readFrom [] (r.leave [arg]) rest
    | .rest :: _ => .ok (r.fill (arg :: rest.map (·.1)))
    | _ :: slots => g.readFrom slots (r.fill [arg]) rest
  | [(dashes, .separator)] =>
    match slots with
    | .optional _ :: slots => (r.fill [dashes]).finish slots
    | slots => (r.leave [dashes]).finish slots
  | (dashes, .separator) :: (arg, _) :: rest =>
    match slots with
    | [] => g.readFrom [] (r.leave [dashes, arg]) rest
    | .rest :: _ => .ok (r.fill (dashes :: arg :: rest.map (·.1)))
    | _ :: slots => g.readFrom slots (r.fill [dashes, arg]) rest

/-- Reads a command line. -/
def read (g : Grammar) (args : List Text) : Except Stop Reading := do
  g.readFrom g.slots {} (← (g.tokens args).mapError .error)

end Grammar

end VerilogIndex
