import VerilogIndex.Source.Ports
import VerilogIndex.Text.Lines

/-!
# Signal declarations

A line of an instantiation that connects a signal in parentheses and ends in a comment with a
direction and a type tells how to declare the signal. Constants and expressions are no signals.
-/

namespace VerilogIndex.Generate

open Text Source

/-- A character of a connected expression that is neither blank nor a parenthesis. -/
def isPlain (c : Char) : Bool := !isBlank c && c != '(' && c != ')'

/-- The expression in the parentheses that a text starts with, and the text after them. -/
def connection? : Text → Option (Text × Text)
  | '(' :: r =>
    let t := trimLeft r
    let name := t.takeWhile isPlain
    match trimLeft (t.dropWhile isPlain) with
    | ')' :: rest => if name.isEmpty then none else some (name, rest)
    | _ => none
  | _ => none

/-- The direction and type in the first comment that opens with a direction. -/
def portComment? : Text → Option (Direction × Text)
  | [] => none
  | c :: r =>
    match (after? "//" (c :: r)).bind fun t => directionKeyword? (trimLeft t) with
    | some found => some found
    | none => portComment? r

/-- The connected expression of a line with the direction and type in its comment. -/
def connectedPort? : Text → Option Port
  | [] => none
  | c :: r =>
    let here := do
      let (name, rest) ← connection? (c :: r)
      let (direction, type) ← portComment? rest
      return ⟨name, direction, squeeze type⟩
    match here with
    | some p => some p
    | none => connectedPort? r

/-- Adds a signal unless it is no identifier or has been seen. -/
def addSignal (signals : List Port) (p : Port) : List Port :=
  if isIdentifier p.name && !signals.any (fun q => q.name == p.name) then signals ++ [p]
  else signals

/-- The signals connected in a text, each at its first line. -/
def readSignals (t : Text) : List Port :=
  ((lines t).filterMap connectedPort?).foldl addSignal []

/-- How signals are declared: the storage class, and the names that are left out. -/
structure Declarator where
  storage : Text := "logic"
  ignored : List Text := ["clk", "rst_n", "rst", "clock", "reset"]
  deriving DecidableEq, Repr

namespace Declarator

def line (d : Declarator) (width : Nat) (p : Port) : Text :=
  if width = 0 then d.storage ++ " " ++ p.name ++ ";"
  else d.storage ++ " " ++ padRight width p.bitRange ++ " " ++ p.name ++ ";"

/-- The declarations of the signals, with their ranges in one column. -/
def declare (d : Declarator) (signals : List Port) : List Text :=
  let wanted := signals.filter fun p => !d.ignored.contains p.name
  wanted.map (d.line (maxLength (wanted.map (·.bitRange))))

/-- The declarations of the signals connected in a text. -/
def render (d : Declarator) (t : Text) : Text := joinWith "\n" (d.declare (readSignals t))

end Declarator

end VerilogIndex.Generate
