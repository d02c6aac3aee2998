import VerilogIndex.Text.Case
import VerilogIndex.Text.Quoted

/-!
# Port directions

The three directions of a port and the words for them.
-/

namespace VerilogIndex

inductive Direction where
  | input
  | output
  | inout
  deriving DecidableEq, Repr

namespace Direction

def all : List Direction := [.input, .output, .inout]

def text : Direction → Text
  | .input => "input"
  | .output => "output"
  | .inout => "inout"

/-- The direction's name as a constant. -/
def constantName : Direction → Text
  | .input => "INPUT"
  | .output => "OUTPUT"
  | .inout => "INOUT"

/-- The direction whose word is `t`, to the letter. -/
def ofWord? (t : Text) : Option Direction := all.find? fun d => d.text == t

/-- A word that names no direction, in lower case and without blanks around it. -/
structure Unknown where
  word : Text
  deriving DecidableEq, Repr

def Unknown.message (e : Unknown) : Text :=
  Text.quoted e.word ++ " is not a valid Direction"

/-- The direction a text names, apart from case and blanks around it. -/
def parse (t : Text) : Except Unknown Direction :=
  let word := Text.lower (Text.trim t)
  match ofWord? word with
  | some d => .ok d
  | none => .error ⟨word⟩

end Direction

end VerilogIndex
