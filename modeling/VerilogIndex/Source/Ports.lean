import VerilogIndex.Design.Port
import VerilogIndex.Source.Identifier
import VerilogIndex.Source.Keyword
import VerilogIndex.Source.Split

/-!
# Ports of a header

An item of a port block declares a direction, or takes that of the port before it, and then its type
as well if it has none. The name is the identifier that only ranges follow. An item without a
direction whose type opens with anything but a data type or a range is an interface: it is left out
and ends what later items take over.
-/

namespace VerilogIndex.Source

open Text

/-- Nothing but blanks and bracket groups; `inside` of a group at the start. -/
def onlyRanges : (inside : Bool) → Text → Bool
  | inside, [] => !inside
  | false, c :: r => if isBlank c then onlyRanges false r else c == '[' && onlyRanges true r
  | true, c :: r => onlyRanges (c != ']') r

/-- What stands before the declared name, and the name: the first identifier that only ranges
follow. `before` is what has been passed over, back to front. -/
def declaredNameFrom? : (before : Text) → Text → Option (Text × Text)
  | _, [] => none
  | before, c :: r =>
    if isIdentifierStart c && onlyRanges false (r.dropWhile isWord) then
      some (before.reverse, c :: r.takeWhile isWord)
    else declaredNameFrom? (c :: before) r

def declaredName? (t : Text) : Option (Text × Text) := declaredNameFrom? [] t

/-- A space before each range that stands against the word before it; `last` is the character
before the text. -/
def spaceRanges : (last : Option Char) → Text → Text
  | _, [] => []
  | last, c :: r =>
    let glued := c == '[' && last.any fun b => !isBlank b && b != '['
    (if glued then [' ', c] else [c]) ++ spaceRanges (some c) r

/-- A type with single spaces between its parts. -/
def typeText (t : Text) : Text := spaceRanges none (squeeze t)

/-- The direction a declaration opens with, and the declaration after it. -/
def directionKeyword? (t : Text) : Option (Direction × Text) :=
  Direction.all.findSome? fun d => (afterKeyword? d.text t).map fun r => (d, r)

/-- An item without a direction goes on with the declaration before it. -/
def continues (declaration : Text) : Bool :=
  match declaredName? declaration with
  | none => false
  | some (before, _) =>
    match trim before with
    | [] => true
    | '[' :: _ => true
    | t => (identifier? t).any fun w => dataTypeWords.contains w.1

/-- What a port without its own direction takes over. -/
structure Inherited where
  direction : Direction
  type : Text
  deriving DecidableEq, Repr

/-- The port that one item declares, and what the next one can take over. -/
def portOf (inherited : Option Inherited) (item : Text) : Option Port × Option Inherited :=
  let declaration := trim (cut '=' item).1
  if declaration.isEmpty then (none, inherited)
  else
    match directionKeyword? declaration with
    | some (direction, r) =>
      match declaredName? r with
      | some (before, name) =>
        let type := typeText before
        (some ⟨name, direction, type⟩, some ⟨direction, type⟩)
      | none => (none, some ⟨direction, (inherited.map (·.type)).getD []⟩)
    | none =>
      match inherited with
      | none => (none, none)
      | some ⟨direction, type⟩ =>
        if continues declaration then
          match declaredName? declaration with
          | some (before, name) =>
            let own := typeText before
            let type := if own.isEmpty then type else own
            (some ⟨name, direction, type⟩, some ⟨direction, type⟩)
          | none => (none, inherited)
        else (none, none)

/-- The ports of the items, given what the first one can take over. -/
def portsFrom : Option Inherited → List Text → List Port
  | _, [] => []
  | inherited, item :: items =>
    let (port, inherited) := portOf inherited item
    port.toList ++ portsFrom inherited items

/-- The ports of a port block, in order. -/
def ports (block : Text) : List Port := portsFrom none (splitTopLevel block)

end VerilogIndex.Source
