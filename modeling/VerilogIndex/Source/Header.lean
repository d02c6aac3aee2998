import VerilogIndex.Source.Identifier

/-!
# Module headings and headers

A heading is the keyword `module` with the name after it. A header follows the name: an optional
parameter block `#( … )`, a port block `( … )` and a semicolon, with blanks between them. A block
ends at the parenthesis that closes it and is bounded in length.
-/

namespace VerilogIndex.Source

open Text

/-- A module's heading: where it starts, where the name starts, and what follows the name. -/
structure Heading where
  start : Nat
  nameStart : Nat
  name : Text
  rest : Text
  deriving DecidableEq, Repr

/-- The offset right after the name. -/
def Heading.stop (h : Heading) : Nat := h.nameStart + h.name.length

/-- The heading a text starts with, at offset `start`. -/
def headingAt? (start : Nat) (t : Text) : Option Heading := do
  let r ← after? "module" t
  let gap := r.takeWhile isBlank
  if gap.isEmpty then none
  else
    let (name, rest) ← identifier? (r.dropWhile isBlank)
    some ⟨start, start + 6 + gap.length, name, rest⟩

/-- The first heading from offset `start` on; `glued` if a word character precedes. -/
def findHeadingFrom? : (start : Nat) → (glued : Bool) → Text → Option Heading
  | _, _, [] => none
  | start, glued, c :: r =>
    match if glued then none else headingAt? start (c :: r) with
    | some h => some h
    | none => findHeadingFrom? (start + 1) (isWord c) r

/-- The first heading of a text. -/
def findHeading? (t : Text) : Option Heading := findHeadingFrom? 0 false t

/-- The most characters a block may have, its opening parenthesis included. -/
def maxBlock : Nat := 65536

/-- The content up to the parenthesis that closes `depth` further ones, and the text after it,
within `budget` characters. -/
def closeBlock? : (budget depth : Nat) → Text → Option (Text × Text)
  | 0, _, _ => none
  | _ + 1, _, [] => none
  | budget + 1, depth, c :: r =>
    if c = ')' then
      match depth with
      | 0 => some ([], r)
      | depth + 1 => (closeBlock? budget depth r).map fun b => (c :: b.1, b.2)
    else
      let deeper := if c = '(' then depth + 1 else depth
      (closeBlock? budget deeper r).map fun b => (c :: b.1, b.2)

/-- The content of the parenthesised block a text starts with, and the text after it. -/
def block? : Text → Option (Text × Text)
  | '(' :: r => closeBlock? (maxBlock - 1) 0 r
  | _ => none

/-- The blocks of a header and the text after its semicolon. -/
structure Header where
  parameters : Option Text
  ports : Text
  rest : Text
  deriving DecidableEq, Repr

/-- The port block and the semicolon that end a header. -/
def headerEnd? (parameters : Option Text) (t : Text) : Option Header := do
  let (ports, r) ← block? t
  match trimLeft r with
  | ';' :: rest => some ⟨parameters, ports, rest⟩
  | _ => none

/-- The header a text starts with. -/
def header? (t : Text) : Option Header :=
  match trimLeft t with
  | '#' :: r => do
    let (parameters, r) ← block? (trimLeft r)
    headerEnd? (some parameters) (trimLeft r)
  | r => headerEnd? none r

end VerilogIndex.Source
