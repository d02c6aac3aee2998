import VerilogIndex.Source.Identifier
import VerilogIndex.Source.Keyword

/-!
# Instances

An instance is written as a type, blanks, an optional parameter override `#( … )`, a name and an
opening parenthesis. The override runs to the first closing parenthesis after which a name and an
opening parenthesis follow, and holds no semicolon. A reserved word is neither a type nor a name.
-/

namespace VerilogIndex.Source

open Text

/-- An instance in a text: its type and name, and the offset of the name. -/
structure Found where
  type : Text
  name : Text
  offset : Nat
  deriving DecidableEq, Repr

/-- An instance's shape at the start of a text: the offset of the name and the length up to and
with the opening parenthesis. -/
structure Shape where
  type : Text
  name : Text
  offset : Nat
  size : Nat
  deriving DecidableEq, Repr

/-- The name with which a text starts after blanks, before an opening parenthesis: the number of
blanks before it, the name, and the length up to and with the parenthesis. -/
def namedBlock? (t : Text) : Option (Nat × Text × Nat) := do
  let lead := (t.takeWhile isBlank).length
  let (name, r) ← identifier? (t.dropWhile isBlank)
  match r.dropWhile isBlank with
  | '(' :: _ => some (lead, name, lead + name.length + (r.takeWhile isBlank).length + 1)
  | _ => none

/-- The named block after an override of which `read` characters have been read. -/
def afterOverride? : (read : Nat) → Text → Option (Nat × Text × Nat)
  | _, [] => none
  | read, c :: r =>
    if c = ';' then none
    else
      match if c = ')' then namedBlock? r else none with
      | some (lead, name, size) => some (read + 1 + lead, name, read + 1 + size)
      | none => afterOverride? (read + 1) r

/-- The instance a text starts with. -/
def shape? (t : Text) : Option Shape := do
  let (type, r) ← identifier? t
  let gap := r.takeWhile isBlank
  if gap.isEmpty then none
  else
    let lead := type.length + gap.length
    match r.dropWhile isBlank with
    | '#' :: r =>
      match r.dropWhile isBlank with
      | '(' :: inner =>
        let lead := lead + 1 + (r.takeWhile isBlank).length + 1
        let (offset, name, size) ← afterOverride? 0 inner
        some ⟨type, name, lead + offset, lead + size⟩
      | _ => none
    | r =>
      let (offset, name, size) ← namedBlock? r
      some ⟨type, name, lead + offset, lead + size⟩

/-- The instances from offset `pos` on, after `skip` characters of the one before; `glued` if a
word character precedes. -/
def shapesFrom : (pos : Nat) → (glued : Bool) → (skip : Nat) → Text → List Found
  | _, _, _, [] => []
  | pos, _, skip + 1, c :: r => shapesFrom (pos + 1) (isWord c) skip r
  | pos, glued, 0, c :: r =>
    match if glued then none else shape? (c :: r) with
    | some s => ⟨s.type, s.name, pos + s.offset⟩ :: shapesFrom (pos + 1) (isWord c) (s.size - 1) r
    | none => shapesFrom (pos + 1) (isWord c) 0 r

/-- The instances of a text from offset `start` on. -/
def instances (t : Text) (start : Nat := 0) : List Found :=
  let glued := (t.take start).getLast?.any isWord
  (shapesFrom start glued 0 (t.drop start)).filter fun f =>
    !isReserved f.type && !isReserved f.name

end VerilogIndex.Source
