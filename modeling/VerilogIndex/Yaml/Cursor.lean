import VerilogIndex.Text.Basic

/-!
# Reading points of a document

A cursor is a point of a document: its offset, line and column and the text after it. A byte order
mark takes no column. Only some characters may stand in a document at all.
-/

namespace VerilogIndex.Yaml

/-- The character may stand in a document. -/
def isAllowed (c : Char) : Bool :=
  let n := c.toNat
  n == 0x9 || n == 0xA || n == 0xD || (0x20 ≤ n && n ≤ 0x7E) || n == 0x85 ||
    (0xA0 ≤ n && n ≤ 0xD7FF) || (0xE000 ≤ n && n ≤ 0xFFFD) || 0x10000 ≤ n

/-- The character ends a line. -/
def isBreak (c : Char) : Bool :=
  c == '\n' || c == '\r' || c == '\u0085' || c == '\u2028' || c == '\u2029'

/-- The end of the document or of a line. -/
def endsLine (c : Option Char) : Bool := c.all isBreak

/-- The end of the document or of a line, or a space. -/
def endsName (c : Option Char) : Bool := c.all fun c => isBreak c || c == ' '

/-- The end of the document or of a line, a space or a tab. -/
def endsWord (c : Option Char) : Bool := c.all fun c => isBreak c || c == ' ' || c == '\t'

structure Cursor where
  offset : Nat := 0
  line : Nat := 0
  column : Nat := 0
  rest : Text
  deriving DecidableEq, Repr

namespace Cursor

/-- The next character. -/
def peek (k : Cursor) : Option Char := k.rest.head?

/-- The character `n` places ahead. -/
def ahead (k : Cursor) (n : Nat) : Option Char := k.rest[n]?

/-- The cursor after the next character. -/
def next (k : Cursor) : Cursor :=
  match k.rest with
  | [] => k
  | c :: rest =>
    if isBreak c && !(c == '\r' && rest.head? == some '\n') then
      ⟨k.offset + 1, k.line + 1, 0, rest⟩
    else ⟨k.offset + 1, k.line, if c == '\ufeff' then k.column else k.column + 1, rest⟩

/-- The cursor `n` characters further. -/
def skip : Nat → Cursor → Cursor
  | 0, k => k
  | n + 1, k => skip n k.next

/-- The characters at the cursor that will do, and the cursor after them. -/
def takeWhile (k : Cursor) (p : Char → Bool) : Text × Cursor :=
  let t := k.rest.takeWhile p
  (t, k.skip t.length)

/-- The cursor after the characters that will do. -/
def dropWhile (k : Cursor) (p : Char → Bool) : Cursor := (k.takeWhile p).2

/-- The line break at the cursor, in its plain form, and the cursor after it; nothing if there is
none. -/
def lineBreak (k : Cursor) : Text × Cursor :=
  match k.peek with
  | none => ([], k)
  | some c =>
    if c == '\u2028' || c == '\u2029' then ([c], k.next)
    else if isBreak c then
      (['\n'], if c == '\r' && k.ahead 1 == some '\n' then k.skip 2 else k.next)
    else ([], k)

/-- A line of dashes or dots that separates documents starts at the cursor. -/
def atSeparator (k : Cursor) : Bool :=
  (k.rest.take 3 == ['-', '-', '-'] || k.rest.take 3 == ['.', '.', '.']) && endsWord (k.ahead 3)

/-- The cursor after spaces and a comment, which have to reach the end of the line, and after its
line break. -/
def restOfLine? (k : Cursor) : Option Cursor :=
  let k := k.dropWhile (· == ' ')
  let k := if k.peek == some '#' then k.dropWhile (!isBreak ·) else k
  if endsLine k.peek then some k.lineBreak.2 else none

end Cursor

end VerilogIndex.Yaml
