import VerilogIndex.Text.Digit
import VerilogIndex.Yaml.Cursor

/-!
# Scalar texts

The text of a scalar in each of its styles: quoted, in a block, or plain. Lines of quoted and plain
scalars are folded: a single line break becomes a space, and of several the first one goes.
-/

namespace VerilogIndex.Yaml

/-- A line break and the empty lines after it, folded. -/
def fold (lineBreak : Text) (breaks : Text) : Text :=
  if lineBreak != ['\n'] then lineBreak ++ breaks
  else if breaks.isEmpty then [' ']
  else breaks

/-! ## Quoted scalars -/

/-- The line breaks at the cursor with the spaces and tabs around them; a separator of documents
may not start a line. -/
def quotedBreaks? : (fuel : Nat) → Cursor → Option (Text × Cursor)
  | 0, _ => none
  | fuel + 1, k =>
    if k.atSeparator then none
    else
      let k := k.dropWhile fun c => c == ' ' || c == '\t'
      if endsLine k.peek && k.peek.isSome then do
        let (b, k) := k.lineBreak
        let (more, k) ← quotedBreaks? fuel k
        return (b ++ more, k)
      else some ([], k)

/-- What a character after a backslash stands for. -/
def escaped? : Char → Option Char
  | '0' => some '\x00'
  | 'a' => some '\x07'
  | 'b' => some '\x08'
  | 't' | '\t' => some '\t'
  | 'n' => some '\n'
  | 'v' => some '\x0b'
  | 'f' => some '\x0c'
  | 'r' => some '\r'
  | 'e' => some '\x1b'
  | ' ' => some ' '
  | '"' => some '"'
  | '\\' => some '\\'
  | '/' => some '/'
  | 'N' => some '\u0085'
  | '_' => some '\u00a0'
  | 'L' => some '\u2028'
  | 'P' => some '\u2029'
  | _ => none

/-- The number of digits of a code after a backslash. -/
def codeLength? : Char → Option Nat
  | 'x' => some 2
  | 'u' => some 4
  | 'U' => some 8
  | _ => none

/-- The text of an escape, from after its backslash. -/
def escape? (k : Cursor) : Option (Text × Cursor) := do
  let c ← k.peek
  match escaped? c with
  | some d => return ([d], k.next)
  | none =>
    match codeLength? c with
    | some n =>
      let digits := k.next.rest.take n
      if digits.length = n ∧ digits.all Text.isHexDigit ∧ Text.valueIn 16 digits < 0x110000 then
        return ([Char.ofNat (Text.valueIn 16 digits)], k.skip (n + 1))
      else none
    | none =>
      if isBreak c then quotedBreaks? (k.rest.length + 1) k.lineBreak.2 else none

/-- A character that a quoted scalar takes as it is. -/
def isOrdinary (c : Char) : Bool :=
  !isBreak c && c != ' ' && c != '\t' && c != '\'' && c != '"' && c != '\\'

/-- A quoted scalar from inside of its quotes to after the closing one. -/
def quotedText? (double : Bool) : (fuel : Nat) → Cursor → Option (Text × Cursor)
  | 0, _ => none
  | fuel + 1, k => do
    let (read, k) ← match k.peek with
      | none => none
      | some '\'' =>
        if double then some (some ['\''], k.next)
        else if k.ahead 1 == some '\'' then some (some ['\''], k.skip 2)
        else some (none, k.next)
      | some '"' => if double then some (none, k.next) else some (some ['"'], k.next)
      | some '\\' =>
        if double then (escape? k.next).map fun r => (some r.1, r.2)
        else some (some ['\\'], k.next)
      | some c =>
        if isOrdinary c then some (some [c], k.next)
        else
          let (blanks, k) := k.takeWhile fun c => c == ' ' || c == '\t'
          match k.peek with
          | none => none
          | some c =>
            if isBreak c then do
              let (b, k) := k.lineBreak
              let (breaks, k) ← quotedBreaks? (k.rest.length + 1) k
              some (some (fold b breaks), k)
            else some (some blanks, k)
    match read with
    | none => return ([], k)
    | some t =>
      let (more, k) ← quotedText? double fuel k
      return (t ++ more, k)

/-- The quoted scalar that starts at the cursor. -/
def quoted? (k : Cursor) : Option (Text × Cursor) :=
  quotedText? (k.peek == some '"') (k.rest.length + 1) k.next

/-! ## Block scalars -/

/-- What becomes of the line breaks at the end of a block. -/
inductive Chomping where
  | strip
  | clip
  | keep
  deriving DecidableEq, Repr

/-- The sign for the line breaks at the end, if one is next. -/
def chomping? (k : Cursor) : Option (Chomping × Cursor) :=
  match k.peek with
  | some '+' => some (.keep, k.next)
  | some '-' => some (.strip, k.next)
  | _ => none

/-- The digit for the indentation, if one is next; zero is not allowed. -/
def increment? (k : Cursor) : Option (Option Nat × Cursor) :=
  match k.peek with
  | some c =>
    if c.isDigit then
      if c == '0' then none else some (some (Text.digitValue c), k.next)
    else some (none, k)
  | none => some (none, k)

/-- The signs after the mark of a block: chomping and indentation in either order. -/
def blockSigns? (k : Cursor) : Option (Chomping × Option Nat × Cursor) := do
  let (c, i, k) ← match chomping? k with
    | some (c, k) => (increment? k).map fun r => (c, r.1, r.2)
    | none => do
      let (i, k) ← increment? k
      match i, chomping? k with
      | some i, some (c, k) => return (c, some i, k)
      | i, _ => return (.clip, i, k)
  if endsName k.peek then return (c, i, k) else none

/-- The empty lines before a block whose indentation is not given, and the widest of them and the
first line. -/
def blockLead : (fuel : Nat) → (widest : Nat) → Cursor → Text × Nat × Cursor
  | 0, widest, k => ([], widest, k)
  | fuel + 1, widest, k =>
    match k.peek with
    | some ' ' => blockLead fuel (max widest k.next.column) k.next
    | some c =>
      if isBreak c then
        let (b, k) := k.lineBreak
        let (more, widest, k) := blockLead fuel widest k
        (b ++ more, widest, k)
      else ([], widest, k)
    | none => ([], widest, k)

/-- The cursor after spaces, up to the column of the block. -/
def indented (indent : Nat) (k : Cursor) : Cursor :=
  k.skip (min (indent - k.column) (k.rest.takeWhile (· == ' ')).length)

/-- The empty lines at the cursor, with their spaces up to the column of the block. -/
def blockBreaks (indent : Nat) : (fuel : Nat) → Cursor → Text × Cursor
  | 0, k => ([], k)
  | fuel + 1, k =>
    let k := indented indent k
    if endsLine k.peek && k.peek.isSome then
      let (b, k) := k.lineBreak
      let (more, k) := blockBreaks indent fuel k
      (b ++ more, k)
    else ([], k)

/-- The cursor is at a line of the block. -/
def inBlock (indent : Nat) (k : Cursor) : Bool := k.column == indent && k.peek.isSome

/-- The lines of a block, then its last line break and the empty lines after it. -/
def blockLines (folded : Bool) (indent : Nat) :
    (fuel : Nat) → (breaks : Text) → Cursor → Text × Text × Text × Cursor
  | 0, breaks, k => ([], [], breaks, k)
  | fuel + 1, breaks, k =>
    let spaced := fun (k : Cursor) => k.peek == some ' ' || k.peek == some '\t'
    let leading := !spaced k
    let (line, k) := k.takeWhile (!isBreak ·)
    let (b, k) := k.lineBreak
    let (after, k) := blockBreaks indent (k.rest.length + 1) k
    if inBlock indent k then
      let joint : Text :=
        if folded && b == ['\n'] && leading && !spaced k then
          if after.isEmpty then [' '] else []
        else b
      let (more, last, trailing, k) := blockLines folded indent fuel after k
      (breaks ++ line ++ joint ++ more, last, trailing, k)
    else (breaks ++ line, b, after, k)

/-- The block scalar that starts at the cursor, below a line indented by `outer`. -/
def block? (outer : Int) (k : Cursor) : Option (Text × Cursor) := do
  let folded := k.peek == some '>'
  let (chomping, increment, k) ← blockSigns? k.next
  let k ← k.restOfLine?
  let least := (max (outer + 1) 1).toNat
  let (breaks, indent, k) := match increment with
    | none =>
      let (breaks, widest, k) := blockLead (k.rest.length + 1) 0 k
      (breaks, max least widest, k)
    | some n =>
      let indent := least + n - 1
      let (breaks, k) := blockBreaks indent (k.rest.length + 1) k
      (breaks, indent, k)
  let (text, last, trailing, k) :=
    if inBlock indent k then blockLines folded indent (k.rest.length + 1) breaks k
    else ([], [], breaks, k)
  match chomping with
  | .strip => return (text, k)
  | .clip => return (text ++ last, k)
  | .keep => return (text ++ last ++ trailing, k)

/-! ## Plain scalars -/

/-- A plain scalar ends before the character `c` that `after` follows. -/
def endsPlain (inFlow : Bool) (c : Char) (after : Option Char) : Bool :=
  let isMark := fun c => c == ',' || c == '[' || c == ']' || c == '\x7b' || c == '\x7d'
  isBreak c || c == ' ' || c == '\t' ||
    (c == ':' && (endsWord after || (inFlow && after.any isMark))) ||
    (inFlow && (isMark c || c == '?'))

/-- The characters of a plain scalar up to the next blank or mark. -/
def plainRun (inFlow : Bool) : Text → Text
  | [] => []
  | c :: r => if endsPlain inFlow c r.head? then [] else c :: plainRun inFlow r

/-- The blank lines at the cursor with the spaces in them; none at a separator of documents. -/
def plainBreaks? : (fuel : Nat) → Cursor → Option (Text × Cursor)
  | 0, _ => none
  | fuel + 1, k =>
    match k.peek with
    | some ' ' => plainBreaks? fuel k.next
    | some c =>
      if isBreak c then
        let (b, k) := k.lineBreak
        if k.atSeparator then none
        else (plainBreaks? fuel k).map fun r => (b ++ r.1, r.2)
      else some ([], k)
    | none => some ([], k)

/-- What stands between two runs of a plain scalar: spaces, or folded line breaks. Tells whether
there was a line break, and gives no text where the scalar cannot go on. -/
def plainGap (k : Cursor) : Text × Bool × Cursor :=
  let (spaces, k) := k.takeWhile (· == ' ')
  match k.peek with
  | none => (spaces, false, k)
  | some c =>
    if isBreak c then
      let (b, k) := k.lineBreak
      if k.atSeparator then ([], true, k)
      else
        match plainBreaks? (k.rest.length + 1) k with
        | none => ([], true, k)
        | some (breaks, k) => (fold b breaks, true, k)
    else (spaces, false, k)

/-- A plain scalar whose lines are indented by `indent` at least. Tells whether it ended after a
line break. -/
def plainText (inFlow : Bool) (indent : Int) :
    (fuel : Nat) → (gap : Text) → (broken : Bool) → Cursor → Text × Bool × Cursor
  | 0, _, broken, k => ([], broken, k)
  | fuel + 1, gap, broken, k =>
    let run := if k.peek == some '#' then [] else plainRun inFlow k.rest
    if run.isEmpty then ([], broken, k)
    else
      let k := k.skip run.length
      let (next, broken, k) := plainGap k
      if next.isEmpty || k.peek == some '#' || (!inFlow && k.column < indent) then
        (gap ++ run, broken, k)
      else
        let (more, broken, k) := plainText inFlow indent fuel next broken k
        (gap ++ run ++ more, broken, k)

/-- The plain scalar that starts at the cursor, below a line indented by `outer`. -/
def plain (inFlow : Bool) (outer : Int) (k : Cursor) : Text × Bool × Cursor :=
  plainText inFlow (outer + 1) (k.rest.length + 1) [] false k

end VerilogIndex.Yaml
