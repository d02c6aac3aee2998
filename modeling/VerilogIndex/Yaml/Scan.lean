import VerilogIndex.Yaml.Scalar
import VerilogIndex.Yaml.Token

/-!
# From text to tokens

Indentation becomes tokens that open and close blocks. A key without a sign of its own is known only
by the colon after it, so the place before each token that could be one is kept until the colon
comes or the line ends.
-/

namespace VerilogIndex.Yaml

/-- A token that could be a key: its number, whether it has to be one, and where it starts. -/
structure Candidate where
  number : Nat
  required : Bool
  offset : Nat
  line : Nat
  column : Nat
  deriving DecidableEq, Repr

/-- A scan on its way: the open flow collections with a possible key in each, the indentations of
the open blocks, and the tokens so far. -/
structure Scan where
  cursor : Cursor
  /-- The tokens so far, back to front. -/
  tokens : List Token := []
  flow : Nat := 0
  indent : Int := -1
  /-- The indentations of the blocks around the current one. -/
  outer : List Int := []
  keyAllowed : Bool := true
  /-- The possible key of each flow level. -/
  candidates : List (Nat × Candidate) := []
  deriving DecidableEq, Repr

namespace Scan

def inFlow (s : Scan) : Bool := s.flow != 0

def push (s : Scan) (t : Token) : Scan := { s with tokens := t :: s.tokens }

/-- The token comes to stand before those from number `n` on. -/
def insertAt (s : Scan) (n : Nat) (t : Token) : Scan :=
  let later := s.tokens.length - n
  { s with tokens := s.tokens.take later ++ t :: s.tokens.drop later }

def candidate? (s : Scan) : Option Candidate := s.candidates.lookup s.flow

def withoutCandidate (s : Scan) : Scan :=
  { s with candidates := s.candidates.filter fun c => c.1 != s.flow }

/-- Gives up the possible key of the current level; a required one cannot be given up. -/
def dropCandidate? (s : Scan) : Option Scan :=
  if s.candidate?.any (·.required) then none else some s.withoutCandidate

/-- Notes that the next token can be a key. -/
def saveCandidate? (s : Scan) : Option Scan :=
  if s.keyAllowed then do
    let s ← s.dropCandidate?
    let k := s.cursor
    let c : Candidate :=
      ⟨s.tokens.length, !s.inFlow && s.indent == k.column, k.offset, k.line, k.column⟩
    return { s with candidates := (s.flow, c) :: s.candidates }
  else some s

/-- The longest distance between the start of a key and its colon. -/
def keyReach : Nat := 1024

/-- Gives up possible keys that the scan has left behind. -/
def dropStale? (s : Scan) : Option Scan :=
  let stale := fun (c : Candidate) =>
    c.line != s.cursor.line || keyReach < s.cursor.offset - c.offset
  if s.candidates.any fun c => stale c.2 && c.2.required then none
  else some { s with candidates := s.candidates.filter fun c => !stale c.2 }

/-- Closes the blocks that are indented further than `column`. -/
def unwind (column : Int) : (outer : List Int) → Scan → Scan
  | [], s => s
  | i :: outer, s =>
    if column < s.indent then
      unwind column outer { (s.push .blockEnd) with indent := i, outer := outer }
    else s

/-- Closes the blocks that end before the cursor, unless in a flow collection. -/
def unwindTo (column : Int) (s : Scan) : Scan :=
  if s.inFlow then s else unwind column s.outer s

/-- Opens a block at `column` unless one is open there; tells whether it did. -/
def openBlock (column : Nat) (s : Scan) : Bool × Scan :=
  if s.indent < column then
    (true, { s with outer := s.indent :: s.outer, indent := column })
  else (false, s)

/-- Consumes `n` characters as the token `t`. -/
def take (n : Nat) (t : Token) (s : Scan) : Scan :=
  ({ s with cursor := s.cursor.skip n }).push t

/-- The cursor at the next token, after spaces, comments and line breaks. Only outside of flow
collections does a line break allow a key. -/
def toToken : (fuel : Nat) → Scan → Scan
  | 0, s => s
  | fuel + 1, s =>
    let k := s.cursor.dropWhile (· == ' ')
    let k := if k.peek == some '#' then k.dropWhile (!isBreak ·) else k
    if k.peek.any isBreak then
      toToken fuel { s with cursor := k.lineBreak.2, keyAllowed := s.keyAllowed || !s.inFlow }
    else { s with cursor := k }

/-- Ends all blocks, as before a line that starts or ends a document. -/
def endBlocks? (s : Scan) : Option Scan := do
  let s ← (s.unwindTo (-1)).dropCandidate?
  return { s with keyAllowed := false }

def isNameChar (c : Char) : Bool := c.isAlphanum || c == '-' || c == '_'

/-- The name of an alias or an anchor, from its mark on. -/
def anchorName? (k : Cursor) : Option (Text × Cursor) :=
  let (name, k) := k.next.takeWhile isNameChar
  let ends := endsWord k.peek || k.peek.any fun c =>
    c == '?' || c == ':' || c == ',' || c == ']' || c == '\x7d' || c == '%' || c == '@' || c == '`'
  if name.isEmpty || !ends then none else some (name, k)

/-- The longest text of a tag at the cursor; a percent sign introduces the code of a character. -/
def uriText? : (fuel : Nat) → Cursor → Option (Text × Cursor)
  | 0, _ => none
  | fuel + 1, k =>
    match k.peek with
    | none => some ([], k)
    | some c =>
      if c == '%' then
        let digits := k.next.rest.take 2
        if digits.length = 2 ∧ digits.all Text.isHexDigit then
          (uriText? fuel (k.skip 3)).map fun r => (Char.ofNat (Text.valueIn 16 digits) :: r.1, r.2)
        else none
      else if c.isAlphanum || "-;/?:@&=+$,_.!~*'()[]".toList.contains c then
        (uriText? fuel k.next).map fun r => (c :: r.1, r.2)
      else some ([], k)

/-- The text of a tag, at least one character. -/
def uri? (k : Cursor) : Option (Text × Cursor) :=
  (uriText? (k.rest.length + 1) k).filter fun r => !r.1.isEmpty

/-- The handle of a tag: a word between exclamation marks. -/
def handle? (k : Cursor) : Option (Text × Cursor) :=
  if k.peek != some '!' then none
  else if k.ahead 1 == some ' ' then some (['!'], k.next)
  else
    let (word, k) := k.next.takeWhile isNameChar
    if k.peek == some '!' then some (('!' :: word) ++ ['!'], k.next) else none

/-- The tag that starts at the cursor: in full, empty, or with a handle. -/
def tag? (k : Cursor) : Option (Token × Cursor) := do
  let (t, k) ← match k.ahead 1 with
    | some '<' => do
      let (suffix, k) ← uri? (k.skip 2)
      if k.peek == some '>' then some (Token.tag none suffix, k.next) else none
    | c =>
      if endsWord c then some (.tag none ['!'], k.next)
      else do
        let word := k.next.rest.takeWhile fun c => !(isBreak c || c == ' ')
        let (handle, k) ← if word.contains '!' then handle? k else some (['!'], k.next)
        let (suffix, k) ← uri? k
        some (.tag (some handle) suffix, k)
  if endsName k.peek then some (t, k) else none

/-- A number of a version. -/
def versionNumber? (k : Cursor) : Option (Nat × Cursor) :=
  let (digits, k) := k.takeWhile Char.isDigit
  if digits.isEmpty then none else some (Text.valueIn 10 digits, k)

/-- The directive that starts at the cursor, and the cursor after its line. -/
def directive? (k : Cursor) : Option (Directive × Cursor) := do
  let (name, k) := k.next.takeWhile isNameChar
  if name.isEmpty || !endsName k.peek then none
  let (d, k) ←
    if name = "YAML".toList then do
      let (major, k) ← versionNumber? (k.dropWhile (· == ' '))
      if k.peek != some '.' then none
      let (minor, k) ← versionNumber? k.next
      if endsName k.peek then some (Directive.version major minor, k) else none
    else if name = "TAG".toList then do
      let (handle, k) ← handle? (k.dropWhile (· == ' '))
      if k.peek != some ' ' then none
      let (lead, k) ← uri? (k.dropWhile (· == ' '))
      if endsName k.peek then some (Directive.tagHandle handle lead, k) else none
    else some (.other, k.dropWhile (!isBreak ·))
  let k ← k.restOfLine?
  return (d, k)

/-- A sequence entry, which opens a block where none is open. -/
def entry? (s : Scan) : Option Scan := do
  let s ←
    if s.inFlow then some s
    else if !s.keyAllowed then none
    else
      let (opened, s) := s.openBlock s.cursor.column
      some (if opened then s.push .blockSequenceStart else s)
  let s ← ({ s with keyAllowed := true }).dropCandidate?
  return s.take 1 .blockEntry

/-- The sign of a key. -/
def key? (s : Scan) : Option Scan := do
  let s ←
    if s.inFlow then some s
    else if !s.keyAllowed then none
    else
      let (opened, s) := s.openBlock s.cursor.column
      some (if opened then s.push .blockMappingStart else s)
  let s ← ({ s with keyAllowed := !s.inFlow }).dropCandidate?
  return s.take 1 .key

/-- The colon before a value: what could be a key before it is one. -/
def value? (s : Scan) : Option Scan :=
  match s.candidate? with
  | some c =>
    let s := s.withoutCandidate.insertAt c.number .key
    let (opened, s) := if s.inFlow then (false, s) else s.openBlock c.column
    let s := if opened then s.insertAt c.number .blockMappingStart else s
    some (({ s with keyAllowed := false }).take 1 .value)
  | none => do
    let s ←
      if s.inFlow then some s
      else if !s.keyAllowed then none
      else
        let (opened, s) := s.openBlock s.cursor.column
        some (if opened then s.push .blockMappingStart else s)
    let s ← ({ s with keyAllowed := !s.inFlow }).dropCandidate?
    return s.take 1 .value

/-- A token that can be a key, from the cursor on. -/
def keyToken? (read : Cursor → Option (Token × Cursor)) (s : Scan) : Option Scan := do
  let s ← s.saveCandidate?
  let (t, k) ← read s.cursor
  return ({ s with keyAllowed := false, cursor := k }).push t

/-- The start of a flow collection. -/
def openFlow? (t : Token) (s : Scan) : Option Scan := do
  let s ← s.saveCandidate?
  return ({ s with flow := s.flow + 1, keyAllowed := true }).take 1 t

/-- The end of a flow collection; there has to be one. -/
def closeFlow? (t : Token) (s : Scan) : Option Scan := do
  let s ← s.dropCandidate?
  if s.inFlow then return ({ s with flow := s.flow - 1, keyAllowed := false }).take 1 t else none

/-- A plain scalar can start with the character `c` that `after` follows. -/
def startsPlain (inFlow : Bool) (c : Char) (after : Option Char) : Bool :=
  let special := isBreak c || "-?:,[]\x7b\x7d#&*!|>'\"%@` \t".toList.contains c
  !special || (!endsWord after && (c == '-' || (!inFlow && (c == '?' || c == ':'))))

/-- One token more, at the cursor. -/
def token? (s : Scan) : Option Scan := do
  let k := s.cursor
  let c ← k.peek
  let separator := k.column == 0 && k.atSeparator
  if c == '%' && k.column == 0 then
    let s ← s.endBlocks?
    let (d, k) ← directive? s.cursor
    return ({ s with cursor := k }).push (.directive d)
  else if c == '-' && separator then return (← s.endBlocks?).take 3 .documentStart
  else if c == '.' && separator then return (← s.endBlocks?).take 3 .documentEnd
  else if c == '[' then s.openFlow? .flowSequenceStart
  else if c == '\x7b' then s.openFlow? .flowMappingStart
  else if c == ']' then s.closeFlow? .flowSequenceEnd
  else if c == '\x7d' then s.closeFlow? .flowMappingEnd
  else if c == ',' then
    let s ← ({ s with keyAllowed := true }).dropCandidate?
    return s.take 1 .flowEntry
  else if c == '-' && endsWord (k.ahead 1) then s.entry?
  else if c == '?' && (s.inFlow || endsWord (k.ahead 1)) then s.key?
  else if c == ':' && (s.inFlow || endsWord (k.ahead 1)) then s.value?
  else if c == '*' then
    s.keyToken? fun k => (anchorName? k).map fun r => (.alias r.1, r.2)
  else if c == '&' then
    s.keyToken? fun k => (anchorName? k).map fun r => (.anchor r.1, r.2)
  else if c == '!' then s.keyToken? tag?
  else if (c == '|' || c == '>') && !s.inFlow then
    let s ← ({ s with keyAllowed := true }).dropCandidate?
    let (t, k) ← block? s.indent k
    return ({ s with cursor := k }).push (.scalar false t)
  else if c == '\'' || c == '"' then
    s.keyToken? fun k => (quoted? k).map fun r => (.scalar false r.1, r.2)
  else if startsPlain s.inFlow c (k.ahead 1) then
    let s ← s.saveCandidate?
    let (t, broken, k) := plain s.inFlow s.indent k
    return ({ s with cursor := k, keyAllowed := broken }).push (.scalar true t)
  else none

/-- All tokens from the cursor on. -/
def run : (fuel : Nat) → Scan → Option (List Token)
  | 0, _ => none
  | fuel + 1, s => do
    let s := toToken (s.cursor.rest.length + 1) s
    let s ← s.dropStale?
    let s := s.unwindTo s.cursor.column
    if s.cursor.rest.isEmpty then
      let s ← s.endBlocks?
      return s.tokens.reverse
    else run fuel (← s.token?)

end Scan

/-- The tokens of a document; none if it is not well formed. A byte order mark at its start is
passed over. -/
def tokens? (t : Text) : Option (List Token) :=
  if t.all isAllowed then
    let k : Cursor := { rest := t }
    let k := if k.peek == some '\ufeff' then k.next else k
    Scan.run (t.length + 2) { cursor := k }
  else none

end VerilogIndex.Yaml
