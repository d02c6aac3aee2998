import VerilogIndex.Pattern.Error
import VerilogIndex.Text.Label
import VerilogIndex.Text.Utf8

/-!
# Escapes and sets

A pattern is read symbol by symbol. Beside what is left of it, the reader keeps what it has learned
of the groups and the flags. A backslash escapes the character after it, outside of sets and, in a
slightly different way, inside of them.
-/

namespace VerilogIndex.Pattern

/-- A symbol of a pattern: a character that stands alone, or one after a backslash. -/
inductive Symbol where
  | plain (c : Char)
  | escape (c : Char)
  /-- A backslash at the end of the pattern. -/
  | dangling
  deriving DecidableEq, Repr

def Symbol.text : Symbol → Text
  | .plain c => [c]
  | .escape c => ['\\', c]
  | .dangling => ['\\']

def symbols : Text → List Symbol
  | [] => []
  | ['\\'] => [.dangling]
  | '\\' :: c :: r => .escape c :: symbols r
  | c :: r => .plain c :: symbols r

/-- The least and the most characters that a pattern matches. -/
structure Width where
  least : Nat
  most : Nat
  deriving DecidableEq, Repr

/-- How far a pattern has been read. -/
structure State where
  /-- The pattern is for texts, not for bytes. -/
  isText : Bool
  /-- The offset of the next symbol. -/
  offset : Nat := 0
  left : List Symbol
  /-- The flags for the whole pattern. -/
  flags : List Flag := []
  /-- The widths of the groups from the first one on; none for a group that is still open. -/
  widths : List (Option Width) := []
  names : List (Text × Nat) := []
  /-- The first group that was not there before the look behind. -/
  behind : Option Nat := none
  /-- Groups that choices ask for, with the offsets of their numbers. -/
  asked : List (Nat × Nat) := []

abbrev Reading := StateT State (Except Error)

/-- An error `back` characters before the next symbol. -/
def fail (fault : Fault) (back : Nat := 0) : Reading α := do
  throw ⟨fault, some ((← get).offset - back)⟩

def failAt (offset : Nat) (fault : Fault) : Reading α := throw ⟨fault, some offset⟩

/-- Fails if the symbol now next is a backslash that escapes nothing. -/
def checkNext : Reading Unit := do
  match (← get).left with
  | .dangling :: _ => fail .danglingEscape
  | _ => return ()

def peek : Reading (Option Symbol) := return (← get).left.head?

def next : Reading (Option Symbol) := do
  match (← get).left with
  | [] => return none
  | symbol :: left =>
    modify fun s => { s with offset := s.offset + symbol.text.length, left }
    checkNext
    return some symbol

def pass (c : Char) : Reading Bool := do
  if (← peek) = some (.plain c) then
    let _ ← next
    return true
  else return false

def takeWhile (accepts : Char → Bool) : (n : Nat) → Reading Text
  | 0 => return []
  | n + 1 => do
    match ← peek with
    | some (.plain c) =>
      if accepts c then
        let _ ← next
        return c :: (← takeWhile accepts n)
      else return []
    | _ => return []

/-- The symbols up to a terminator; `what` says what they are. -/
def takeUntil (terminator : Char) (what : Text) : (fuel : Nat) → (taken : Text) → Reading Text
  | 0, _ => fail (.missing what)
  | fuel + 1, taken => do
    match ← next with
    | none =>
      if taken.isEmpty then fail (.missing what)
      else fail (.unclosedName terminator) taken.length
    | some symbol =>
      if symbol = .plain terminator then
        if taken.isEmpty then fail (.missing what) 1 else return taken
      else takeUntil terminator what fuel (taken ++ symbol.text)

def nameUntil (terminator : Char) (what : Text) : Reading Text := do
  takeUntil terminator what ((← get).left.length + 1) []

/-! ## Characters -/

/-- The control character an escaped letter stands for. -/
def controlOf? : Char → Option Char
  | 'a' => some '\x07'
  | 'f' => some '\x0c'
  | 'n' => some '\n'
  | 'r' => some '\r'
  | 't' => some '\t'
  | 'v' => some '\x0b'
  | '\\' => some '\\'
  | _ => none

/-- The class an escaped letter stands for, a capital for all but it. -/
def classOf? : Char → Option SetMember
  | 'd' => some (.ofClass .decimal false)
  | 'D' => some (.ofClass .decimal true)
  | 's' => some (.ofClass .blank false)
  | 'S' => some (.ofClass .blank true)
  | 'w' => some (.ofClass .word false)
  | 'W' => some (.ofClass .word true)
  | _ => none

def digitNames : List Text :=
  ["ZERO", "ONE", "TWO", "THREE", "FOUR", "FIVE", "SIX", "SEVEN", "EIGHT", "NINE"]

def signNames : List (String × Char) :=
  [("SPACE", ' '), ("EXCLAMATION MARK", '!'), ("QUOTATION MARK", '"'), ("NUMBER SIGN", '#'),
   ("DOLLAR SIGN", '$'), ("PERCENT SIGN", '%'), ("AMPERSAND", '&'), ("APOSTROPHE", '\''),
   ("LEFT PARENTHESIS", '('), ("RIGHT PARENTHESIS", ')'), ("ASTERISK", '*'), ("PLUS SIGN", '+'),
   ("COMMA", ','), ("HYPHEN-MINUS", '-'), ("FULL STOP", '.'), ("SOLIDUS", '/'), ("COLON", ':'),
   ("SEMICOLON", ';'), ("LESS-THAN SIGN", '<'), ("EQUALS SIGN", '='), ("GREATER-THAN SIGN", '>'),
   ("QUESTION MARK", '?'), ("COMMERCIAL AT", '@'), ("LEFT SQUARE BRACKET", '['),
   ("REVERSE SOLIDUS", '\\'), ("RIGHT SQUARE BRACKET", ']'), ("CIRCUMFLEX ACCENT", '^'),
   ("LOW LINE", '_'), ("GRAVE ACCENT", '\x60'), ("LEFT CURLY BRACKET", '\x7b'),
   ("VERTICAL LINE", '|'), ("RIGHT CURLY BRACKET", '\x7d'), ("TILDE", '~')]

/-- The character of a name, in any case. Of all characters only those of ASCII are known. -/
def namedChar? (name : Text) : Option Char :=
  let name := name.map Char.toUpper
  let letter? := fun (t : Text) =>
    match t with
    | [c] => if c.isUpper then some c else none
    | _ => none
  (signNames.lookup (String.ofList name))
    <|> (do letter? (← Text.after? "LATIN CAPITAL LETTER " name))
    <|> (do return (← letter? (← Text.after? "LATIN SMALL LETTER " name)).toLower)
    <|> (do
      let n ← digitNames.idxOf? (← Text.after? "DIGIT " name)
      return Char.ofNat ('0'.toNat + n))

/-- The code point of a character that is named in braces after `\N`. -/
def namedCode : Reading Nat := do
  unless ← pass '\x7b' do fail (.missing ['\x7b'])
  let name ← nameUntil '\x7d' "character name"
  match namedChar? name with
  | some c => return c.toNat
  | none => fail (.undefinedCharacter name) (name.length + 4)

/-- The code point given by `digits` hexadecimal digits after the escaped letter `c`. -/
def hexCode (c : Char) (digits : Nat) : Reading Nat := do
  let t ← takeWhile Text.isHexDigit digits
  let escape : Text := ['\\', c] ++ t
  if t.length < digits then fail (.incompleteEscape escape) escape.length
  else if 0x110000 ≤ Text.valueIn 16 t then fail (.badEscape escape) escape.length
  else return Text.valueIn 16 t

/-- The code point that an escaped letter introduces; bytes have no letters for long codes. -/
def code? (c : Char) : Reading (Option Nat) := do
  let isText := (← get).isText
  if c = 'x' then return some (← hexCode c 2)
  else if c = 'u' && isText then return some (← hexCode c 4)
  else if c = 'U' && isText then return some (← hexCode c 8)
  else if c = 'N' && isText then return some (← namedCode)
  else return none

def octalCode (digits : Text) : Reading Nat := do
  if 255 < Text.valueIn 8 digits then fail (.octalEscape ('\\' :: digits)) (digits.length + 1)
  else return Text.valueIn 8 digits

/-! ## Sets -/

def setEscape (c : Char) : Reading SetMember := do
  if c = 'b' then return .one 8
  if let some d := controlOf? c then return .one d.toNat
  if let some m := classOf? c then return m
  if let some code ← code? c then return .one code
  if Text.isOctal c then return .one (← octalCode (c :: (← takeWhile Text.isOctal 2)))
  if c.isAlphanum then fail (.badEscape ['\\', c]) 2
  return .one c.toNat

def setSymbol : Symbol → Reading SetMember
  | .plain c => return .one c.toNat
  | .escape c => setEscape c
  | .dangling => fail .danglingEscape

/-- The members of a set that opened at offset `opened`, from the first symbol not yet read. -/
def setMembers (opened : Nat) : (fuel : Nat) → List SetMember → Reading (List SetMember)
  | 0, _ => failAt opened .unclosedSet
  | fuel + 1, members => do
    let some this ← next | failAt opened .unclosedSet
    if this = .plain ']' && !members.isEmpty then return members
    let first ← setSymbol this
    if ← pass '-' then
      let some that ← next | failAt opened .unclosedSet
      if that = .plain ']' then return members ++ [first, .one '-'.toNat]
      let last ← setSymbol that
      -- the bounds are told as they stand, without the digits of a code
      let bad : Reading (List SetMember) :=
        fail (.badRange this.text that.text) (this.text.length + 1 + that.text.length)
      match first, last with
      | .one a, .one b =>
        if b < a then bad else setMembers opened fuel (members ++ [.range a b])
      | _, _ => bad
    else setMembers opened fuel (members ++ [first])

/-! ## Groups that are referred to -/

def State.isClosed (s : State) (number : Nat) : Bool :=
  0 < number && (s.widths.getD (number - 1) none).isSome

/-- A group that is referred to from a look behind is closed, and was so before it. -/
def checkBehind (number : Nat) : Reading Unit := do
  let s ← get
  if let some first := s.behind then
    unless s.isClosed number do fail .openGroup
    if first ≤ number then fail .groupBehind

/-- What the group of this number has matched once more; an error lies `back` characters back. -/
def reference (number back : Nat) : Reading Pattern := do
  unless (← get).isClosed number do fail .openGroup back
  checkBehind number
  return .again number

/-- The character of a code point; what is no character matches nothing. -/
def ofCode (code : Nat) : Pattern :=
  if code.isValidChar then .one (Char.ofNat code) else .set false [.one code]

/-- The pattern that digits stand for: a character in octal, or a group. -/
def digitsPattern (c : Char) : Reading Pattern := do
  -- three octal digits are a character, and one or two digits are a group
  let t ← takeWhile Char.isDigit 1
  let u ← if (c :: t).all Text.isOctal && !t.isEmpty then takeWhile Text.isOctal 1 else pure []
  let digits := c :: t ++ u
  if !u.isEmpty then return ofCode (← octalCode digits)
  let number := Text.valueIn 10 digits
  if number ≤ (← get).widths.length then reference number (digits.length + 1)
  else fail (.groupReference number) digits.length

def escapePattern (c : Char) : Reading Pattern := do
  if c = 'A' then return .anchor .textStart
  if c = 'Z' then return .anchor .textEnd
  if c = 'b' then return .anchor (.edge false)
  if c = 'B' then return .anchor (.edge true)
  if let some m := classOf? c then return .set false [m]
  if let some d := controlOf? c then return .one d
  if let some code ← code? c then return ofCode code
  if c = '0' then return ofCode (Text.valueIn 8 (← takeWhile Text.isOctal 2))
  if c.isDigit then return ← digitsPattern c
  if c.isAlpha then fail (.badEscape ['\\', c]) 2
  return .one c

end VerilogIndex.Pattern
