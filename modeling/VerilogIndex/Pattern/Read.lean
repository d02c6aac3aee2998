import VerilogIndex.Pattern.Scan
import VerilogIndex.Text.Blank

/-!
# Reading patterns

A pattern is written as alternatives of sequences: characters, escapes, sets, groups of several
kinds and the signs that repeat what stands before them. The reader keeps a stack of open groups
and takes one symbol or more at a time, so each round leaves fewer symbols.
-/

namespace VerilogIndex.Pattern

/-! ## Widths -/

/-- Widths from here on count as this one. -/
def maxWidth : Nat := 18446744073709551616

/-- The first number of repetitions that is too large. -/
def maxRepeat : Nat := 4294967295

def Width.of (least most : Nat) : Width := ⟨min least maxWidth, min most maxWidth⟩

/-- The width of a pattern, where the groups have these widths. -/
def width (groups : List (Option Width)) : Pattern → Width
  | .empty | .anchor _ | .look .. => ⟨0, 0⟩
  | .one _ | .any | .set .. => ⟨1, 1⟩
  | .seq p q =>
    let v := width groups p
    let w := width groups q
    .of (v.least + w.least) (v.most + w.most)
  | .alt p q | .choice _ p q =>
    let v := width groups p
    let w := width groups q
    ⟨min v.least w.least, max v.most w.most⟩
  | .group p | .capture _ p | .scoped _ _ p | .atomic p => width groups p
  | .again n => (groups.getD (n - 1) none).getD ⟨0, 0⟩
  | .times _ least most p =>
    let w := width groups p
    .of (w.least * least) (most.elim (if w.most = 0 then 0 else maxWidth) (w.most * ·))

/-- What is wrong with a pattern that was read to its end: a look behind has one width, and a
template repeats nothing. -/
def flaw? (groups : List (Option Width)) (template : Bool) : Pattern → Option Fault
  | .seq p q | .alt p q | .choice _ p q =>
    (flaw? groups template p).orElse fun _ => flaw? groups template q
  | .group p | .capture _ p | .scoped _ _ p | .atomic p => flaw? groups template p
  | .look none _ p => flaw? groups template p
  | .look (some _) _ p =>
    let w := width groups p
    if maxRepeat < w.least then some .tooFarBehind
    else if w.least ≠ w.most then some .behindWidth
    else flaw? groups template p
  | .times eagerness _ _ p =>
    if template then some (.templateRepeat eagerness) else flaw? groups template p
  | _ => none

/-! ## Flags -/

def flagOf? : Char → Option Flag
  | 'a' => some .ascii
  | 'i' => some .ignoreCase
  | 'L' => some .locale
  | 'm' => some .multiline
  | 's' => some .dotAll
  | 't' => some .template
  | 'u' => some .unicode
  | 'x' => some .verbose
  | _ => none

/-- The next flag, or the sign that ends the flags; `missing` says what there should be. -/
def flagOrSign (signs missing : Text) : Reading (Flag ⊕ Char) := do
  match ← next with
  | none => fail (.missing missing)
  | some (.plain c) =>
    if signs.contains c then return .inr c
    match flagOf? c with
    | some f => return .inl f
    | none => fail (if Text.isLetter c then .unknownFlag else .missing missing) 1
  | some symbol => fail (.missing missing) symbol.text.length

/-- The flags to be turned on, from after the flag `f`, and the sign that ends them. -/
def flagsOn : (fuel : Nat) → (on : List Flag) → (f : Flag) → Reading (List Flag × Char)
  | 0, _, _ => fail (.missing "-, : or )")
  | fuel + 1, on, f => do
    let isText := (← get).isText
    if f = .locale && isText then
      fail (.badFlags "cannot use 'L' flag with a str pattern")
    if f = .unicode && !isText then
      fail (.badFlags "cannot use 'u' flag with a bytes pattern")
    if f.isKind && on.any fun g => g.isKind && g != f then
      fail (.badFlags "flags 'a', 'u' and 'L' are incompatible")
    match ← flagOrSign ")-:" "-, : or )" with
    | .inl g => flagsOn fuel (on ++ [f]) g
    | .inr sign => return (on ++ [f], sign)

/-- The flags to be turned off, from after the flag `f`. -/
def flagsOff : (fuel : Nat) → (off : List Flag) → (f : Flag) → Reading (List Flag)
  | 0, _, _ => fail (.missing ":")
  | fuel + 1, off, f => do
    if f.isKind then fail (.badFlags "cannot turn off flags 'a', 'u' and 'L'")
    match ← flagOrSign ":" ":" with
    | .inl g => flagsOff fuel (off ++ [f]) g
    | .inr _ => return off ++ [f]

/-- The flags turned on and off for a group, from after their first sign; none if they are for the
whole pattern. -/
def groupFlags (first : Option Flag) : Reading (Option (List Flag × List Flag)) := do
  let fuel := (← get).left.length + 1
  let (on, sign) ← match first with
    | some f => flagsOn fuel [] f
    | none => pure ([], '-')
  if sign = ')' then
    modify fun s => { s with flags := s.flags ++ on }
    return none
  if on.contains .template then fail (.badFlags "cannot turn on global flag") 1
  let off ← if sign = '-' then
      match ← flagOrSign [] "flag" with
      | .inl f => flagsOff fuel [] f
      | .inr _ => pure []
    else pure []
  if off.contains .template then fail (.badFlags "cannot turn off global flag") 1
  if on.any off.contains then fail (.badFlags "flag turned on and off") 1
  return some (on, off)

/-! ## Groups -/

/-- What a group that is being read will be. -/
inductive Kind where
  | whole
  | plain
  | numbered (number : Nat)
  | scoped (on off : List Flag)
  | atomic
  | ahead (negated : Bool)
  /-- A look behind, maybe inside of another one. -/
  | behind (negated inner : Bool)
  | choice (number : Nat)
  deriving DecidableEq, Repr

/-- A group that is being read: where it opened, whether blanks are left out in it, its finished
alternatives and the items of the current one, each back to front. -/
structure Frame where
  kind : Kind
  opened : Nat
  verbose : Bool := false
  branches : List Pattern := []
  items : List Pattern := []
  deriving DecidableEq, Repr

namespace Frame

def sequence (f : Frame) : Pattern :=
  match f.items with
  | [] => .empty
  | last :: before => before.foldl (fun p q => .seq q p) last

def pattern (f : Frame) : Pattern := f.branches.foldl (fun p q => .alt q p) f.sequence

def push (f : Frame) (p : Pattern) : Frame := { f with items := p :: f.items }

def branch (f : Frame) : Frame := { f with branches := f.sequence :: f.branches, items := [] }

def repeatLast (f : Frame) (eagerness : Eagerness) (least : Nat) (most : Option Nat) : Frame :=
  match f.items with
  | [] => f
  | p :: before => { f with items := .times eagerness least most p :: before }

def close (f : Frame) : Reading Pattern := do
  let p := f.pattern
  let w := p.width (← get).widths
  match f.kind with
  | .whole => return p
  | .plain => return .group p
  | .numbered n =>
    modify fun s => { s with widths := s.widths.set (n - 1) (some w) }
    return .capture n p
  | .scoped on off => return .scoped on off p
  | .atomic => return .atomic p
  | .ahead negated => return .look none negated p
  | .behind negated inner =>
    unless inner do modify fun s => { s with behind := none }
    return .look (some w.least) negated p
  | .choice n =>
    match f.branches with
    | [] => return .choice n f.sequence .empty
    | yes :: _ => return .choice n yes f.sequence

end Frame

/-- A new group, with its name if it has one. -/
def newGroup (name : Option Text) : Reading Kind := do
  let s ← get
  let number := s.widths.length + 1
  if let some t := name then
    if let some old := s.names.lookup t then
      fail (.groupRedefined t number old) (t.length + 1)
    modify fun s => { s with names := (t, number) :: s.names }
  modify fun s => { s with widths := s.widths ++ [none] }
  return .numbered number

def groupName (terminator : Char) : Reading Text := do
  let name ← nameUntil terminator "group name"
  unless Text.isLabel name do fail (.badGroupName name) (name.length + 1)
  return name

/-- A number in decimal digits of any script; single underscores may stand between them. -/
def decimal? (t : Text) : Option Nat :=
  let parts := Text.splitAll '_' t
  if parts.all fun part => !part.isEmpty && part.all Text.isDecimal then
    some (parts.flatten.foldl (fun n c => n * 10 + Text.decimalValue c) 0)
  else none

/-- A number with blanks around it and maybe a sign in front; it is not below zero. -/
def count? (t : Text) : Option Nat :=
  match Text.trim t with
  | '-' :: r => (decimal? r).filter (· = 0)
  | '+' :: r => decimal? r
  | r => decimal? r

/-- The first number that no group can have. -/
def maxGroups : Nat := 1073741823

/-- The group that a choice asks for, by name or number, up to the closing parenthesis. -/
def askedGroup : Reading Nat := do
  let name ← nameUntil ')' "group name"
  let back := name.length + 1
  let s ← get
  if Text.isLabel name then
    let some number := s.names.lookup name | fail (.unknownGroupName name) back
    return number
  let some number := count? name | fail (.badGroupName name) back
  if number = 0 then fail .groupNumber back
  if maxGroups ≤ number then fail (.groupReference number) back
  if (s.asked.lookup number).isNone then
    modify fun s => { s with asked := s.asked ++ [(number, s.offset - back)] }
  return number

def passComment (opened : Nat) : (fuel : Nat) → Reading Unit
  | 0 => failAt opened .unclosedComment
  | fuel + 1 => do
    match ← next with
    | none => failAt opened .unclosedComment
    | some symbol => if symbol = .plain ')' then return () else passComment opened fuel

/-- What opens at an offset in a frame: another frame, or something that is in the frame already
when it has been read. -/
def openGroup (f : Frame) (opened : Nat) : Reading (Frame × Option Frame) := do
  let inner := fun (kind : Kind) => (f, some { kind, opened, verbose := f.verbose : Frame })
  unless ← pass '?' do return inner (← newGroup none)
  let some mark ← next | fail .unexpectedEnd
  match mark with
  | .plain ':' => return inner .plain
  | .plain '>' => return inner .atomic
  | .plain '=' => return inner (.ahead false)
  | .plain '!' => return inner (.ahead true)
  | .plain '<' =>
    let some sign ← next | fail .unexpectedEnd
    unless sign = .plain '=' || sign = .plain '!' do
      fail (.unknownExtension ('<' :: sign.text)) (sign.text.length + 2)
    let s ← get
    if s.behind.isNone then
      modify fun s => { s with behind := some (s.widths.length + 1) }
    return inner (.behind (sign = .plain '!') s.behind.isSome)
  | .plain '#' =>
    passComment opened ((← get).left.length + 1)
    return (f, none)
  | .plain '(' =>
    let number ← askedGroup
    checkBehind number
    return inner (.choice number)
  | .plain 'P' =>
    if ← pass '<' then
      return inner (← newGroup (some (← groupName '>')))
    if ← pass '=' then
      let name ← groupName ')'
      let some number := (← get).names.lookup name
        | fail (.unknownGroupName name) (name.length + 1)
      return (f.push (← reference number (name.length + 1)), none)
    let some sign ← next | fail .unexpectedEnd
    fail (.unknownExtension ('P' :: sign.text)) (sign.text.length + 2)
  | .plain c =>
    let flag := flagOf? c
    if c != '-' && flag.isNone then fail (.unknownExtension [c]) 2
    match ← groupFlags flag with
    | some (on, off) =>
      let verbose := (f.verbose || on.contains .verbose) && !off.contains .verbose
      return (f, some { kind := .scoped on off, opened, verbose })
    | none =>
      unless f.kind = .whole && f.branches.isEmpty && f.items.isEmpty do
        failAt opened .lateFlags
      return ({ f with verbose := (← get).flags.contains .verbose }, none)
  | symbol => fail (.unknownExtension symbol.text) (symbol.text.length + 1)

/-! ## Repetitions -/

/-- The bounds of a repetition in braces, from after the opening brace; none if they are no
bounds, and the brace stands for itself. -/
def bounds? : Reading (Option (Nat × Option Nat)) := do
  let many := (← get).left.length
  let least ← takeWhile Char.isDigit many
  let most ← if ← pass ',' then takeWhile Char.isDigit many else pure least
  if ← pass '\x7d' then
    return some (Text.valueIn 10 least,
      if most.isEmpty then none else some (Text.valueIn 10 most))
  else return none

/-- The repetition a sign asks for; none for a brace that stands for itself. -/
def repetition? (sign : Char) : Reading (Option (Nat × Option Nat)) := do
  match sign with
  | '?' => return some (0, some 1)
  | '*' => return some (0, none)
  | '+' => return some (1, none)
  | _ =>
    let s ← get
    if (← peek) = some (.plain '\x7d') then return none
    match ← bounds? with
    | none =>
      -- what follows the brace is read anew
      modify fun _ => s
      return none
    | some (least, most) =>
      if maxRepeat ≤ least || most.any (maxRepeat ≤ ·) then throw ⟨.repeatCount, none⟩
      if most.any (· < least) then failAt s.offset .repeatBounds
      return some (least, most)

def eagerness : Reading Eagerness := do
  if ← pass '?' then return .lazy
  if ← pass '+' then return .possessive
  return .greedy

/-- There is something to repeat at the end of the items, and it is not repeated yet. -/
def checkRepeat (items : List Pattern) (mark : Nat) : Reading Unit :=
  match items with
  | [] | .anchor _ :: _ => failAt mark .nothingToRepeat
  | .times .. :: _ => failAt mark .multipleRepeat
  | _ => return ()

/-! ## Patterns -/

def passLine : (fuel : Nat) → Reading Unit
  | 0 => return ()
  | fuel + 1 => do
    match ← next with
    | none => return ()
    | some symbol => if symbol = .plain '\n' then return () else passLine fuel

/-- A blank between the symbols of a pattern that may be laid out. -/
def isSpace (c : Char) : Bool := c == ' ' || ('\t' ≤ c && c ≤ '\r')

/-- The frame after a symbol that opens nothing; the symbol was at an offset. -/
def readSymbol (f : Frame) (offset : Nat) : Symbol → Reading Frame
  | .dangling => failAt offset .danglingEscape
  | .escape c => return f.push (← escapePattern c)
  | .plain '[' => do
    let negated ← pass '^'
    return f.push (.set negated (← setMembers offset ((← get).left.length + 1) []))
  | .plain '.' => return f.push .any
  | .plain '^' => return f.push (.anchor .lineStart)
  | .plain '$' => return f.push (.anchor .lineEnd)
  | .plain c => do
    if f.verbose && isSpace c then return f
    if f.verbose && c = '#' then
      passLine (← get).left.length
      return f
    if c = '*' || c = '+' || c = '?' || c = '\x7b' then
      if let some (least, most) ← repetition? c then
        checkRepeat f.items offset
        return f.repeatLast (← eagerness) least most
    return f.push (.one c)

/-- Reads on with the innermost open group and those around it, up to the end or a parenthesis that
closes nothing. -/
def readFrom : (fuel : Nat) → Frame → List Frame → Reading Pattern
  | 0, f, _ => failAt f.opened .unclosedGroup
  | fuel + 1, f, outer => do
    let offset := (← get).offset
    match ← peek, outer with
    -- whether something is left is told after the flags
    | none, [] | some (.plain ')'), [] => f.close
    | none, _ => failAt f.opened .unclosedGroup
    | some (.plain ')'), g :: outer =>
      let _ ← next
      readFrom fuel (g.push (← f.close)) outer
    | some (.plain '|'), _ =>
      if f.kind matches .choice _ && !f.branches.isEmpty then fail .choices
      let _ ← next
      readFrom fuel f.branch outer
    | some (.plain '('), _ =>
      let _ ← next
      match ← openGroup f offset with
      | (f, some g) => readFrom fuel g (f :: outer)
      | (f, none) => readFrom fuel f outer
    | some symbol, _ =>
      let _ ← next
      readFrom fuel (← readSymbol f offset symbol) outer

def checkFlags (s : State) : Except Error Unit :=
  let other := if s.isText then Flag.unicode else Flag.locale
  if s.flags.contains .ascii && s.flags.contains other then
    throw ⟨.flagConflict (if s.isText then "UNICODE" else "LOCALE"), none⟩
  else return ()

/-- The pattern that a text writes, for texts or for bytes. -/
def readAs (isText : Bool) (t : Text) : Except Error Pattern := do
  let start : State := { isText, left := symbols t }
  let reading := do
    checkNext
    readFrom (start.left.length + 1) { kind := .whole, opened := 0 } []
  let (p, s) ← reading.run start
  checkFlags s
  unless s.left.isEmpty do throw ⟨.unbalancedGroup, some s.offset⟩
  if let some (number, offset) := s.asked.find? fun e => s.widths.length < e.1 then
    throw ⟨.groupReference number, some offset⟩
  if let some fault := p.flaw? s.widths (s.flags.contains .template) then throw ⟨fault, none⟩
  return if s.flags.isEmpty then p else .scoped s.flags [] p

def read (t : Text) : Except Error Pattern := readAs true t

/-- What writes a pattern: a text, or bytes, whose pattern can be looked for in bytes only. -/
inductive Source where
  | text (t : Text)
  | bytes (bs : Text.Utf8.Bytes)
  deriving DecidableEq, Repr

namespace Source

/-- A byte stands for the character of its number. -/
def written : Source → Text
  | .text t => t
  | .bytes bs => bs.map fun b => Char.ofNat b.toNat

def read : Source → Except Error Pattern
  | .text t => Pattern.read t
  | .bytes bs => readAs false (bytes bs).written

/-- The message for an error; for bytes, in ASCII. -/
def message (s : Source) (e : Error) : Text :=
  match s with
  | .text t => e.message t
  | .bytes _ =>
    (e.message s.written).flatMap fun c =>
      if c.toNat < 0x80 then [c] else "\\x" ++ Text.hex 2 c.toNat

end Source

end VerilogIndex.Pattern
