import VerilogIndex.Text.Digit
import VerilogIndex.Text.Fold
import VerilogIndex.Text.Word

/-!
# Patterns

A pattern is looked for in a name. There may be several ways to match it, and they are tried in the
order in which the pattern prefers them: the first alternative before the second, and more
repetitions before fewer ones, or fewer before more. What comes after a part decides whether a way
to match the part will do, so the meaning of a part takes as an argument what is to be done after
it. Parts that have matched can be asked for again later on.
-/

namespace VerilogIndex

/-- What can be said about a part of a pattern as a whole. -/
inductive Flag where
  | ascii
  | ignoreCase
  | locale
  | multiline
  | dotAll
  | template
  | unicode
  | verbose
  deriving DecidableEq, Repr

namespace Flag

/-- The flag says which characters are letters; only one of these holds at a time. -/
def isKind : Flag → Bool
  | .ascii | .locale | .unicode => true
  | _ => false

/-- The flags that hold in a part where `on` holds besides and `off` does not. -/
def within (flags on off : List Flag) : List Flag :=
  let kept := if on.any isKind then flags.filter fun f => !f.isKind else flags
  (kept ++ on).filter fun f => !off.contains f

end Flag

inductive CharClass where
  | word
  | decimal
  | blank
  deriving DecidableEq, Repr

def CharClass.holds (flags : List Flag) (k : CharClass) (c : Char) : Bool :=
  if flags.contains .ascii then
    match k with
    | .word => c.isAlphanum || c == '_'
    | .decimal => c.isDigit
    | .blank => c == ' ' || ('\t' ≤ c && c ≤ '\r')
  else
    match k with
    | .word => Text.isWord c
    | .decimal => Text.isDecimal c
    | .blank => Text.isBlank c

/-- A character as it is compared with others. -/
def Flag.folded (flags : List Flag) (c : Char) : Char :=
  if flags.contains .ignoreCase then
    if flags.contains .ascii then c.toLower else Text.lowerChar c
  else c

/-- The pattern's character stands for the other one. -/
def Flag.agrees (flags : List Flag) (p c : Char) : Bool :=
  if flags.contains .ignoreCase && !flags.contains .ascii then
    Text.foldsTo p (Text.lowerChar c).toNat
  else Flag.folded flags p == Flag.folded flags c

/-- A member of a character set. Code points need not be those of characters. -/
inductive SetMember where
  | one (code : Nat)
  | range (first last : Nat)
  | ofClass (k : CharClass) (negated : Bool)
  deriving DecidableEq, Repr

def SetMember.holds (flags : List Flag) (c : Char) : SetMember → Bool
  | .one code => code.isValidChar && Flag.agrees flags (Char.ofNat code) c
  | .range first last =>
    (List.range (last + 1 - first)).any fun k =>
      (first + k).isValidChar && Flag.agrees flags (Char.ofNat (first + k)) c
  | .ofClass k negated => k.holds flags c != negated

inductive Anchor where
  /-- The start of the text or, with several lines, of a line. -/
  | lineStart
  | textStart
  /-- The end of the text, or a line feed that ends it; with several lines, any line feed. -/
  | lineEnd
  | textEnd
  /-- A word boundary, or, inverted, anywhere else; an empty text has neither. -/
  | edge (inverted : Bool)
  deriving DecidableEq, Repr

inductive Eagerness where
  | greedy
  | lazy
  /-- As often as possible, and what was found is not given back. -/
  | possessive
  deriving DecidableEq, Repr

inductive Pattern where
  | empty
  | one (c : Char)
  /-- Any character; a line feed only if the flags say so. -/
  | any
  | set (negated : Bool) (members : List SetMember)
  | anchor (a : Anchor)
  | seq (p q : Pattern)
  | alt (p q : Pattern)
  | group (p : Pattern)
  /-- A group with a number, which remembers what it has matched. -/
  | capture (number : Nat) (p : Pattern)
  | scoped (on off : List Flag) (p : Pattern)
  /-- The first way to match only. -/
  | atomic (p : Pattern)
  /-- What follows, or the characters so far back, do match or do not. -/
  | look (back : Option Nat) (negated : Bool) (p : Pattern)
  /-- The text of a group once more. -/
  | again (number : Nat)
  /-- One of two patterns, as a group has matched or not. -/
  | choice (number : Nat) (yes no : Pattern)
  | times (eagerness : Eagerness) (least : Nat) (most : Option Nat) (p : Pattern)
  deriving DecidableEq, Repr

namespace Pattern

/-- A spot in a text: the characters before it, the last one first, and those after it, with the
offsets at which groups were last entered and left. -/
structure Spot where
  before : Text
  after : Text
  entered : List (Nat × Nat) := []
  left : List (Nat × Nat) := []
  deriving DecidableEq, Repr

namespace Spot

def offset (s : Spot) : Nat := s.before.length

/-- The spot one character further if the character will do. -/
def pass (s : Spot) (accepts : Char → Bool) : Option Spot :=
  match s.after with
  | [] => none
  | c :: r => if accepts c then some { s with before := c :: s.before, after := r } else none

def passAll (same : Char → Char → Bool) : Spot → Text → Option Spot
  | s, [] => some s
  | s, c :: t => do (← s.pass (same c)).passAll same t

def back (s : Spot) : Nat → Option Spot
  | 0 => some s
  | n + 1 =>
    match s.before with
    | [] => none
    | c :: r => Spot.back { s with before := r, after := c :: s.after } n

def put (number offset : Nat) (l : List (Nat × Nat)) : List (Nat × Nat) :=
  (number, offset) :: l.filter fun e => e.1 != number

def enter (s : Spot) (number : Nat) : Spot := { s with entered := put number s.offset s.entered }

def leave (s : Spot) (number : Nat) : Spot := { s with left := put number s.offset s.left }

/-- What a group has matched. A group that was entered anew beyond its end has not matched. -/
def matched? (s : Spot) (number : Nat) : Option Text := do
  let first ← s.entered.lookup number
  let last ← s.left.lookup number
  if first ≤ last then some (((s.before.reverse ++ s.after).drop first).take (last - first))
  else none

def isAt (s : Spot) (flags : List Flag) : Anchor → Bool
  | .lineStart =>
    s.before.isEmpty || (flags.contains .multiline && s.before.head? == some '\n')
  | .textStart => s.before.isEmpty
  | .lineEnd =>
    s.after.isEmpty || s.after == ['\n']
      || (flags.contains .multiline && s.after.head? == some '\n')
  | .textEnd => s.after.isEmpty
  | .edge inverted =>
    let isWord := fun (t : Text) => t.head?.any (CharClass.word.holds flags)
    !(s.before.isEmpty && s.after.isEmpty) && (isWord s.before != isWord s.after) != inverted

end Spot

/-- A way to go on from a spot: where it ends at last, if it does. -/
abbrev Next := Spot → Option Spot

/-- `step` taken `least` times and then up to `more` times, then `next`. -/
def repeated (step : Spot → Next → Option Spot) (lazy : Bool) :
    (least more : Nat) → (last : Option Nat) → Spot → Next → Option Spot
  | least + 1, more, last, s, next =>
    step s fun t => repeated step lazy least more last t next
  | 0, 0, _, s, next => next s
  | 0, more + 1, last, s, next =>
    -- a repetition that has led nowhere is the last one
    if last = some s.offset then next s
    else
      let onceMore := fun (_ : Unit) =>
        step s fun t => repeated step lazy 0 more (some s.offset) t next
      if lazy then (next s).orElse onceMore else (onceMore ()).orElse fun _ => next s

/-- Matches a pattern from a spot on and goes on from where it ends, in the first way that succeeds.
Repetitions that go on consume a character each, so none needs more of them than there are. -/
def run : Pattern → List Flag → Spot → Next → Option Spot
  | .empty, _, s, next => next s
  | .one p, flags, s, next => s.pass (Flag.agrees flags p) >>= next
  | .any, flags, s, next => s.pass (fun c => flags.contains .dotAll || c != '\n') >>= next
  | .set negated members, flags, s, next =>
    s.pass (fun c => members.any (SetMember.holds flags c) != negated) >>= next
  | .anchor a, flags, s, next => if s.isAt flags a then next s else none
  | .seq p q, flags, s, next => run p flags s fun t => run q flags t next
  | .alt p q, flags, s, next => (run p flags s next).orElse fun _ => run q flags s next
  | .group p, flags, s, next => run p flags s next
  | .capture n p, flags, s, next => run p flags (s.enter n) fun t => next (t.leave n)
  | .scoped on off p, flags, s, next => run p (Flag.within flags on off) s next
  | .atomic p, flags, s, next => run p flags s some >>= next
  | .look back negated p, flags, s, next =>
    -- what groups have matched in a look is known after it, though the spot is the old one
    match (s.back (back.getD 0)).bind fun t => run p flags t some with
    | none => if negated then next s else none
    | some t => if negated then none else next { s with entered := t.entered, left := t.left }
  | .again n, flags, s, next => do
    let same := fun c d => Flag.folded flags c == Flag.folded flags d
    next (← s.passAll same (← s.matched? n))
  | .choice n yes no, flags, s, next =>
    if (s.matched? n).isSome then run yes flags s next else run no flags s next
  | .times eagerness least most p, flags, s, next =>
    let bound := s.after.length + 1
    let more := most.elim bound fun m => min (m - least) bound
    match eagerness with
    | .greedy => repeated (run p flags) false least more none s next
    | .lazy => repeated (run p flags) true least more none s next
    | .possessive =>
      -- neither a repetition nor their number is tried in another way later
      repeated (fun s next => run p flags s some >>= next) false least more none s some >>= next

def matchesFrom (p : Pattern) (flags : List Flag) : (before : Text) → (after : Text) → Bool
  | before, [] => (p.run flags ⟨before, [], [], []⟩ some).isSome
  | before, c :: r =>
    (p.run flags ⟨before, c :: r, [], []⟩ some).isSome || matchesFrom p flags (c :: before) r

/-- The pattern matches somewhere in the text, apart from case. -/
def matchesIn (p : Pattern) (t : Text) : Bool := matchesFrom p [.ignoreCase, .unicode] [] t

end Pattern

end VerilogIndex
