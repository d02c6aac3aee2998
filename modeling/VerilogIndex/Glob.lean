import VerilogIndex.Text.Basic

/-!
# File name patterns

In a file name pattern a star stands for any characters, a question mark for one, and a set in
square brackets for one of its members, or for one of the others after an exclamation mark. An
opening bracket that is not closed stands for itself. Case matters.
-/

namespace VerilogIndex.Glob

inductive Piece where
  | star
  | any
  | one (c : Char)
  | set (negated : Bool) (chars : List Char) (ranges : List (Char × Char))
  deriving DecidableEq, Repr

/-- The hyphens of a set that make ranges cut it into chunks: none is the first character, and two
of them have two characters between them at least. `wait` characters are passed before the next
such hyphen. -/
def chunksFrom : (wait : Nat) → (begun : Text) → Text → List Text
  | _, begun, [] => [begun.reverse]
  | 0, begun, c :: r =>
    if c = '-' then begun.reverse :: chunksFrom 2 [] r else chunksFrom 0 (c :: begun) r
  | wait + 1, begun, c :: r => chunksFrom wait (c :: begun) r

/-- The chunks of a set; a hyphen at its end stands for itself. -/
def chunks (lead : Nat) (t : Text) : List Text :=
  let cs := chunksFrom lead [] t
  match cs.reverse with
  | [] :: last :: before => (before.reverse) ++ [last ++ ['-']]
  | _ => cs

/-- Joins two chunks whose range would be empty, without its ends. -/
def dropEmptyRange (c : Text) (cs : List Text) : List Text :=
  match cs, c.getLast? with
  | (d :: ds) :: rest, some last =>
    if d.toNat < last.toNat then (c.dropLast ++ ds) :: rest else c :: cs
  | _, _ => c :: cs

/-- The ranges between neighbouring chunks. -/
def rangesOf : List Text → List (Char × Char)
  | c :: d :: cs =>
    match c.getLast?, d.head? with
    | some a, some b => (a, b) :: rangesOf (d :: cs)
    | _, _ => rangesOf (d :: cs)
  | _ => []

/-- The set whose text, between the brackets, is `t`. -/
def setOf (t : Text) : Piece :=
  let lead := if t.head? == some '!' then 2 else 1
  match (chunks lead t).foldr dropEmptyRange [] with
  | ('!' :: c) :: cs => .set true (c :: cs).flatten (rangesOf (c :: cs))
  | cs => .set false cs.flatten (rangesOf cs)

/-- The text of a set from after its opening bracket, and the text after its closing one, which is
not the first character of the set. -/
def closeSet? (t : Text) : Option (Text × Text) :=
  let lead := if t.head? == some '!' then 1 else 0
  let lead := if (t.drop lead).head? == some ']' then lead + 1 else lead
  let inner := (t.drop lead).takeWhile (· != ']')
  match (t.drop lead).dropWhile (· != ']') with
  | [] => none
  | _ :: rest => some (t.take lead ++ inner, rest)

/-- The pieces of a pattern, of which `skip` more characters belong to a set. -/
def piecesFrom : (skip : Nat) → Text → List Piece
  | _, [] => []
  | skip + 1, _ :: r => piecesFrom skip r
  | 0, c :: r =>
    if c = '*' then .star :: piecesFrom 0 r
    else if c = '?' then .any :: piecesFrom 0 r
    else if c = '[' then
      match closeSet? r with
      | none => .one c :: piecesFrom 0 r
      | some (t, _) => setOf t :: piecesFrom (t.length + 1) r
    else .one c :: piecesFrom 0 r

def pieces (pattern : Text) : List Piece := piecesFrom 0 pattern

/-- The piece stands for the character. -/
def Piece.holds (c : Char) : Piece → Bool
  | .star => false
  | .any => true
  | .one d => c == d
  | .set negated chars ranges =>
    (chars.contains c || ranges.any fun r => r.1.toNat ≤ c.toNat && c.toNat ≤ r.2.toNat) != negated

/-- The text and all its ends. -/
def endsOf : Text → List Text
  | [] => [[]]
  | c :: r => (c :: r) :: endsOf r

/-- The pieces stand for the whole text. -/
def matchPieces : List Piece → Text → Bool
  | [], t => t.isEmpty
  | .star :: ps, t => (endsOf t).any (matchPieces ps)
  | _ :: _, [] => false
  | p :: ps, c :: r => p.holds c && matchPieces ps r

/-- The pattern stands for the whole name. -/
def accepts (pattern name : Text) : Bool := matchPieces (pieces pattern) name

end VerilogIndex.Glob
