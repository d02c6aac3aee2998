import VerilogIndex.Number.Shortest
import VerilogIndex.Text.Quoted
import VerilogIndex.Text.Utf8

/-!
# Values

The values that settings can have: scalars, lists, sets and maps in the order of their entries, and
pairs.
-/

namespace VerilogIndex

inductive Value where
  | null
  | bool (b : Bool)
  | int (n : Int)
  | double (x : Double)
  | text (t : Text)
  /-- A day or a moment, as it is told. -/
  | date (t : Text)
  | bytes (bs : Text.Utf8.Bytes)
  | list (xs : List Value)
  | set (xs : List Value)
  | map (entries : List (Value × Value))
  | pair (a b : Value)
  deriving Repr, BEq, Inhabited

namespace Value

/-- Bytes as they are told: those of ASCII as characters in quotes, the others by number. -/
def quotedBytes (bs : Text.Utf8.Bytes) : Text :=
  let q := Text.quoteFor (bs.map fun b => Char.ofNat b.toNat)
  let told := fun (b : UInt8) =>
    if b.toNat < 0x7F then Text.escapeChar q (Char.ofNat b.toNat) else "\\x" ++ Text.hex 2 b.toNat
  ['b', q] ++ bs.flatMap told ++ [q]

mutual

/-- The value inside of another one, where texts are quoted. -/
def inner : Value → Text
  | .null => "None"
  | .bool true => "True"
  | .bool false => "False"
  | .int n => Text.ofInt n
  | .double x => x.text
  | .text t => Text.quoted t
  | .date t => t
  | .bytes bs => quotedBytes bs
  | .list xs => "[" ++ Text.joinWith ", " (innerAll xs) ++ "]"
  | .set [] => "set()"
  | .set xs => ['\x7b'] ++ Text.joinWith ", " (innerAll xs) ++ ['\x7d']
  | .map entries => ['\x7b'] ++ Text.joinWith ", " (innerEntries entries) ++ ['\x7d']
  | .pair a b => "(" ++ inner a ++ ", " ++ inner b ++ ")"

def innerAll : List Value → List Text
  | [] => []
  | x :: xs => inner x :: innerAll xs

def innerEntries : List (Value × Value) → List Text
  | [] => []
  | (k, v) :: entries => (inner k ++ ": " ++ inner v) :: innerEntries entries

end

/-- The value as it is told: a text stands for itself. -/
def display : Value → Text
  | .text t => t
  | v => v.inner

/-- The name of the type on account of which the value cannot be looked up in a table. -/
def unhashable? : Value → Option Text
  | .list _ => some "list"
  | .set _ => some "set"
  | .map _ => some "dict"
  | .pair a b => (unhashable? a).orElse fun _ => unhashable? b
  | _ => none

/-- The value can be looked up in a table. -/
def isKey (v : Value) : Bool := v.unhashable?.isNone

/-- The number is a double's value. -/
def isDouble (n : Int) : Double → Bool
  | .finite negative m q =>
    let (num, den) := Double.ratio m q
    num == n.natAbs * den && (num == 0 || negative == decide (n < 0))
  | _ => false

/-- A truth value counts as the number zero or one. -/
def int? : Value → Option Int
  | .int n => some n
  | .bool b => some (if b then 1 else 0)
  | _ => none

/-- The value counts as true: anything but null, no, zero and what is empty. -/
def holds : Value → Bool
  | .null => false
  | .bool b => b
  | .int n => n != 0
  | .double x => !x.isZero
  | .text t => !t.isEmpty
  | .date _ | .pair .. => true
  | .bytes bs => !bs.isEmpty
  | .list xs | .set xs => !xs.isEmpty
  | .map entries => !entries.isEmpty

/-- Two keys of a table are the same: equal numbers are, whatever their kind. -/
def sameKey : Value → Value → Bool
  | .null, .null => true
  | .text s, .text t => s == t
  | .date s, .date t => s == t
  | .bytes s, .bytes t => s == t
  | .pair a b, .pair c d => sameKey a c && sameKey b d
  | .double x, .double y => x != .nan && (x == y || (x.isZero && y.isZero))
  | .double x, v => v.int?.any fun n => isDouble n x
  | v, .double x => v.int?.any fun n => isDouble n x
  | v, w => v.int?.isSome && v.int? == w.int?

end Value

end VerilogIndex
