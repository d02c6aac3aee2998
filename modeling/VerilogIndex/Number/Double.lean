import VerilogIndex.Text.Basic

/-!
# Double-precision numbers

A finite double is `m · 2 ^ q` with a sign, where `m` has at most 53 bits and `q` is at least
-1074; unless `q` is -1074, `m` has exactly 53 bits. A ratio becomes the nearest double, the one
with the even `m` if two are equally near.
-/

namespace VerilogIndex

inductive Double where
  | finite (negative : Bool) (m : Nat) (q : Int)
  | infinite (negative : Bool)
  | nan
  deriving DecidableEq, Repr

namespace Double

/-- The quotient rounded to the nearest number, to the even one from halfway. -/
def roundDiv (n d : Nat) : Nat :=
  let k := n / d
  let twice := 2 * (n % d)
  if d < twice ∨ (twice = d ∧ k % 2 = 1) then k + 1 else k

/-- Numerator and denominator of `num / den / b ^ e`. -/
def shifted (b : Nat) (num den : Nat) (e : Int) : Nat × Nat :=
  if 0 ≤ e then (num, den * Nat.pow b e.toNat) else (num * Nat.pow b (-e).toNat, den)

def zero (negative : Bool) : Double := .finite negative 0 (-1074)

/-- The double nearest to `num / den`. -/
def ofRatio (negative : Bool) (num den : Nat) : Double :=
  if num = 0 then zero negative
  else
    let low := max ((num.log2 : Int) - den.log2 - 53) (-1074)
    let (n, d) := shifted 2 num den low
    let q := if Nat.pow 2 53 ≤ n / d then low + 1 else low
    let (n, d) := shifted 2 num den q
    let m := roundDiv n d
    let (m, q) := if m = Nat.pow 2 53 then (Nat.pow 2 52, q + 1) else (m, q)
    if 971 < q then .infinite negative else .finite negative m q

/-- The double nearest to `digits · 10 ^ exponent`. Exponents beyond the range of doubles are not
worked out. -/
def ofDecimal (negative : Bool) (digits : Nat) (exponent : Int) : Double :=
  let size : Int := (Nat.toDigits 10 digits).length
  if digits = 0 ∨ exponent + size < -400 then zero negative
  else if 400 < exponent + size then .infinite negative
  else
    let (num, den) := shifted 10 digits 1 (-exponent)
    ofRatio negative num den

/-- The digits at the start of a text, and the text after them. -/
def digitsOf (t : Text) : Text × Text := (t.takeWhile Char.isDigit, t.dropWhile Char.isDigit)

def natOf (digits : Text) : Nat := digits.foldl (fun n c => n * 10 + (c.toNat - '0'.toNat)) 0

/-- The number in front of a text, with a sign if it has one. -/
def signOf : Text → Bool × Text
  | '-' :: t => (true, t)
  | '+' :: t => (false, t)
  | t => (false, t)

/-- The exponent that ends a number: nothing, or an `e` with an integer. -/
def exponentOf? : Text → Option Int
  | [] => some 0
  | c :: t =>
    let (negative, t) := signOf t
    if (c == 'e' || c == 'E') && !t.isEmpty && t.all Char.isDigit then
      some (if negative then -(natOf t : Int) else natOf t)
    else none

/-- The double that a decimal number writes: a sign, digits around a point, an exponent. -/
def ofText? (t : Text) : Option Double := do
  let (negative, t) := signOf t
  let (whole, t) := digitsOf t
  let (part, t) := match t with
    | '.' :: t => digitsOf t
    | t => ([], t)
  let exponent ← exponentOf? t
  if whole.isEmpty && part.isEmpty then none
  else some (ofDecimal negative (natOf (whole ++ part)) (exponent - part.length))

/-- The number is below zero; no zero is. -/
def isNegative : Double → Bool
  | .finite negative m _ => negative && m != 0
  | .infinite negative => negative
  | .nan => false

def isZero : Double → Bool
  | .finite _ m _ => m == 0
  | _ => false

/-- A finite double as a sign and a ratio. -/
def ratio (m : Nat) (q : Int) : Nat × Nat := shifted 2 m 1 (-q)

/-- The product, rounded. -/
def mul : Double → Double → Double
  | .finite s m q, .finite s' m' q' =>
    let (n, d) := ratio m q
    let (n', d') := ratio m' q'
    ofRatio (s != s') (n * n') (d * d')
  | .nan, _ | _, .nan => .nan
  | x, y =>
    if x.isZero || y.isZero then .nan
    else .infinite (x.isNegative != y.isNegative)

/-- The sum, rounded. -/
def add : Double → Double → Double
  | .finite s m q, .finite s' m' q' =>
    let (n, d) := ratio m q
    let (n', d') := ratio m' q'
    let a := n * d'
    let b := n' * d
    if s = s' then ofRatio s (a + b) (d * d')
    else if a = b then zero false
    else if b < a then ofRatio s (a - b) (d * d')
    else ofRatio s' (b - a) (d * d')
  | .infinite s, .infinite s' => if s = s' then .infinite s else .nan
  | .nan, _ | _, .nan => .nan
  | .infinite s, _ | _, .infinite s => .infinite s

end Double

end VerilogIndex
