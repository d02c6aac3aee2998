import VerilogIndex.Number.Double

/-!
# Shortest decimals

A double is written with the fewest decimal digits that read back as it, and with those nearest to
it among as many. Small and moderate exponents are written out, others with an `e`.
-/

namespace VerilogIndex.Double

/-- The greatest `p` with `10 ^ p ≤ num / den`, for a ratio above zero. -/
def decimalExponent (num den : Nat) : Int :=
  let p : Int := (Nat.toDigits 10 num).length - (Nat.toDigits 10 den).length
  let (n, d) := shifted 10 num den p
  if d ≤ n then p else p - 1

/-- Digits on the grid of `10 ^ grid` that read back as the double, the nearer of two. -/
def digitsOnGrid? (m : Nat) (q : Int) (num den : Nat) (grid : Int) : Option Nat :=
  let (n, d) := shifted 10 num den grid
  let k := n / d
  let readsBack := fun digits => ofDecimal false digits grid == .finite false m q
  let closer := if 2 * (n % d) ≤ d then k else k + 1
  let other := if closer = k then k + 1 else k
  if readsBack closer then some closer else if readsBack other then some other else none

/-- Digits and exponent of the shortest decimal for `m · 2 ^ q`, not zero. -/
def shortest (m : Nat) (q : Int) : Nat × Int :=
  let (num, den) := ratio m q
  let p := decimalExponent num den
  let found := (List.range 17).findSome? fun (n : Nat) =>
    let grid := p - n
    (digitsOnGrid? m q num den grid).map fun digits => (digits, grid)
  found.getD (num, 0)

/-- How decimals are laid out. -/
structure Layout where
  /-- The least exponent that is written out. -/
  least : Int
  /-- The first exponent that is not written out any more. -/
  limit : Int
  /-- The fewest digits of an exponent. -/
  exponentDigits : Nat

/-- Exponents from -4 to 15 are written out; others have a sign and two digits or more. -/
def layout : Layout := ⟨-4, 16, 2⟩

/-- The number `0.digits · 10 ^ point`, laid out. -/
def layOut (l : Layout) (digits : Text) (point : Int) : Text :=
  let size : Int := digits.length
  if l.least ≤ point - 1 ∧ point - 1 < l.limit then
    if point ≤ 0 then "0." ++ List.replicate (-point).toNat '0' ++ digits
    else if size ≤ point then digits ++ List.replicate (point - size).toNat '0' ++ ".0"
    else digits.take point.toNat ++ "." ++ digits.drop point.toNat
  else
    let first := digits.take 1
    let more := digits.drop 1
    let e := point - 1
    let exponent := Text.ofNat e.natAbs
    first ++ (if more.isEmpty then [] else '.' :: more) ++ "e" ++ (if e < 0 then "-" else "+")
      ++ List.replicate (l.exponentDigits - exponent.length) '0' ++ exponent

/-- The double in decimal. -/
def text : Double → Text
  | .nan => "nan"
  | .infinite negative => if negative then "-inf" else "inf"
  | .finite negative m q =>
    let sign : Text := if negative then "-" else []
    if m = 0 then sign ++ "0.0"
    else
      let (digits, grid) := shortest m q
      let t := Text.ofNat digits
      let kept := (t.reverse.dropWhile (· == '0')).reverse
      sign ++ layOut layout kept (t.length + grid)

end VerilogIndex.Double
