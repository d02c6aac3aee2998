import VerilogIndex.Value
import VerilogIndex.Yaml.Scalar

/-!
# Types of scalars

What a plain scalar is follows from its text: nothing, a truth value, a number in one of several
notations, a day or a moment, one of two marks for keys, or else a text. Bytes are told by a tag
only.
-/

namespace VerilogIndex.Yaml

inductive ScalarType where
  | null
  | bool
  | int
  | float
  | timestamp
  /-- The key under which other mappings are merged. -/
  | merge
  /-- The key of the default value. -/
  | default
  | binary
  | text
  deriving DecidableEq, Repr

def nullWords : List Text := ["~", "null", "Null", "NULL", ""]

def trueWords : List Text := ["yes", "Yes", "YES", "true", "True", "TRUE", "on", "On", "ON"]

def falseWords : List Text := ["no", "No", "NO", "false", "False", "FALSE", "off", "Off", "OFF"]

/-- The text without a sign in front, and whether the sign is a minus. -/
def unsigned : Text → Bool × Text
  | '-' :: t => (true, t)
  | '+' :: t => (false, t)
  | t => (false, t)

def isDigitOrMark (c : Char) : Bool := c.isDigit || c == '_'

/-- A digit, then digits and underscores. -/
def isDigits : Text → Bool
  | [] => false
  | c :: r => c.isDigit && r.all isDigitOrMark

/-- A part of a number in base 60 after the first: a digit, or two below 60. -/
def isSixtieth : Text → Bool
  | [a] => a.isDigit
  | [a, b] => '0' ≤ a && a ≤ '5' && b.isDigit
  | _ => false

/-- The text is a number in base 60 whose first part satisfies `first`. -/
def isSexagesimal (first : Text → Bool) (t : Text) : Bool :=
  match Text.splitAll ':' t with
  | a :: b :: parts => first a && isSixtieth b && parts.all isSixtieth
  | _ => false

/-- Digits and underscores that start with a digit above zero. -/
def isPositive (t : Text) : Bool := isDigits t && t.head? != some '0'

def isInt (t : Text) : Bool :=
  match (unsigned t).2 with
  | ['0'] => true
  | '0' :: 'b' :: r => !r.isEmpty && r.all fun c => c == '0' || c == '1' || c == '_'
  | '0' :: 'x' :: r => !r.isEmpty && r.all fun c => Text.isHexDigit c || c == '_'
  | '0' :: r => r.all fun c => ('0' ≤ c && c ≤ '7') || c == '_'
  | u => isPositive u || isSexagesimal isPositive u

/-- Nothing, or an exponent with its sign. -/
def isExponent : Text → Bool
  | [] => true
  | e :: s :: r =>
    (e == 'e' || e == 'E') && (s == '-' || s == '+') && !r.isEmpty && r.all Char.isDigit
  | _ => false

def isFloat (t : Text) : Bool :=
  let u := (unsigned t).2
  let isPoint := fun (t : Text) =>
    match Text.cut '.' t with
    | (_, none) => false
    | (whole, some r) => isDigits whole && isExponent (r.dropWhile isDigitOrMark)
  let isSixtieths := fun (t : Text) =>
    match Text.cut '.' t with
    | (_, none) => false
    | (whole, some r) => isSexagesimal isDigits whole && r.all isDigitOrMark
  let isFraction := fun (t : Text) =>
    match t with
    | '.' :: r => isDigits (r.takeWhile isDigitOrMark) && isExponent (r.dropWhile isDigitOrMark)
    | _ => false
  isPoint u || isFraction t || isSixtieths u ||
    ([".inf", ".Inf", ".INF"] : List Text).contains u ||
    ([".nan", ".NaN", ".NAN"] : List Text).contains t

/-- The text has so many digits, at least `least` and at most `most`. -/
def isNumber (least most : Nat) (t : Text) : Bool :=
  least ≤ t.length && t.length ≤ most && t.all Char.isDigit

/-- An offset from universal time, with blanks before it, or nothing. -/
def isZone (t : Text) : Bool :=
  match t.dropWhile fun c => c == ' ' || c == '\t' with
  | [] => t.isEmpty
  | ['Z'] => true
  | s :: r =>
    (s == '-' || s == '+') &&
      match Text.cut ':' r with
      | (h, none) => isNumber 1 2 h
      | (h, some m) => isNumber 1 2 h && isNumber 2 2 m

/-- A time of day with an optional fraction and zone. -/
def isTime (t : Text) : Bool :=
  match Text.cut ':' t with
  | (_, none) => false
  | (h, some r) =>
    match Text.cut ':' r with
    | (_, none) => false
    | (m, some r) =>
      let rest := r.drop 2
      let rest := match rest with
        | '.' :: f => f.dropWhile Char.isDigit
        | _ => rest
      isNumber 1 2 h && isNumber 2 2 m && isNumber 2 2 (r.take 2) && isZone rest

/-- A day, or a day with a time. -/
def isTimestamp (t : Text) : Bool :=
  match Text.cut '-' t with
  | (_, none) => false
  | (year, some r) =>
    match Text.cut '-' r with
    | (_, none) => false
    | (month, some r) =>
      let day := r.takeWhile Char.isDigit
      let rest := r.dropWhile Char.isDigit
      isNumber 4 4 year && isNumber 1 2 month && isNumber 1 2 day &&
        match rest with
        | [] => month.length = 2 && day.length = 2
        | c :: r =>
          if c == 'T' || c == 't' then isTime r
          else (c == ' ' || c == '\t') && isTime (r.dropWhile fun c => c == ' ' || c == '\t')

def typeOf (t : Text) : ScalarType :=
  if trueWords.contains t || falseWords.contains t then .bool
  else if isFloat t then .float
  else if isInt t then .int
  else if t = ['<', '<'] then .merge
  else if nullWords.contains t then .null
  else if isTimestamp t then .timestamp
  else if t = ['='] then .default
  else .text

/-- The truth value that a word stands for, in any case. -/
def boolOf? (t : Text) : Option Value :=
  let t := t.map Char.toLower
  if trueWords.contains t then some (.bool true)
  else if falseWords.contains t then some (.bool false)
  else none

/-- Digits in a base, none if there is another character or none at all. -/
def natIn? (base : Nat) (t : Text) : Option Nat :=
  if !t.isEmpty && t.all (fun c => Text.isHexDigit c && Text.digitValue c < base) then
    some (Text.valueIn base t)
  else none

/-- The number whose parts in base 60 are given, the last one first. -/
def sixtieths? : List Text → Option Nat
  | [] => some 0
  | p :: ps => do return (← natIn? 10 p) + 60 * (← sixtieths? ps)

def intOf? (t : Text) : Option Value := do
  let (negative, t) := unsigned (t.filter (· != '_'))
  let n ← match t with
    | ['0'] => some 0
    | '0' :: 'b' :: r => natIn? 2 r
    | '0' :: 'x' :: r => natIn? 16 r
    | '0' :: r => natIn? 8 r
    | t => if t.contains ':' then sixtieths? (Text.splitAll ':' t).reverse else natIn? 10 t
  return .int (if negative then -(n : Int) else n)

/-- The sum of the parts, each times its power of 60, the smallest first, rounded at each step. -/
def sixtiethsOf : (base sum : Double) → List Double → Double
  | _, sum, [] => sum
  | base, sum, p :: ps =>
    sixtiethsOf (base.mul (Double.ofDecimal false 60 0)) (sum.add (p.mul base)) ps

def negated (x : Double) : Double := x.mul (Double.ofDecimal true 1 0)

def floatOf? (t : Text) : Option Value := do
  let (negative, t) := unsigned ((t.filter (· != '_')).map Char.toLower)
  let x ←
    if t = ".inf".toList then some (Double.infinite false)
    else if t = ".nan".toList then some .nan
    else if t.contains ':' then do
      let parts ← (Text.splitAll ':' t).reverse.mapM Double.ofText?
      some (sixtiethsOf (Double.ofDecimal false 1 0) (Double.zero false) parts)
    else Double.ofText? t
  return .double (if negative then negated x else x)

def sextet? (c : Char) : Option Nat :=
  if c.isUpper then some (c.toNat - 'A'.toNat)
  else if c.isLower then some (c.toNat - 'a'.toNat + 26)
  else if c.isDigit then some (c.toNat - '0'.toNat + 52)
  else if c = '+' then some 62
  else if c = '/' then some 63
  else none

/-- The bytes that digits in base 64 stand for, four of them for three bytes. `bits` holds what is
left of the digits before, of which there are `digits` in the current four; `pads` counts the signs
that fill up the last four. Other characters are passed over. -/
def bytesFrom : (digits bits pads : Nat) → Text → Option Text.Utf8.Bytes
  | digits, _, _, [] => if digits = 0 then some [] else none
  | digits, bits, pads, c :: r =>
    if c = '=' then
      if 2 ≤ digits ∧ 4 ≤ digits + pads + 1 then some []
      else bytesFrom digits bits (if 2 ≤ digits then pads + 1 else pads) r
    else
      match sextet? c with
      | none => bytesFrom digits bits pads r
      | some n =>
        match digits with
        | 0 => bytesFrom 1 n 0 r
        | 1 => (bytesFrom 2 (n % 16) 0 r).map (.ofNat (bits * 4 + n / 16) :: ·)
        | 2 => (bytesFrom 3 (n % 4) 0 r).map (.ofNat (bits * 16 + n / 4) :: ·)
        | _ => (bytesFrom 0 0 0 r).map (.ofNat (bits * 64 + n) :: ·)

/-- The bytes that a text of ASCII characters gives in base 64. -/
def binaryOf? (t : Text) : Option Value :=
  if t.all fun c => c.toNat < 0x80 then (bytesFrom 0 0 0 t).map .bytes else none

/-- The value of a scalar of a type; marks for keys have none. -/
def valueOf? (type : ScalarType) (t : Text) : Option Value :=
  match type with
  | .null => some .null
  | .bool => boolOf? t
  | .int => intOf? t
  | .float => floatOf? t
  | .timestamp => if isTimestamp t then some (.date t) else none
  | .merge => none
  | .default => none
  | .binary => binaryOf? t
  | .text => some (.text t)

end VerilogIndex.Yaml
