import VerilogIndex.Text.Basic

/-!
# UTF-8

Texts as bytes. Reading takes one byte at a time; bytes that begin a character but do not complete
it are wrong together, up to the first byte that cannot go on.
-/

namespace VerilogIndex.Text.Utf8

abbrev Bytes := List UInt8

/-- The bytes of a character. -/
def encodeChar (c : Char) : Bytes :=
  let n := c.toNat
  let byte := fun (lead k : Nat) => (lead + k % 64).toUInt8
  if n < 0x80 then [n.toUInt8]
  else if n < 0x800 then [(0xC0 + n / 64).toUInt8, byte 0x80 n]
  else if n < 0x10000 then [(0xE0 + n / 4096).toUInt8, byte 0x80 (n / 64), byte 0x80 n]
  else [(0xF0 + n / 262144).toUInt8, byte 0x80 (n / 4096), byte 0x80 (n / 64), byte 0x80 n]

def encode (t : Text) : Bytes := t.flatMap encodeChar

/-- A character that is begun: the bytes still to come, the least and the greatest next one, and
the bits so far. -/
structure Begun where
  more : Nat
  least : Nat
  greatest : Nat
  bits : Nat
  deriving DecidableEq, Repr

/-- What the first byte of a character says: a whole character, one that is begun, or nothing. -/
def first (b : Nat) : Option Char × Option Begun :=
  if b < 0x80 then (some (Char.ofNat b), none)
  else if 0xC2 ≤ b ∧ b ≤ 0xDF then (none, some ⟨1, 0x80, 0xBF, b % 32⟩)
  else if 0xE0 ≤ b ∧ b ≤ 0xEF then
    (none, some ⟨2, if b = 0xE0 then 0xA0 else 0x80, if b = 0xED then 0x9F else 0xBF, b % 16⟩)
  else if 0xF0 ≤ b ∧ b ≤ 0xF4 then
    (none, some ⟨3, if b = 0xF0 then 0x90 else 0x80, if b = 0xF4 then 0x8F else 0xBF, b % 8⟩)
  else (none, none)

/-- The characters that end with this byte when none is begun before it, none for a wrong byte,
and the character it begins. -/
def start (b : UInt8) : List (Option Char) × Option Begun :=
  match first b.toNat with
  | (some c, _) => ([some c], none)
  | (none, some g) => ([], some g)
  | (none, none) => ([none], none)

/-- The characters that end with this byte, none for wrong bytes, and the character it begins or
goes on with. -/
def step (g : Begun) (b : UInt8) : List (Option Char) × Option Begun :=
  let n := b.toNat
  if g.least ≤ n ∧ n ≤ g.greatest then
    let bits := g.bits * 64 + n % 64
    if g.more ≤ 1 then ([some (Char.ofNat bits)], none)
    else ([], some ⟨g.more - 1, 0x80, 0xBF, bits⟩)
  else
    let (cs, g) := start b
    (none :: cs, g)

/-- The characters of the bytes, none for each stretch of wrong ones. -/
def decodeFrom : Option Begun → Bytes → List (Option Char)
  | none, [] => []
  | some _, [] => [none]
  | g, b :: bs =>
    let (cs, g) := match g with
      | none => start b
      | some g => step g b
    cs ++ decodeFrom g bs

/-- The text of the bytes, if none of them are wrong. -/
def decode? (bs : Bytes) : Option Text := (decodeFrom none bs).mapM id

/-- The text of the bytes, with a replacement character for each stretch of wrong ones. -/
def decodeLossy (bs : Bytes) : Text := (decodeFrom none bs).map (·.getD '�')

end VerilogIndex.Text.Utf8
