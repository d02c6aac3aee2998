import VerilogIndex.Text.Hidden

/-!
# Quoted text

A text in messages stands between quotes: single ones, or double ones if it holds a single quote
and no double quote. Backslashes, the quote itself and hidden characters are escaped.
-/

namespace VerilogIndex.Text

/-- The number in base 16, with zeros in front up to `width` digits. -/
def hex (width : Nat) (n : Nat) : Text :=
  let digits := Nat.toDigits 16 n
  List.replicate (width - digits.length) '0' ++ digits

def escapeChar (quote c : Char) : Text :=
  if c = quote ∨ c = '\\' then ['\\', c]
  else if c = '\n' then "\\n"
  else if c = '\r' then "\\r"
  else if c = '\t' then "\\t"
  else if isHidden c then
    if c.toNat < 0x100 then "\\x" ++ hex 2 c.toNat
    else if c.toNat < 0x10000 then "\\u" ++ hex 4 c.toNat
    else "\\U" ++ hex 8 c.toNat
  else [c]

/-- The quote around a text. -/
def quoteFor (t : Text) : Char :=
  if '\'' ∈ t ∧ '"' ∉ t then '"' else '\''

def quoted (t : Text) : Text :=
  let q := quoteFor t
  q :: t.flatMap (escapeChar q) ++ [q]

end VerilogIndex.Text
