import VerilogIndex.Text.Basic

/-!
# Blank characters

A blank is a character that separates words: the white space of Unicode together with the four
information separators. Words are the longest stretches without a blank.
-/

namespace VerilogIndex.Text

/-- The number lies in one of the runs. -/
def inRuns (runs : List (Nat × Nat)) (n : Nat) : Bool :=
  runs.any fun r => r.1 ≤ n && n ≤ r.2

/-- Runs of blank characters, in ascending order. -/
def blankRuns : List (Nat × Nat) :=
  [(0x9, 0xD), (0x1C, 0x20), (0x85, 0x85), (0xA0, 0xA0), (0x1680, 0x1680), (0x2000, 0x200A),
   (0x2028, 0x2029), (0x202F, 0x202F), (0x205F, 0x205F), (0x3000, 0x3000)]

def isBlank (c : Char) : Bool := inRuns blankRuns c.toNat

/-- The text from its first character that is not blank. -/
def trimLeft (t : Text) : Text := t.dropWhile isBlank

/-- The text up to its last character that is not blank. -/
def trimRight (t : Text) : Text := (t.reverse.dropWhile isBlank).reverse

def trim (t : Text) : Text := trimRight (trimLeft t)

/-- Consumes one character of the words of a text: the word begun so far goes on, or ends. -/
def wordsFrom : (word : Text) → Text → List Text
  | word, [] => if word.isEmpty then [] else [word.reverse]
  | word, c :: r =>
    if isBlank c then
      if word.isEmpty then wordsFrom [] r else word.reverse :: wordsFrom [] r
    else wordsFrom (c :: word) r

/-- The longest stretches without a blank, in order. -/
def words (t : Text) : List Text := wordsFrom [] t

/-- The words with one space between neighbours. -/
def squeeze (t : Text) : Text := joinWith [' '] (words t)

end VerilogIndex.Text
