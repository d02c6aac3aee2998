import VerilogIndex.Text.Word

/-!
# Identifiers and keywords

An identifier is an ASCII letter or an underscore followed by word characters. A keyword stands
for itself when no word character follows it.
-/

namespace VerilogIndex.Source

open Text

def isIdentifierStart (c : Char) : Bool := c.isAlpha || c == '_'

/-- The identifier a text starts with, and the text after it. -/
def identifier? : Text → Option (Text × Text)
  | [] => none
  | c :: r =>
    if isIdentifierStart c then some (c :: r.takeWhile isWord, r.dropWhile isWord) else none

/-- The whole text is an identifier. -/
def isIdentifier : Text → Bool
  | [] => false
  | c :: r => isIdentifierStart c && r.all isWord

/-- The identifiers of a text from left to right, given the one that has begun, back to front. -/
def identifiersFrom : (begun : Text) → Text → List Text
  | begun, [] => if begun.isEmpty then [] else [begun.reverse]
  | begun, c :: r =>
    if begun.isEmpty then identifiersFrom (if isIdentifierStart c then [c] else []) r
    else if isWord c then identifiersFrom (c :: begun) r
    else begun.reverse :: identifiersFrom [] r

/-- The identifiers of a text from left to right, each as long as it can be. -/
def identifiers (t : Text) : List Text := identifiersFrom [] t

/-- What follows the keyword a text starts with. -/
def afterKeyword? (keyword t : Text) : Option Text :=
  (after? keyword t).filter fun r => !startsWord r

/-- `name` stands at the start of `t` as a whole word; `glued` if a word character precedes. -/
def standsAt (name : Text) (glued : Bool) (t : Text) : Bool :=
  match after? name t with
  | none => false
  | some r =>
    let ending := match name.getLast? with
      | some c => isWord c
      | none => glued
    glued != startsWord t && ending != startsWord r

/-- The offset of the first place where `name` stands as a whole word. -/
def findWord? (name : Text) : (glued : Bool) → Text → Option Nat
  | glued, [] => if standsAt name glued [] then some 0 else none
  | glued, c :: r =>
    if standsAt name glued (c :: r) then some 0 else (findWord? name (isWord c) r).map (· + 1)

end VerilogIndex.Source
