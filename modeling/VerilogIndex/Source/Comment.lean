import VerilogIndex.Text.Basic

/-!
# Comments

Comments are blanked: every character of one but a line feed becomes a space, so that what is left
keeps its offsets. A block comment that is not closed runs to the end of the text. Two slashes right
after a colon or a backslash open no comment, as in an address or an escaped name.
-/

namespace VerilogIndex.Source

/-- Where a scan stands between two characters of a text. -/
inductive Place where
  /-- Outside of comments; `guarded` after a colon or a backslash. -/
  | code (guarded : Bool)
  /-- Before the second character of a comment's opening. -/
  | opening (block : Bool)
  | line
  | block
  /-- Before the slash that closes a block comment. -/
  | closing
  deriving DecidableEq, Repr

/-- What one character becomes, seeing the next one, and the place after it. -/
def Place.step : Place → Char → Option Char → Char × Place
  | .code guarded, c, next =>
    if c = '/' ∧ next = some '*' then (' ', .opening true)
    else if c = '/' ∧ next = some '/' ∧ guarded = false then (' ', .opening false)
    else (c, .code (c == ':' || c == '\\'))
  | .opening true, _, _ => (' ', .block)
  | .opening false, _, _ => (' ', .line)
  | .line, c, _ => if c = '\n' then (c, .code false) else (' ', .line)
  | .block, c, next =>
    if c = '*' ∧ next = some '/' then (' ', .closing)
    else (if c = '\n' then c else ' ', .block)
  | .closing, _, _ => (' ', .code false)

/-- The text with its comments blanked, read from a place. -/
def blankFrom : Place → Text → Text
  | _, [] => []
  | place, c :: r =>
    let next := place.step c r.head?
    next.1 :: blankFrom next.2 r

/-- The text with its comments blanked. -/
def blankComments (t : Text) : Text := blankFrom (.code false) t

end VerilogIndex.Source
