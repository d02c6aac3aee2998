import VerilogIndex.Pattern.Basic
import VerilogIndex.Text.Quoted

/-!
# What can be wrong with a pattern
-/

namespace VerilogIndex.Pattern

inductive Fault where
  | unclosedGroup
  | unbalancedGroup
  | unclosedSet
  | unclosedComment
  | nothingToRepeat
  | multipleRepeat
  | repeatBounds
  /-- A number of repetitions that is too large to be kept. -/
  | repeatCount
  | badRange (first last : Text)
  | danglingEscape
  | badEscape (escape : Text)
  | incompleteEscape (escape : Text)
  | octalEscape (escape : Text)
  | undefinedCharacter (name : Text)
  | missing (what : Text)
  | unclosedName (terminator : Char)
  | badGroupName (name : Text)
  | unknownGroupName (name : Text)
  | groupRedefined (name : Text) (number old : Nat)
  | groupReference (number : Nat)
  | groupNumber
  | openGroup
  /-- A reference to a group of the same look behind. -/
  | groupBehind
  /-- A choice between more than two patterns. -/
  | choices
  | unexpectedEnd
  | unknownExtension (mark : Text)
  | unknownFlag
  | badFlags (reason : Text)
  /-- Flags for the whole pattern that do not stand at its start. -/
  | lateFlags
  /-- Flags for the whole pattern that exclude each other. -/
  | flagConflict (other : Text)
  | behindWidth
  | tooFarBehind
  | templateRepeat (eagerness : Eagerness)
  deriving DecidableEq, Repr

def Fault.text : Fault → Text
  | .unclosedGroup => "missing ), unterminated subpattern"
  | .unbalancedGroup => "unbalanced parenthesis"
  | .unclosedSet => "unterminated character set"
  | .unclosedComment => "missing ), unterminated comment"
  | .nothingToRepeat => "nothing to repeat"
  | .multipleRepeat => "multiple repeat"
  | .repeatBounds => "min repeat greater than max repeat"
  | .repeatCount => "the repetition number is too large"
  | .badRange first last => "bad character range " ++ first ++ "-" ++ last
  | .danglingEscape => "bad escape (end of pattern)"
  | .badEscape escape => "bad escape " ++ escape
  | .incompleteEscape escape => "incomplete escape " ++ escape
  | .octalEscape escape => "octal escape value " ++ escape ++ " outside of range 0-0o377"
  | .undefinedCharacter name => "undefined character name " ++ Text.quoted name
  | .missing what => "missing " ++ what
  | .unclosedName terminator => "missing " ++ [terminator] ++ ", unterminated name"
  | .badGroupName name => "bad character in group name " ++ Text.quoted name
  | .unknownGroupName name => "unknown group name " ++ Text.quoted name
  | .groupRedefined name number old =>
    "redefinition of group name " ++ Text.quoted name ++ " as group " ++ Text.ofNat number
      ++ "; was group " ++ Text.ofNat old
  | .groupReference number => "invalid group reference " ++ Text.ofNat number
  | .groupNumber => "bad group number"
  | .openGroup => "cannot refer to an open group"
  | .groupBehind => "cannot refer to group defined in the same lookbehind subpattern"
  | .choices => "conditional backref with more than two branches"
  | .unexpectedEnd => "unexpected end of pattern"
  | .unknownExtension mark => "unknown extension ?" ++ mark
  | .unknownFlag => "unknown flag"
  | .badFlags reason => "bad inline flags: " ++ reason
  | .lateFlags => "global flags not at the start of the expression"
  | .flagConflict other => "ASCII and " ++ other ++ " flags are incompatible"
  | .behindWidth => "look-behind requires fixed-width pattern"
  | .tooFarBehind => "looks too much behind"
  | .templateRepeat .greedy => "internal: unsupported template operator MAX_REPEAT"
  | .templateRepeat .lazy => "internal: unsupported template operator MIN_REPEAT"
  | .templateRepeat .possessive => "internal: unsupported template operator POSSESSIVE_REPEAT"

/-- The fault is told as one of the pattern. The others are failures of the reader. -/
def Fault.isTold : Fault → Bool
  | .repeatCount | .flagConflict _ => false
  | _ => true

/-- A fault at an offset of a pattern, or in the pattern as a whole. -/
structure Error where
  fault : Fault
  offset : Option Nat
  deriving DecidableEq, Repr

/-- The message for an error in the pattern `source`; line and column are told if it has lines. -/
def Error.message (e : Error) (source : Text) : Text :=
  match e.offset with
  | none => e.fault.text
  | some offset =>
    let before := source.take offset
    let place : Text :=
      if '\n' ∈ source then
        " (line " ++ Text.ofNat (before.count '\n' + 1) ++ ", column "
          ++ Text.ofNat ((before.reverse.takeWhile (· != '\n')).length + 1) ++ ")"
      else []
    e.fault.text ++ " at position " ++ Text.ofNat offset ++ place

end VerilogIndex.Pattern
