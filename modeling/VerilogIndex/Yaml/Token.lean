import VerilogIndex.Text.Basic

/-!
# Tokens of a document
-/

namespace VerilogIndex.Yaml

/-- A line at the head of a document. -/
inductive Directive where
  | version (major minor : Nat)
  | tagHandle (handle lead : Text)
  | other
  deriving DecidableEq, Repr

inductive Token where
  | directive (d : Directive)
  | documentStart
  | documentEnd
  | blockSequenceStart
  | blockMappingStart
  | blockEnd
  | flowSequenceStart
  | flowSequenceEnd
  | flowMappingStart
  | flowMappingEnd
  | blockEntry
  | flowEntry
  | key
  | value
  | alias (name : Text)
  | anchor (name : Text)
  | tag (handle : Option Text) (suffix : Text)
  | scalar (plain : Bool) (text : Text)
  deriving DecidableEq, Repr

end VerilogIndex.Yaml
