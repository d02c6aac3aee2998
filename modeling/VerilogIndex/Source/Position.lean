import VerilogIndex.Design.Module
import VerilogIndex.Source.Identifier

/-!
# Positions

An offset as a line and a column, both from zero, and the place of a name in a text.
-/

namespace VerilogIndex.Source

open Text

/-- The number of line feeds before the offset. -/
def lineOf (t : Text) (offset : Nat) : Nat := (t.take offset).count '\n'

/-- The number of characters between the last line feed before the offset and the offset. -/
def columnOf (t : Text) (offset : Nat) : Nat :=
  ((t.take offset).reverse.takeWhile (· != '\n')).length

/-- Where `name` first stands as a whole word from an offset on; the start of the file if it
stands nowhere. -/
def locate (t name : Text) (offset : Nat) (path : Text) : Location :=
  match findWord? name false (t.drop offset) with
  | none => { file := path }
  | some n =>
    { file := path, line := lineOf t (offset + n), column := columnOf t (offset + n),
      length := name.length }

end VerilogIndex.Source
