/-!
# Text

A text is a list of characters, so that an offset counts characters and every scan is a recursion
on the list. A string literal stands for its list of characters.
-/

namespace VerilogIndex

abbrev Text := List Char

instance : Coe String Text := ⟨String.toList⟩

namespace Text

/-- The number's decimal digits. -/
def ofNat (n : Nat) : Text := Nat.toDigits 10 n

/-- The number's decimal digits, after a minus sign if it is negative. -/
def ofInt : Int → Text
  | .ofNat n => ofNat n
  | .negSucc n => '-' :: ofNat (n + 1)

/-- The parts in order, with `sep` between neighbours. -/
def joinWith (sep : Text) : List Text → Text
  | [] => []
  | [t] => t
  | t :: u :: ts => t ++ sep ++ joinWith sep (u :: ts)

/-- The text if the condition holds, else nothing. -/
def onlyIf (b : Bool) (t : Text) : Text := if b then t else []

/-- The text filled up with spaces on the right to `width` characters. -/
def padRight (width : Nat) (t : Text) : Text :=
  t ++ List.replicate (width - t.length) ' '

/-- The greatest length among the texts, zero if there are none. -/
def maxLength (ts : List Text) : Nat :=
  (ts.map List.length).foldl max 0

/-- What follows `lead` in the text, if the text starts with it. -/
def after? : (lead : Text) → Text → Option Text
  | [], t => some t
  | _ :: _, [] => none
  | a :: lead, c :: t => if a = c then after? lead t else none

/-- The part before the first `c`, and what follows that `c` if there is one. -/
def cut (c : Char) (t : Text) : Text × Option Text :=
  match t.dropWhile (· != c) with
  | [] => (t, none)
  | _ :: r => (t.takeWhile (· != c), some r)

/-- The pieces between the occurrences of `c`: one more than there are occurrences. -/
def splitAll (c : Char) : Text → List Text
  | [] => [[]]
  | d :: r =>
    if d = c then [] :: splitAll c r
    else
      match splitAll c r with
      | [] => [[d]]
      | p :: ps => (d :: p) :: ps

/-- Order by code points, the shorter first if one begins the other. -/
def le : Text → Text → Bool
  | [], _ => true
  | _ :: _, [] => false
  | a :: s, b :: t => a.toNat < b.toNat || (a.toNat == b.toNat && le s t)

/-- The texts in ascending order; equal texts keep their order. -/
def sorted (ts : List Text) : List Text := ts.mergeSort le

/-- The position of the first occurrence of `needle`. -/
def find? (needle : Text) : Text → Option Nat
  | [] => if needle.isEmpty then some 0 else none
  | c :: r => if needle.isPrefixOf (c :: r) then some 0 else (find? needle r).map (· + 1)

/-- The members in order, each kept at its first place only. -/
def distinct [DecidableEq α] (xs : List α) : List α :=
  xs.foldl (fun seen x => if x ∈ seen then seen else seen ++ [x]) []

end Text

end VerilogIndex
