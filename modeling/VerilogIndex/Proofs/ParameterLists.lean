import VerilogIndex.Proofs.Parts

/-!
# Parameter blocks, item by item

An item of a parameter block has a keyword or goes on under the one before it, and may have a value.
Reading it from left to right, the keyword in force is all that passes from item to item
(`readParameters`). The texts of such items, with any types and groups around their names
(`WrittenParameterItem`), are read in the same way: each gives its parameter, if it sets one, and
leaves the keyword in force to the next (`parametersFrom_cons`). Main statement: `parameters_items`.
-/

namespace VerilogIndex.Source

open Text

inductive ParameterKeyword where
  | parameter
  | localparam
  deriving DecidableEq

namespace ParameterKeyword

def text : ParameterKeyword → Text
  | parameter => "parameter"
  | localparam => "localparam"

theorem isIdentifier_text (k : ParameterKeyword) : isIdentifier k.text = true := by
  cases k <;> decide +kernel

def word (k : ParameterKeyword) : Identifier := ⟨k.text, k.isIdentifier_text⟩

end ParameterKeyword

structure ParameterItem where
  keyword : Option ParameterKeyword
  name : Identifier
  value : Option Text

namespace ParameterItem

/-- The keyword in force for an item: its own, or else the one in force before it. -/
def inForce (item : ParameterItem) (before : Option ParameterKeyword) : Option ParameterKeyword :=
  item.keyword.or before

/-- The parameter that an item sets under a keyword. -/
def parameter? (item : ParameterItem) (keyword : Option ParameterKeyword) : Option Parameter :=
  if keyword = some .parameter then item.value.map fun v => ⟨item.name.1, trim v⟩ else none

end ParameterItem

/-- The parameters of the items from left to right, given the keyword in force before them. -/
def readParameters : (before : Option ParameterKeyword) → List ParameterItem → List Parameter
  | _, [] => []
  | before, item :: items =>
    (item.parameter? (item.inForce before)).toList ++ readParameters (item.inForce before) items

/-- An item with its keyword as the first word, or without one. -/
inductive WrittenParameterItem : ParameterItem → Text → Prop
  | keyword {k : ParameterKeyword} {type : List Part} {name : Identifier} {value : Option Text}
      {x : Text} (h : WrittenItem (.word k.word :: type) name value x) :
      WrittenParameterItem ⟨some k, name, value⟩ x
  | bare {type : List Part} {name : Identifier} {value : Option Text} {x : Text}
      (hk : ∀ k : ParameterKeyword, opening? type name ≠ some k.text)
      (h : WrittenItem type name value x) : WrittenParameterItem ⟨none, name, value⟩ x

theorem parameterKeyword?_text (k : ParameterKeyword) {r : Text} (hr : startsWord r = false) :
    parameterKeyword? (k.text ++ r) = some (decide (k = .parameter), r) := by
  have hself := afterKeyword?_append k.text hr
  rw [parameterKeyword?.eq_def]
  cases k with
  | parameter => rw [show afterKeyword? "parameter" _ = some r from hself]; rfl
  | localparam =>
    have hother := afterKeyword?_eq_none (k := ParameterKeyword.text .parameter)
      (isWord_of_isIdentifier (ParameterKeyword.isIdentifier_text _))
      (isWord_of_isIdentifier (ParameterKeyword.isIdentifier_text .localparam)) hr (by decide)
    rw [show afterKeyword? "parameter" _ = none from hother,
      show afterKeyword? "localparam" _ = some r from hself]
    rfl

/-- The parameter of an item from its first part or its name on. -/
theorem parameterOf?_item {edge : Edge} {type : List Part} {t w : Text} {value : Option Text}
    (ht : WrittenParts edge type t) (name : Identifier) (hw : WrittenTail value w) :
    parameterOf? (t ++ (name.1 ++ w)) = value.map fun v => ⟨name.1, trim v⟩ := by
  obtain ⟨u, hu, hcut⟩ := hw.cut_eq (a := t ++ name.1) (by
    simp [ht.not_mem_equals, not_mem_equals_name])
  rw [List.append_assoc, List.append_assoc] at hcut
  rw [parameterOf?, hcut]
  simp only [getLast?_identifiers ht name hu]
  rcases value with _ | v <;> rfl

/-- An item gives its parameter and leaves its keyword in force. -/
theorem parametersFrom_cons {item : ParameterItem} {x : Text} (h : WrittenParameterItem item x)
    (before : Option ParameterKeyword) (items : List Text) :
    parametersFrom (decide (before = some .parameter)) (x :: items) =
      (item.parameter? (item.inForce before)).toList ++
        parametersFrom (decide (item.inForce before = some .parameter)) items := by
  -- trimming an item once or twice does not change its value but at the ends
  have hvalue : ∀ {value : Option Text} {n : Text},
      ((value.map trimRight).map fun v => Parameter.mk n (trim v)) =
        value.map fun v => ⟨n, trim v⟩ := by
    intro value n
    rw [Option.map_map]
    congr 1
    funext v
    simp [trim_trimRight]
  cases h with
  | @keyword k type name value x h =>
    obtain @⟨t, w, ht, hw, -⟩ := h
    obtain ⟨u, hu, ht⟩ := ht.trimLeft_of_cons
    have hitem : trim (t ++ (name.1 ++ w)) = k.text ++ (u ++ (name.1 ++ trimRight w)) := by
      rw [trim_declaration, hu, List.append_assoc]
      rfl
    have hparameter := parameterOf?_item ht.trimLeft name hw.trimRight.trimRight
    rw [hvalue, hvalue] at hparameter
    rw [parametersFrom, hitem, parameterKeyword?_text k (ht.startsWord _)]
    simp only [trim_declaration, hparameter]
    cases k <;> rfl
  | @bare type name value x hk h =>
    obtain @⟨t, w, ht, hw, -⟩ := h
    have hnone : ∀ k : ParameterKeyword,
        afterKeyword? k.text (trimLeft t ++ (name.1 ++ trimRight w)) = none := fun k =>
      afterKeyword?_opening k.isIdentifier_text ht (startsWord_trimRight hw.startsWord) (hk k)
    have hkeyword : parameterKeyword? (trimLeft t ++ (name.1 ++ trimRight w)) = none := by
      rw [parameterKeyword?, show afterKeyword? "parameter" _ = none from hnone .parameter,
        show afterKeyword? "localparam" _ = none from hnone .localparam]
      rfl
    have hparameter := parameterOf?_item ht.trimLeft name hw.trimRight
    rw [hvalue] at hparameter
    rw [parametersFrom, trim_declaration, hkeyword]
    simp only [hparameter]
    by_cases hb : before = some .parameter <;>
      simp [hb, ParameterItem.inForce, ParameterItem.parameter?]

theorem parametersFrom_items {items : List ParameterItem} {ts : List Text}
    (h : List.Forall₂ WrittenParameterItem items ts) (before : Option ParameterKeyword) :
    parametersFrom (decide (before = some .parameter)) ts = readParameters before items := by
  induction h generalizing before with
  | nil => rfl
  | cons hx _ ih => rw [parametersFrom_cons hx, ih, readParameters]

theorem WrittenParameterItem.nested {item : ParameterItem} {x : Text}
    (h : WrittenParameterItem item x) : Nested false x ∧ x ≠ [] := by
  cases h with
  | keyword h => exact ⟨h.nested, h.ne_nil⟩
  | bare _ h => exact ⟨h.nested, h.ne_nil⟩

/-- For any items and any texts of them, joined by commas: the parameters of the block are, in
order, those that reading the items from left to right gives. An item sets a parameter iff it has a
value and its keyword, or else the last one before it, is `parameter`; the value is what follows the
first equals sign, trimmed. -/
theorem parameters_items {items : List ParameterItem} {ts : List Text}
    (h : List.Forall₂ WrittenParameterItem items ts) :
    parameters (joinWith [','] ts) = readParameters none items := by
  rw [parameters, splitTopLevel_joinWith (forall_of_forall₂ (fun _ _ h => h.nested) h)]
  exact parametersFrom_items h none

/-- An item before any keyword, a value with an equals sign and commas in brackets, and items that
go on under each of the keywords. -/
theorem parameters_items_inherited :
    let ts : List Text := ["a = 1", "\nparameter logic [w : 0]init [2] =\x7b1, 2\x7d == b ",
      "c = 2", " localparam d = 3", " e=4", " parameter f"]
    (∃ items, List.Forall₂ WrittenParameterItem items ts)
      ∧ parameters (joinWith [','] ts) = [⟨"init", "\x7b1, 2\x7d == b"⟩, ⟨"c", "2"⟩] := by
  intro ts
  have hnone : Gap [] := by decide
  have hspace : Gap [' '] := by decide
  have hfeed : Gap ['\n'] := by decide
  have hname : ∀ n ∈ (["logic", "init", "a", "c", "d", "e", "f"] : List Text),
      isIdentifier n = true := by decide +kernel
  have hother : ∀ n ∈ (["a", "c", "e"] : List Text), ∀ k : ParameterKeyword, n ≠ k.text := by
    intro n hn k
    cases k <;> revert n <;> decide
  let n : (t : Text) → isIdentifier t = true → Identifier := fun t ht => ⟨t, ht⟩
  have hvalue : ∀ (g v : Text), Gap g → WrittenTail (some v) (g ++ '=' :: v) := fun g v hg =>
    .valued (.nil hg) v
  have hplain : ∀ v ∈ ([" 1", " 2", " 3", "4"] : List Text), Nested false v := fun v hv =>
    .of_plain (by revert v; decide)
  have hbare : ∀ (g t g' v : Text), Gap g → (ht : isIdentifier t = true) →
      (∀ k : ParameterKeyword, t ≠ k.text) → Gap g' → Nested false v →
      WrittenParameterItem ⟨none, n t ht, some v⟩ (g ++ (t ++ (g' ++ '=' :: v))) := by
    intro g t g' v hg ht hk hg' hv
    have hitem : WrittenItem [] (n t ht) (some v) (g ++ (t ++ (g' ++ '=' :: v))) :=
      .mk (.nil hg (by simp)) (hvalue g' v hg') (by simpa using hv)
    have hopening : ∀ k : ParameterKeyword, opening? [] (n t ht) ≠ some k.text := fun k he =>
      hk k (Option.some.inj he)
    exact .bare hopening hitem
  have hinit : WrittenParameterItem
      ⟨some .parameter, n "init" (hname _ (by simp)), some "\x7b1, 2\x7d == b "⟩
      "\nparameter logic [w : 0]init [2] =\x7b1, 2\x7d == b " := by
    have hparts : WrittenParts .start [.word (ParameterKeyword.word .parameter),
        .word (n "logic" (hname _ (by simp))), .group (.ofPlain "w : 0" (by decide) (by decide))]
        "\nparameter logic [w : 0]" :=
      .cons hfeed (by simp) (.cons hspace (by simp) (.cons hspace (by simp)
        (.nil hnone (by simp [Part.edge]))))
    have hlist : Nested false "\x7b1, 2\x7d == b " :=
      .group .curly (a := "1, 2") (.of_plain (by decide)) (.of_plain (by decide))
    exact .keyword (.mk hparts (.valued (.cons hspace (.ofPlain "2" (by decide) (by decide))
      (.nil hspace)) _) (by simpa using hlist))
  have hd : WrittenParameterItem ⟨some .localparam, n "d" (hname _ (by simp)), some " 3"⟩
      " localparam d = 3" :=
    .keyword (.mk (t := " localparam ") (w := " = 3") (.cons hspace (by simp)
      (.nil hspace (by simp))) (hvalue [' '] " 3" hspace) (by simpa using hplain " 3" (by simp)))
  have hf : WrittenParameterItem ⟨some .parameter, n "f" (hname _ (by simp)), none⟩
      " parameter f" :=
    .keyword (.mk (t := " parameter ") (w := []) (.cons hspace (by simp) (.nil hspace (by simp)))
      (.plain (.nil hnone)) (by simp))
  have hts : List.Forall₂ WrittenParameterItem _ ts :=
    .cons (hbare [] "a" [' '] " 1" hnone (hname _ (by simp)) (hother _ (by simp)) hspace
        (hplain _ (by simp))) <| .cons hinit <|
      .cons (hbare [] "c" [' '] " 2" hnone (hname _ (by simp)) (hother _ (by simp)) hspace
        (hplain _ (by simp))) <| .cons hd <|
      .cons (hbare [' '] "e" [] "4" hspace (hname _ (by simp)) (hother _ (by simp)) hnone
        (hplain _ (by simp))) <| .cons hf .nil
  exact ⟨⟨_, hts⟩, parameters_items hts⟩

end VerilogIndex.Source
