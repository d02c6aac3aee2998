import VerilogIndex.Proofs.Parts

/-!
# Port blocks, item by item

An item of a port block has a direction, goes on with the declaration before it, with a type of its
own or without, or is an interface. Reading it from left to right, a direction and a type are in
force after each item, until an interface ends them (`readPorts`). The texts of such items
(`WrittenPortItem`) are read in the same way: each gives its port, if a direction is in force, and
leaves what is in force to the next (`portOf_item`). Main statement: `ports_items`.

A range keeps its expression, whatever it is, as long as no equals sign is in it: the value of an
item is cut off at the first equals sign, and one in a comparison is cut off as well, with the name
that follows it. Main statement: `range_kept_iff`.
-/

namespace VerilogIndex.Source

open Text

/-! ## Items -/

inductive PortItem where
  | directed (direction : Direction) (type : List Part) (name : Identifier)
  | typed (type : List Part) (name : Identifier)
  | bare (name : Identifier)
  | interface (name : Identifier)

namespace PortItem

def name : PortItem → Identifier
  | directed _ _ n | typed _ n | bare n | interface n => n

/-- The direction and the type in force for an item, given those before it. -/
def inForce (before : Option Inherited) : PortItem → Option Inherited
  | directed d type _ => some ⟨d, shownType type⟩
  | typed type _ => before.map fun i => { i with type := shownType type }
  | bare _ => before
  | interface _ => none

/-- The port of an item with this direction and type in force. -/
def port? (item : PortItem) (now : Option Inherited) : Option Port :=
  now.map fun i => ⟨item.name.1, i.direction, i.type⟩

end PortItem

/-- The ports of the items from left to right, given what is in force before them. -/
def readPorts : (before : Option Inherited) → List PortItem → List Port
  | _, [] => []
  | before, item :: items =>
    (item.port? (item.inForce before)).toList ++ readPorts (item.inForce before) items

def directionWord (d : Direction) : Identifier := ⟨d.text, isIdentifier_direction d⟩

/-- A type that opens with this part goes on with the declaration before it. -/
def Part.Continues : Part → Prop
  | word w => w.1 ∈ dataTypeWords
  | group _ => True

/-- The part of an interface that a port uses. -/
def modportText : Option Identifier → Text
  | none => []
  | some m => '.' :: m.1

inductive WrittenPortItem : PortItem → Text → Prop
  | directed {d : Direction} {type : List Part} {name : Identifier} {value : Option Text} {x : Text}
      (h : WrittenItem (.word (directionWord d) :: type) name value x) :
      WrittenPortItem (.directed d type name) x
  | typed {p : Part} {type : List Part} {name : Identifier} {value : Option Text} {x : Text}
      (hp : p.Continues) (h : WrittenItem (p :: type) name value x) :
      WrittenPortItem (.typed (p :: type) name) x
  | bare {name : Identifier} {value : Option Text} {x : Text}
      (hn : ∀ d : Direction, name.1 ≠ d.text) (h : WrittenItem [] name value x) :
      WrittenPortItem (.bare name) x
  | interface {i name : Identifier} {m : Option Identifier} {g g' g'' : Text}
      (hd : ∀ d : Direction, i.1 ≠ d.text) (ht : i.1 ∉ dataTypeWords) (hg : Gap g) (hg' : Gap g')
      (hne : g' ≠ []) (hg'' : Gap g'') :
      WrittenPortItem (.interface name) (g ++ (i.1 ++ (modportText m ++ (g' ++ (name.1 ++ g'')))))

/-! ## Ports -/

theorem direction_not_mem_dataTypeWords (d : Direction) : d.text ∉ dataTypeWords := by
  cases d <;> decide +kernel

/-- An item that opens with a direction declares a port of its own, whatever is before it. -/
theorem portOf_directed {d : Direction} {type : List Part} {name : Identifier}
    {value : Option Text} {x : Text}
    (h : WrittenItem (.word (directionWord d) :: type) name value x)
    (before : Option Inherited) :
    portOf before x = (some ⟨name.1, d, shownType type⟩, some ⟨d, shownType type⟩) := by
  obtain ⟨t, u, ht, hu, hx⟩ := h.trim_cut
  obtain ⟨s, hs, ht⟩ := ht.trimLeft_of_cons
  have hdeclaration : trim (cut '=' x).1 = d.text ++ (s ++ (name.1 ++ u)) := by
    rw [hx, hs, List.append_assoc]
    rfl
  have hne : (d.text ++ (s ++ (name.1 ++ u))).isEmpty = false := by
    simp [ne_nil_of_isIdentifier (isIdentifier_direction d)]
  have hname : declaredName? (s ++ (name.1 ++ u)) = some (s, name.1) :=
    declaredNameFrom?_parts ht name hu []
  simp only [portOf, hdeclaration, hne, Bool.false_eq_true, if_false,
    directionKeyword?_text d (ht.startsWord _), hname, typeText_parts ht]

/-- A declaration whose type opens with a word goes on with the one before it iff the word is that
of a data type. -/
theorem continues_word {t u : Text} (w : Identifier) {name : Text}
    (hname : declaredName? t = some (w.1 ++ u, name)) (hu : startsWord u = false) :
    continues t = dataTypeWords.contains w.1 := by
  obtain ⟨c, v, hw⟩ := List.exists_cons_of_ne_nil (ne_nil_of_isIdentifier w.2)
  have hc : c ≠ '[' := by
    rintro rfl
    exact (Bare.of_isIdentifier w.2).not_mem '[' (by decide) (hw ▸ List.mem_cons_self)
  have htrim : trim (w.1 ++ u) = w.1 ++ trimRight u := (Part.word w).trim_append u
  have hword := identifier?_append w.2 (startsWord_trimRight hu)
  rw [continues, hname]
  simp only [htrim]
  split
  · rename_i he
    rw [hw] at he
    cases he
  · rename_i he
    rw [hw] at he
    exact absurd (List.cons.inj he).1 hc
  · rw [hword]
    rfl

theorem isEmpty_shownType (type : List Part) : (shownType type).isEmpty = decide (type = []) := by
  rcases type with _ | ⟨p, type⟩
  · rfl
  · have hp : p.shown ≠ [] := by
      cases p with
      | word w => exact ne_nil_of_isIdentifier w.2
      | group b => simp [Part.shown]
    simp [shownType, joinWith_cons, hp]

theorem continues_parts {type : List Part} {t u : Text} (ht : WrittenParts .start type t)
    (hp : ∀ p ∈ type.head?, p.Continues) (name : Identifier) (hu : WrittenGroups u) :
    continues (trimLeft t ++ (name.1 ++ u)) = true := by
  have hname : declaredName? (trimLeft t ++ (name.1 ++ u)) = some (trimLeft t, name.1) :=
    declaredNameFrom?_parts ht.trimLeft name hu []
  rcases type with _ | ⟨w | b, type⟩
  · rw [continues, hname]
    simp only [ht.trimLeft_of_nil]
    rfl
  · obtain ⟨s, hs, ht⟩ := ht.trimLeft_of_cons
    have hs' := ht.startsWord []
    rw [List.append_nil] at hs'
    rw [hs] at hname ⊢
    rw [continues_word w hname hs']
    exact List.contains_iff_mem.2 (hp _ rfl)
  · obtain ⟨s, hs, -⟩ := ht.trimLeft_of_cons
    rw [hs] at hname ⊢
    rw [continues, hname]
    simp only [(Part.group b).trim_append]
    rfl

/-- An item without a direction goes on with the declaration before it, with its own type if it has
one. -/
theorem portOf_continuing {type : List Part} {name : Identifier} {value : Option Text} {x : Text}
    (h : WrittenItem type name value x) (hd : ∀ d : Direction, opening? type name ≠ some d.text)
    (hp : ∀ p ∈ type.head?, p.Continues) (before : Option Inherited) :
    portOf before x =
      let now := before.map fun i => { i with type := if type = [] then i.type else shownType type }
      (now.map fun i => ⟨name.1, i.direction, i.type⟩, now) := by
  obtain ⟨t, u, ht, hu, hx⟩ := h.trim_cut
  have hne : (trimLeft t ++ (name.1 ++ u)).isEmpty = false := by
    simp [ne_nil_of_isIdentifier name.2]
  have hnone : directionKeyword? (trimLeft t ++ (name.1 ++ u)) = none :=
    directionKeyword?_eq_none fun d => afterKeyword?_opening (isIdentifier_direction d) ht
      (WrittenTail.plain hu).startsWord (hd d)
  have hname : declaredName? (trimLeft t ++ (name.1 ++ u)) = some (trimLeft t, name.1) :=
    declaredNameFrom?_parts ht.trimLeft name hu []
  rcases before with _ | ⟨direction, inherited⟩
  · simp only [portOf, hx, hne, Bool.false_eq_true, if_false, hnone]
    rfl
  · simp only [portOf, hx, hne, Bool.false_eq_true, if_false, hnone, continues_parts ht hp name hu,
      if_true, hname, typeText_parts ht.trimLeft, isEmpty_shownType, decide_eq_true_eq]
    rfl

/-! ## Interfaces -/

section Interface

variable {g : Text} (hg : Gap g) (hne : g ≠ []) (m : Option Identifier)

include hg hne

theorem startsWord_modport (t : Text) : startsWord (modportText m ++ (g ++ t)) = false := by
  cases m with
  | none => exact startsWord_append (t := t) hg fun he => absurd he hne
  | some m => rfl

/-- The name of an interface port follows its type. -/
theorem declaredName?_interface (i name : Identifier) :
    declaredName? (i.1 ++ (modportText m ++ (g ++ name.1))) =
      some (i.1 ++ (modportText m ++ g), name.1) := by
  have hword : ∀ w : Identifier, WrittenParts .start [.word w] ([] ++ (w.1 ++ g)) := fun w =>
    .cons (by simp [Gap]) (by simp) (.nil hg fun _ => hne)
  have hlast : ∀ (w : Identifier) before, declaredNameFrom? before (w.1 ++ (g ++ name.1)) =
      some (before.reverse ++ (w.1 ++ g), name.1) := fun w before => by
    simpa using declaredNameFrom?_parts (hword w) name (.nil (g := []) (by simp [Gap])) before
  cases m with
  | none => exact hlast i []
  | some m =>
    have hmore : onlyRanges false ('.' :: (m.1 ++ (g ++ name.1))) = false :=
      onlyRanges_eq_false (by decide) (by decide) _
    have hpass := declaredNameFrom?_part (.word i) (fun _ => rfl) hmore []
    rw [declaredNameFrom?_cons (by decide), hlast m] at hpass
    simpa [declaredName?, Part.text, modportText] using hpass

/-- An interface declares no port and ends what is in force. -/
theorem portOf_interface {i : Identifier} (hd : ∀ d : Direction, i.1 ≠ d.text)
    (ht : i.1 ∉ dataTypeWords) (name : Identifier) {g₁ g₂ : Text} (h₁ : Gap g₁) (h₂ : Gap g₂)
    (before : Option Inherited) :
    portOf before (g₁ ++ (i.1 ++ (modportText m ++ (g ++ (name.1 ++ g₂))))) = (none, none) := by
  have hmodport : '=' ∉ modportText m := by
    cases m with
    | none => simp [modportText]
    | some m => simp [modportText, not_mem_equals_name]
  have hcut : '=' ∉ g₁ ++ (i.1 ++ (modportText m ++ (g ++ (name.1 ++ g₂)))) := by
    simp [(Bare.of_gap h₁).not_mem '=' (by decide), (Bare.of_gap h₂).not_mem '=' (by decide),
      (Bare.of_gap hg).not_mem '=' (by decide), not_mem_equals_name, hmodport]
  have htrim : trim (g₁ ++ (i.1 ++ (modportText m ++ (g ++ (name.1 ++ g₂))))) =
      i.1 ++ (modportText m ++ (g ++ name.1)) := by
    have := trim_declaration (g₁ ++ (i.1 ++ (modportText m ++ g))) name g₂
    rw [trimLeft_append h₁, show i.1 = (Part.word i).text from rfl, (Part.word i).trimLeft_append,
      trimRight_gap h₂] at this
    simpa [Part.text] using this
  have hnone : directionKeyword? (i.1 ++ (modportText m ++ (g ++ name.1))) = none :=
    directionKeyword?_eq_none fun d => afterKeyword?_eq_none
      (isWord_of_isIdentifier (isIdentifier_direction d)) (isWord_of_isIdentifier i.2)
      (startsWord_modport hg hne m name.1) (hd d)
  have hcontinues : continues (i.1 ++ (modportText m ++ (g ++ name.1))) = false := by
    have hword := startsWord_modport hg hne m []
    rw [List.append_nil] at hword
    rw [continues_word i (declaredName?_interface hg hne m i name) hword]
    simpa using ht
  have hempty : (i.1 ++ (modportText m ++ (g ++ name.1))).isEmpty = false := by
    simp [ne_nil_of_isIdentifier i.2]
  rcases before with _ | before <;>
    simp only [portOf, cut_of_not_mem hcut, htrim, hempty, hnone, hcontinues, Bool.false_eq_true,
      if_false]

end Interface

/-! ## Blocks -/

/-- An item gives its port and leaves what is in force to the next. -/
theorem portOf_item {item : PortItem} {x : Text} (h : WrittenPortItem item x)
    (before : Option Inherited) :
    portOf before x = (item.port? (item.inForce before), item.inForce before) := by
  cases h with
  | directed h => exact portOf_directed h before
  | @typed p type name value x hp h =>
    have hd : ∀ d : Direction, opening? (p :: type) name ≠ some d.text := fun d he => by
      cases p with
      | word w => exact direction_not_mem_dataTypeWords d (Option.some.inj he ▸ hp)
      | group => cases he
    rw [portOf_continuing h hd (by simpa using hp)]
    simp [PortItem.port?, PortItem.inForce, PortItem.name]
  | bare hn h =>
    rw [portOf_continuing h (fun d he => hn d (Option.some.inj he)) (by simp)]
    simp [PortItem.port?, PortItem.inForce, PortItem.name]
  | interface hd ht hg hg' hne hg'' => exact portOf_interface hg' hne _ hd ht _ hg hg'' before

theorem portsFrom_items {items : List PortItem} {ts : List Text}
    (h : List.Forall₂ WrittenPortItem items ts) (before : Option Inherited) :
    portsFrom before ts = readPorts before items := by
  induction h generalizing before with
  | nil => rfl
  | cons hx _ ih => simp only [portsFrom, portOf_item hx, ih, readPorts]

theorem WrittenPortItem.nested {item : PortItem} {x : Text} (h : WrittenPortItem item x) :
    Nested false x ∧ x ≠ [] := by
  cases h with
  | directed h | typed _ h | bare _ h => exact ⟨h.nested, h.ne_nil⟩
  | @interface i name m _ _ _ _ _ hg hg' _ hg'' =>
    have hword : ∀ w : Identifier, Nested false w.1 := fun w => (Bare.of_isIdentifier w.2).nested
    have hmodport : Nested false (modportText m) := by
      cases m with
      | none => exact .nil
      | some m => exact .plain rfl (by decide) (hword m)
    refine ⟨(Bare.of_gap hg).nested.append ((hword i).append (hmodport.append
      ((Bare.of_gap hg').nested.append ((hword name).append (Bare.of_gap hg'').nested)))), ?_⟩
    simp [ne_nil_of_isIdentifier i.2]

/-- For any items and any texts of them, joined by commas: the ports of the block are, in order,
those that reading the items from left to right gives. A direction sets both direction and type, a
type without a direction sets the type alone, a bare name takes both over, and an interface ends
them; each item but an interface is a port with the direction and the type then in force, if any. -/
theorem ports_items {items : List PortItem} {ts : List Text}
    (h : List.Forall₂ WrittenPortItem items ts) :
    ports (joinWith [','] ts) = readPorts none items := by
  rw [ports, splitTopLevel_joinWith (forall_of_forall₂ (fun _ _ h => h.nested) h)]
  exact portsFrom_items h none

/-- A name before any direction, a type that is taken over and one that is not, an interface with a
name after it, and words that extend keywords. -/
theorem ports_items_inherited :
    let ts : List Text := ["clk", "\ninput logic[w-1 : 0] a [2] = f(1, 2)", " b", "wire signed c",
      " my_if.slave bus", " d", " output [3:0]e ", "[7] input_x=1==2"]
    (∃ items, List.Forall₂ WrittenPortItem items ts)
      ∧ ports (joinWith [','] ts) = [⟨"a", .input, "logic [w-1 : 0]"⟩,
        ⟨"b", .input, "logic [w-1 : 0]"⟩, ⟨"c", .input, "wire signed"⟩, ⟨"e", .output, "[3:0]"⟩,
        ⟨"input_x", .output, "[7]"⟩] := by
  intro ts
  have hnone : Gap [] := by decide
  have hspace : Gap [' '] := by decide
  have hfeed : Gap ['\n'] := by decide
  have hname : ∀ n ∈ (["clk", "logic", "a", "b", "wire", "signed", "c", "my_if", "slave", "bus",
      "d", "e", "input_x"] : List Text), isIdentifier n = true := by decide +kernel
  have hother : ∀ n ∈ (["clk", "b", "d", "my_if"] : List Text), ∀ d : Direction, n ≠ d.text := by
    intro n hn d
    cases d <;> revert n <;> decide
  let n : (t : Text) → isIdentifier t = true → Identifier := fun t ht => ⟨t, ht⟩
  let width : Part := .group (.ofPlain "w-1 : 0" (by decide) (by decide))
  let nibble : Part := .group (.ofPlain "3:0" (by decide) (by decide))
  let seven : Part := .group (.ofPlain "7" (by decide) (by decide))
  have hend : WrittenTail none [] := .plain (.nil hnone)
  -- a name alone is an item
  have hbare : ∀ g t, Gap g → (ht : isIdentifier t = true) → (∀ d : Direction, t ≠ d.text) →
      WrittenPortItem (.bare (n t ht)) (g ++ (t ++ [])) := fun g t hg ht hd =>
    .bare hd (.mk (.nil hg (by simp)) hend (by simp))
  have ha : WrittenPortItem (.directed .input [.word (n "logic" (hname _ (by simp))), width]
      (n "a" (hname _ (by simp)))) "\ninput logic[w-1 : 0] a [2] = f(1, 2)" := by
    have hcall : Nested false (" f" ++ '(' :: ("1, 2" ++ [')'])) :=
      (Nested.of_plain (by decide)).append (.group .round (.of_plain (by decide)) .nil)
    have hparts : WrittenParts .start [.word (directionWord .input),
        .word (n "logic" (hname _ (by simp))), width] "\ninput logic[w-1 : 0] " :=
      .cons hfeed (by simp) (.cons hspace (by simp) (.cons hnone (by simp [width, Part.edge])
        (.nil hspace (by simp))))
    have htail : WrittenTail (some (" f" ++ '(' :: ("1, 2" ++ [')']))) " [2] = f(1, 2)" :=
      .valued (.cons hspace (.ofPlain "2" (by decide) (by decide)) (.nil hspace)) _
    exact .directed (.mk hparts htail (by simpa using hcall))
  have hc : WrittenPortItem (.typed [.word (n "wire" (hname _ (by simp))),
      .word (n "signed" (hname _ (by simp)))] (n "c" (hname _ (by simp)))) "wire signed c" :=
    .typed (show ("wire" : Text) ∈ dataTypeWords by decide) (.mk (t := "wire signed ")
      (.cons hnone (by simp) (.cons hspace (by simp) (.nil hspace (by simp)))) hend (by simp))
  have hbus : WrittenPortItem (.interface (n "bus" (hname _ (by simp)))) " my_if.slave bus" :=
    .interface (i := n "my_if" (hname _ (by simp))) (m := some (n "slave" (hname _ (by simp))))
      (hother "my_if" (by simp)) (show ("my_if" : Text) ∉ dataTypeWords by decide) hspace hspace
      (by simp)
      hnone
  have he : WrittenPortItem (.directed .output [nibble] (n "e" (hname _ (by simp))))
      " output [3:0]e " :=
    .directed (.mk (t := " output [3:0]") (w := " ") (.cons hspace (by simp)
      (.cons hspace (by simp) (.nil hnone (by simp [nibble, Part.edge])))) (.plain (.nil hspace))
      (by simp))
  have hx : WrittenPortItem (.typed [seven] (n "input_x" (hname _ (by simp))))
      "[7] input_x=1==2" := by
    have hvalue : Nested false "1==2" := .of_plain (by decide)
    have htail : WrittenTail (some "1==2") "=1==2" := .valued (.nil hnone) "1==2"
    exact .typed trivial (.mk (t := "[7] ") (.cons hnone (by simp) (.nil hspace (by simp))) htail
      (by simpa using hvalue))
  have hts : List.Forall₂ WrittenPortItem _ ts :=
    .cons (hbare [] "clk" hnone (hname _ (by simp)) (hother _ (by simp))) <| .cons ha <|
      .cons (hbare [' '] "b" hspace (hname _ (by simp)) (hother _ (by simp))) <| .cons hc <|
      .cons hbus <| .cons (hbare [' '] "d" hspace (hname _ (by simp)) (hother _ (by simp))) <|
      .cons he <| .cons hx .nil
  exact ⟨⟨_, hts⟩, ports_items hts⟩

/-! ## Ranges -/

theorem mem_spaceRanges {c : Char} : ∀ {t : Text} {last : Option Char}, c ∈ spaceRanges last t →
    c ∈ t ∨ c = ' '
  | [], _, h => by simp [spaceRanges] at h
  | d :: t, last, h => by
    rw [spaceRanges] at h
    rcases List.mem_append.1 h with h | h
    · split_ifs at h <;> simp only [List.mem_cons, List.not_mem_nil, or_false] at h ⊢ <;> tauto
    · exact (mem_spaceRanges h).imp_left (List.mem_cons_of_mem d)

theorem mem_typeText {c : Char} {t : Text} (h : c ∈ typeText t) : c ∈ t ∨ c = ' ' := by
  rw [typeText, squeeze_eq] at h
  rcases mem_spaceRanges h with h | h
  · exact (mem_collapseFrom h).imp_left fun h => (prefix_trimRight t).subset h
  · exact .inr h

theorem mem_of_declaredNameFrom? {c : Char} : ∀ {t passed before name : Text},
    declaredNameFrom? passed t = some (before, name) → c ∈ before → c ∈ passed ∨ c ∈ t
  | [], _, _, _, h, _ => by simp [declaredNameFrom?] at h
  | d :: t, passed, before, name, h, hc => by
    rw [declaredNameFrom?] at h
    split_ifs at h
    · obtain ⟨rfl, -⟩ := Prod.mk.inj (Option.some.inj h)
      exact .inl (List.mem_reverse.1 hc)
    · rcases mem_of_declaredNameFrom? h hc with h | h
      · exact (List.mem_cons.1 h).elim (fun he => .inr (he ▸ List.mem_cons_self)) .inl
      · exact .inr (List.mem_cons_of_mem d h)

/-- A type without a closing bracket has no range. -/
theorem bitRange_eq_nil {p : Port} (h : ']' ∉ p.type) : p.bitRange = [] := by
  rw [Port.bitRange, firstGroup?]
  rcases hd : p.type.dropWhile (· != '[') with _ | ⟨c, r⟩
  · rfl
  · have hr : ']' ∉ r := fun hmem =>
      h ((List.dropWhile_sublist (· != '[')).subset (hd ▸ List.mem_cons_of_mem c hmem))
    simp [hr]

theorem bitRange_group {p : Port} {r : Text} (hp : p.type = '[' :: (r ++ [']'])) (hr : ']' ∉ r) :
    p.bitRange = '[' :: (r ++ [']']) := by
  have htake : (r ++ [']']).takeWhile (· != ']') = r := by
    have hall : ∀ c ∈ r, (c != ']') = true := fun c hc => bne_iff_ne.2 fun he => hr (he ▸ hc)
    rw [List.takeWhile_append_of_pos hall]
    simp
  rw [Port.bitRange, firstGroup?, hp, List.dropWhile_cons_of_neg (by decide)]
  simp [htake]

/-- A block of one item. -/
theorem ports_of_nested {x : Text} (hn : Nested false x) (hne : x ≠ []) :
    ports x = (portOf none x).1.toList := by
  have hsplit : splitTopLevel (joinWith [','] [x]) = [x] :=
    splitTopLevel_joinWith (by simp [hn, hne])
  rw [joinWith] at hsplit
  rw [ports, hsplit, portsFrom]
  simp [portsFrom]

/-- The item that declares a port of this direction, range and name. -/
def rangedItem (d : Direction) (r : Text) (n : Identifier) : Text :=
  d.text ++ ' ' :: '[' :: (r ++ ']' :: ' ' :: n.1)

section Ranged

variable (d : Direction) (n : Identifier) {r : Text}

theorem ports_rangedItem (hr : ∀ c ∈ r, isBracket c = false) :
    ports (rangedItem d r n) = (portOf none (rangedItem d r n)).1.toList := by
  have hplain : Nested true r := .of_plain (List.all_eq_true.2 fun c hc => by simp [hr c hc])
  refine ports_of_nested ?_ (by simp [rangedItem])
  exact (Bare.of_isIdentifier (isIdentifier_direction d)).nested.append (.plain rfl (by decide)
    (.group .square hplain (.plain rfl (by decide) (Bare.of_isIdentifier n.2).nested)))

/-- Without an equals sign the range is a part of the declaration like any other. -/
theorem portOf_rangedItem (hr : ∀ c ∈ r, isBracket c = false) (he : '=' ∉ r) :
    (portOf none (rangedItem d r n)).1 = some ⟨n.1, d, '[' :: (collapse r ++ [']'])⟩ := by
  let b : Bracketed := .ofPlain r (by simpa using hr) he
  have hgap : Gap [' '] := by decide
  have hparts : WrittenParts .start [.word (directionWord d), .group b]
      ([] ++ (d.text ++ ([' '] ++ ((Part.group b).text ++ [' '])))) :=
    .cons (by simp [Gap]) (by simp) (.cons hgap (by simp) (.nil hgap (by simp)))
  have hitem : WrittenItem [.word (directionWord d), .group b] n none (rangedItem d r n) := by
    have htail : WrittenTail none [] := .plain (.nil (by simp [Gap]))
    have hmk : WrittenItem [.word (directionWord d), .group b] n none (_ ++ (n.1 ++ [])) :=
      .mk hparts htail (by simp)
    simpa [rangedItem, Part.text, b, Bracketed.ofPlain] using hmk
  rw [portOf_directed hitem]
  rfl

/-- With an equals sign all from there on is taken for a value, and what is left has no range. -/
theorem bitRange_of_equals (he : '=' ∈ r) {p : Port} (hr : ']' ∉ r)
    (hp : (portOf none (rangedItem d r n)).1 = some p) : p.bitRange = [] := by
  obtain ⟨a, b, rfl, ha⟩ := List.eq_append_cons_of_mem he
  have hcut : (cut '=' (rangedItem d (a ++ '=' :: b) n)).1 = d.text ++ ' ' :: '[' :: a := by
    have hd := (Bare.of_isIdentifier (isIdentifier_direction d)).not_mem '=' (by decide)
    have := cut_append (c := '=') (a := d.text ++ ' ' :: '[' :: a) (by simp [hd, ha])
      (b ++ ']' :: ' ' :: n.1)
    rw [show rangedItem d (a ++ '=' :: b) n =
      (d.text ++ ' ' :: '[' :: a) ++ '=' :: (b ++ ']' :: ' ' :: n.1) by simp [rangedItem], this]
  have htrim : trim (d.text ++ ' ' :: '[' :: a) = d.text ++ ' ' :: '[' :: trimRight a := by
    have hleft : trim (d.text ++ ' ' :: '[' :: a) = d.text ++ trimRight (' ' :: '[' :: a) :=
      (Part.word (directionWord d)).trim_append _
    rw [hleft]
    exact congrArg (d.text ++ ·) (trimRight_append_cons [' '] (c := '[') (by decide) a)
  have hne : (d.text ++ ' ' :: '[' :: trimRight a).isEmpty = false := by simp
  have hword : startsWord (' ' :: '[' :: trimRight a) = false := rfl
  simp only [portOf, hcut, htrim, hne, Bool.false_eq_true, if_false,
    directionKeyword?_text d hword] at hp
  split at hp
  · rename_i before name hname
    obtain rfl := Option.some.inj hp
    refine bitRange_eq_nil fun hmem => ?_
    have hbefore : ']' ∈ before := (mem_typeText hmem).resolve_right (by decide)
    have hleft : ']' ∈ trimRight a := by simpa using mem_of_declaredNameFrom? hname hbefore
    exact hr (List.mem_append_left _ ((prefix_trimRight a).subset hleft))
  · cases hp

/-- For any direction, any name and any expression without brackets between the brackets of a range:
the item is read as one port of that name and direction whose range is the expression in brackets,
with one space for each run of blanks, iff no equals sign is in the expression. -/
theorem range_kept_iff (hr : ∀ c ∈ r, isBracket c = false) :
    (∃ p, ports (rangedItem d r n) = [p] ∧ p.name = n.1 ∧ p.direction = d
      ∧ p.bitRange = '[' :: (collapse r ++ [']'])) ↔ '=' ∉ r := by
  have hclose : ']' ∉ r := fun hmem => by
    have := hr _ hmem
    cases this
  rw [ports_rangedItem d n hr]
  constructor
  · rintro ⟨p, hp, -, -, hrange⟩ he
    have hport : (portOf none (rangedItem d r n)).1 = some p := by
      rcases hq : (portOf none (rangedItem d r n)).1 with _ | q <;> rw [hq] at hp <;> simp at hp
      rw [hp]
    rw [bitRange_of_equals d n he hclose hport] at hrange
    cases hrange
  · intro he
    rw [portOf_rangedItem d n hr he]
    refine ⟨_, rfl, rfl, rfl, bitRange_group rfl fun hmem => ?_⟩
    exact (mem_collapseFrom hmem).elim hclose (by decide)

end Ranged

/-- A conditional with keywords in it and blanks of all kinds is kept. -/
theorem range_kept_conditional :
    let r : Text := " input ?\n\t8 : 2,  1"
    (∀ c ∈ r, isBracket c = false) ∧ '=' ∉ r
      ∧ ∃ p, ports "output [ input ?\n\t8 : 2,  1] output_y" = [p] ∧ p.name = "output_y"
        ∧ p.direction = .output ∧ p.bitRange = "[ input ? 8 : 2, 1]" := by
  intro r
  have hr : ∀ c ∈ r, isBracket c = false := by
    have : r.any isBracket = false := by decide
    simpa using this
  have he : '=' ∉ r := by decide
  exact ⟨hr, he, (range_kept_iff .output ⟨"output_y", by decide +kernel⟩ hr).2 he⟩

/-- A comparison in a range cuts the item off: the word before the equals sign becomes the name. -/
theorem range_lost_comparison :
    ("W==8" : Text).any isBracket = false
      ∧ ports "input [W==8] x" = [⟨"W", .input, "["⟩]
      ∧ ¬ ∃ p, ports "input [W==8] x" = [p] ∧ p.name = "x" ∧ p.direction = .input
        ∧ p.bitRange = "[W==8]" := by
  have hports : ports "input [W==8] x" = [⟨"W", .input, "["⟩] := by decide +kernel
  refine ⟨by decide, hports, ?_⟩
  rintro ⟨p, hp, hname, -⟩
  rw [hports] at hp
  obtain rfl := (List.cons.inj hp).1
  revert hname
  decide

end VerilogIndex.Source
