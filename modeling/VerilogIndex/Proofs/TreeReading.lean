import VerilogIndex.Proofs.Files
import VerilogIndex.Proofs.Locations
import VerilogIndex.Proofs.Unfolding

/-!
# Reading rendered trees

A rendered forest is read back from its text alone. A line gives the level, the label and the mark
of a node (`Row.read`): the level by the spaces before it, the label as a name or two names with a
colon between them, and the mark by what is left. The levels in preorder give the forest: from the
last row on, a row takes the trees after it that are deeper than itself (`Outline.grow`).

This needs labels that are made of names, as those of modules that were read from a text are, and
names of files without line feeds. A name of a file may hold anything else, also what looks like a
mark, as it stands between brackets at the end of a line.

Main statement: `read_render`.
-/

namespace VerilogIndex

open Text

/-! ## Rows -/

/-- What stands behind a label. -/
inductive Mark where
  | none
  | blackBox
  | recursive
  | file (name : Text)
  deriving DecidableEq

namespace Mark

def text : Mark → Text
  | none => []
  | blackBox => "  (black box)"
  | recursive => "  (recursive)"
  | file name => "  [" ++ name ++ "]"

def read (t : Text) : Mark :=
  if t = none.text then none
  else if t = blackBox.text then blackBox
  else if t = recursive.text then recursive
  else file (t.drop 3).dropLast

theorem read_text (m : Mark) : read m.text = m := by
  cases m with
  | none | blackBox | recursive => rfl
  | file name =>
    have hdrop : ((file name).text.drop 3).dropLast = name := List.dropLast_concat
    have hne : ∀ m : Mark, (∀ n, m ≠ file n) → (file name).text ≠ m.text := by
      intro m hm he
      have hthird : (file name).text[2]? = some '[' := rfl
      rw [he] at hthird
      cases m with
      | none | blackBox | recursive => cases hthird
      | file n => exact hm n rfl
    rw [read, if_neg (hne _ (by simp)), if_neg (hne _ (by simp)), if_neg (hne _ (by simp)), hdrop]

/-- Two spaces stand before a mark. -/
theorem text_cases (m : Mark) : m.text = [] ∨ ∃ t, m.text = ' ' :: ' ' :: t := by
  cases m with
  | none => exact .inl rfl
  | blackBox | recursive | file => exact .inr ⟨_, rfl⟩

/-- A line break in the text of a mark is in the name of a file. -/
theorem mem_file_of_isLineBreak {m : Mark} {c : Char} (hc : c ∈ m.text)
    (hb : isLineBreak c = true) : ∃ name, m = file name ∧ c ∈ name := by
  have hplain : ∀ {t : Text}, t.all (!isLineBreak ·) = true → c ∉ t := by
    intro t ht hmem
    have := List.all_eq_true.1 ht c hmem
    rw [hb] at this
    cases this
  have hopen : ("  [" : Text).all (!isLineBreak ·) = true := rfl
  have hclose : ("]" : Text).all (!isLineBreak ·) = true := rfl
  have hblackBox : blackBox.text.all (!isLineBreak ·) = true := rfl
  have hrecursive : recursive.text.all (!isLineBreak ·) = true := rfl
  cases m with
  | none => cases hc
  | blackBox => exact absurd hc (hplain hblackBox)
  | recursive => exact absurd hc (hplain hrecursive)
  | file name =>
    rcases List.mem_append.1 hc with hc | hc
    · rcases List.mem_append.1 hc with hc | hc
      · exact absurd hc (hplain hopen)
      · exact ⟨name, rfl, hc⟩
    · exact absurd hc (hplain hclose)

end Mark

/-- A name, or two with a colon between them. -/
inductive IsLabel : Text → Prop
  | name {n : Text} (hn : Source.isIdentifier n = true) : IsLabel n
  | typed {n type : Text} (hn : Source.isIdentifier n = true)
      (ht : Source.isIdentifier type = true) : IsLabel (n ++ " : " ++ type)

/-- The label that a text starts with. -/
def labelOf (t : Text) : Text :=
  (after? " : " (t.dropWhile isWord)).elim (t.takeWhile isWord) fun r =>
    t.takeWhile isWord ++ " : " ++ r.takeWhile isWord

theorem span_word {n r : Text} (hn : Source.isIdentifier n = true) (hr : startsWord r = false) :
    (n ++ r).takeWhile isWord = n ∧ (n ++ r).dropWhile isWord = r := by
  have hword := isWord_of_isIdentifier hn
  rw [List.takeWhile_append_of_pos hword, List.dropWhile_append_of_pos hword]
  rcases r with _ | ⟨c, r⟩
  · simp
  · have hc : isWord c = false := hr
    simp [hc]

theorem labelOf_append {l : Text} (h : IsLabel l) (m : Mark) : labelOf (l ++ m.text) = l := by
  have hmark : startsWord m.text = false := by
    rcases m.text_cases with hm | ⟨t, hm⟩ <;> rw [hm] <;> rfl
  cases h with
  | name hn =>
    obtain ⟨htake, hdrop⟩ := span_word hn hmark
    have hafter : after? " : " m.text = none := by
      rcases m.text_cases with hm | ⟨t, hm⟩ <;> rw [hm] <;> rfl
    rw [labelOf, htake, hdrop, hafter, Option.elim_none]
  | @typed n type hn ht =>
    rw [List.append_assoc, List.append_assoc]
    obtain ⟨htake, hdrop⟩ := span_word (r := " : " ++ (type ++ m.text)) hn rfl
    have hafter : after? " : " (" : " ++ (type ++ m.text)) = some (type ++ m.text) :=
      after?_eq_some_iff.2 rfl
    rw [labelOf, htake, hdrop, hafter, Option.elim_some, (span_word ht hmark).1, List.append_assoc]

theorem IsLabel.exists_cons {l : Text} (h : IsLabel l) :
    ∃ c r, l = c :: r ∧ Source.isIdentifierStart c = true := by
  have hname : ∀ {n : Text}, Source.isIdentifier n = true →
      ∃ c r, n = c :: r ∧ Source.isIdentifierStart c = true := by
    intro n hn
    obtain ⟨c, r, rfl⟩ := List.exists_cons_of_ne_nil (ne_nil_of_isIdentifier hn)
    exact ⟨c, r, rfl, (Bool.and_eq_true_iff.1 hn).1⟩
  cases h with
  | name hn => exact hname hn
  | typed hn =>
    obtain ⟨c, r, rfl, hc⟩ := hname hn
    exact ⟨c, _, rfl, hc⟩

theorem IsLabel.not_isLineBreak {l : Text} (h : IsLabel l) : ∀ c ∈ l, isLineBreak c = false := by
  have hname : ∀ {n : Text}, Source.isIdentifier n = true → ∀ c ∈ n, isLineBreak c = false := by
    intro n hn c hc
    by_contra hb
    have hblank := isBlank_of_isLineBreak (Bool.eq_true_of_not_eq_false hb)
    rw [not_isBlank_of_isWord (isWord_of_isIdentifier hn c hc)] at hblank
    cases hblank
  cases h with
  | name hn => exact hname hn
  | typed hn ht =>
    intro c hc
    rcases List.mem_append.1 hc with hc | hc
    · rcases List.mem_append.1 hc with hc | hc
      · exact hname hn c hc
      · have hcolon : (" : " : Text).all (!isLineBreak ·) = true := rfl
        simpa using List.all_eq_true.1 hcolon c hc
    · exact hname ht c hc

/-- What a line tells of a node. -/
structure Row where
  level : Nat
  label : Text
  mark : Mark
  deriving DecidableEq

namespace Row

open Hierarchy (usualIndent)

def line (indent : Text) (r : Row) : Text :=
  (List.replicate r.level indent).flatten ++ r.label ++ r.mark.text

def read (line : Text) : Row :=
  let t := line.dropWhile (· == ' ')
  { level := (line.takeWhile (· == ' ')).length / usualIndent.length
    label := labelOf t
    mark := Mark.read (t.drop (labelOf t).length) }

theorem flatten_usualIndent (level : Nat) :
    (List.replicate level usualIndent).flatten =
      List.replicate (level * usualIndent.length) ' ' := by
  rw [show usualIndent = List.replicate 4 ' ' from rfl, List.flatten_replicate_replicate,
    List.length_replicate]

theorem read_line {r : Row} (h : IsLabel r.label) : read (r.line usualIndent) = r := by
  obtain ⟨level, label, mark⟩ := r
  obtain ⟨c, rest, rfl, hc⟩ := h.exists_cons
  have hspace : (c == ' ') = false := by
    rw [beq_eq_false_iff_ne]
    rintro rfl
    cases hc
  have hspaces : ∀ d ∈ List.replicate (level * usualIndent.length) ' ', (d == ' ') = true := by
    intro d hd
    rw [List.eq_of_mem_replicate hd]
    rfl
  have hline : line usualIndent ⟨level, c :: rest, mark⟩ =
      List.replicate (level * usualIndent.length) ' ' ++ (c :: rest ++ mark.text) := by
    rw [line, flatten_usualIndent, List.append_assoc]
  have htake : (line usualIndent ⟨level, c :: rest, mark⟩).takeWhile (· == ' ') =
      List.replicate (level * usualIndent.length) ' ' := by
    rw [hline, List.takeWhile_append_of_pos hspaces, List.cons_append,
      List.takeWhile_cons_of_neg (by simp [hspace]), List.append_nil]
  have hdrop : (line usualIndent ⟨level, c :: rest, mark⟩).dropWhile (· == ' ') =
      c :: rest ++ mark.text := by
    rw [hline, List.dropWhile_append_of_pos hspaces, List.cons_append,
      List.dropWhile_cons_of_neg (by simp [hspace])]
  have hlevel : level * usualIndent.length / usualIndent.length = level :=
    Nat.mul_div_cancel level (by decide)
  simp only [read, htake, hdrop, labelOf_append h, List.length_replicate, hlevel, List.drop_left,
    Mark.read_text]

/-- A line break in the line of a node is in the name of its file. -/
theorem mem_file_of_isLineBreak {r : Row} (h : IsLabel r.label) {c : Char}
    (hc : c ∈ r.line usualIndent) (hb : isLineBreak c = true) :
    ∃ name, r.mark = .file name ∧ c ∈ name := by
  rw [line, flatten_usualIndent, List.mem_append, List.mem_append] at hc
  rcases hc with (hc | hc) | hc
  · rw [List.eq_of_mem_replicate hc] at hb
    cases hb
  · rw [h.not_isLineBreak c hc] at hb
    cases hb
  · exact Mark.mem_file_of_isLineBreak hc hb

end Row

/-! ## Forests as rows -/

/-- The labels and marks of a tree. -/
inductive Outline where
  | node (label : Text) (mark : Mark) (children : List Outline)

namespace Node

def sign : Node → Mark
  | root m _ => .file (Path.baseName m.file)
  | blackBox _ => .blackBox
  | recursive .. => .recursive
  | inner .. => .none

/-- The row of a node at a level. -/
def row (p : Nat × Node) : Row := ⟨p.1, p.2.label, p.2.sign⟩

mutual

/-- The node and those below it, with their levels. -/
def preorder (level : Nat) : Node → List (Nat × Node)
  | root m cs => (level, root m cs) :: forestPreorder (level + 1) cs
  | inner i m cs => (level, inner i m cs) :: forestPreorder (level + 1) cs
  | blackBox i => [(level, blackBox i)]
  | recursive i m => [(level, recursive i m)]

def forestPreorder (level : Nat) : List Node → List (Nat × Node)
  | [] => []
  | n :: ns => preorder level n ++ forestPreorder level ns

end

mutual

def outline : Node → Outline
  | root m cs => .node m.name (.file (Path.baseName m.file)) (outlines cs)
  | inner i _ cs => .node i.text .none (outlines cs)
  | blackBox i => .node i.text .blackBox []
  | recursive i _ => .node i.text .recursive []

def outlines : List Node → List Outline
  | [] => []
  | n :: ns => outline n :: outlines ns

end

theorem preorder_eq (level : Nat) (n : Node) :
    preorder level n = (level, n) :: forestPreorder (level + 1) n.children := by
  cases n <;> rfl

theorem line_eq (indent : Text) (p : Nat × Node) : p.2.line indent p.1 = (row p).line indent := by
  obtain ⟨level, n⟩ := p
  cases n <;> rfl

mutual

theorem lines_eq (indent : Text) (level : Nat) : ∀ n : Node,
    lines indent level n = (preorder level n).map fun p => p.2.line indent p.1
  | root m cs => by
    rw [lines, preorder, List.map_cons, forestLines_eq indent (level + 1) cs]
  | inner i m cs => by
    rw [lines, preorder, List.map_cons, forestLines_eq indent (level + 1) cs]
  | blackBox i => rfl
  | recursive i m => rfl

theorem forestLines_eq (indent : Text) (level : Nat) : ∀ ns : List Node,
    forestLines indent level ns = (forestPreorder level ns).map fun p => p.2.line indent p.1
  | [] => rfl
  | n :: ns => by
    rw [forestLines, forestPreorder, List.map_append, lines_eq indent level n,
      forestLines_eq indent level ns]

end

end Node

namespace Outline

/-- The row before some trees with their levels: its children are the deeper ones right after it. -/
def grow (r : Row) (later : List (Nat × Outline)) : List (Nat × Outline) :=
  (r.level, .node r.label r.mark ((later.takeWhile fun p => r.level < p.1).map (·.2))) ::
    later.dropWhile fun p => r.level < p.1

/-- The trees that rows in preorder stand for. -/
def ofRows (rows : List Row) : List Outline := (rows.foldr grow []).map (·.2)

theorem grow_append {r : Row} (cs : List Outline) {later : List (Nat × Outline)}
    (h : ∀ p ∈ later, p.1 ≤ r.level) :
    grow r (cs.map (r.level + 1, ·) ++ later) = (r.level, .node r.label r.mark cs) :: later := by
  have hdeeper : ∀ p ∈ cs.map (r.level + 1, ·), decide (r.level < p.1) = true := by
    intro p hp
    obtain ⟨c, -, rfl⟩ := List.mem_map.1 hp
    simp
  have hstop : (later.takeWhile fun p => r.level < p.1) = []
      ∧ (later.dropWhile fun p => r.level < p.1) = later := by
    rcases later with _ | ⟨p, later⟩
    · exact ⟨rfl, rfl⟩
    · have hp : decide (r.level < p.1) = false := by simpa using h p List.mem_cons_self
      simp [hp]
  rw [grow, List.takeWhile_append_of_pos hdeeper, List.dropWhile_append_of_pos hdeeper, hstop.1,
    hstop.2, List.append_nil, List.map_map]
  simp [Function.comp_def]

open Node

-- the rows after a tree are not deeper than its root, so none of them is taken for a child
mutual

theorem foldr_grow_preorder (level : Nat) {later : List (Nat × Outline)}
    (h : ∀ p ∈ later, p.1 ≤ level) : ∀ n : Node,
      ((preorder level n).map row).foldr grow later = (level, outline n) :: later
  | .root m cs => by
    rw [preorder, List.map_cons, List.foldr_cons,
      foldr_grow_forestPreorder (level + 1) (fun p hp => (h p hp).trans (Nat.le_succ level)) cs]
    exact grow_append _ h
  | .inner i m cs => by
    rw [preorder, List.map_cons, List.foldr_cons,
      foldr_grow_forestPreorder (level + 1) (fun p hp => (h p hp).trans (Nat.le_succ level)) cs]
    exact grow_append _ h
  | .blackBox i => grow_append [] h
  | .recursive i m => grow_append [] h

theorem foldr_grow_forestPreorder (level : Nat) {later : List (Nat × Outline)}
    (h : ∀ p ∈ later, p.1 ≤ level) : ∀ ns : List Node,
      ((forestPreorder level ns).map row).foldr grow later = (outlines ns).map (level, ·) ++ later
  | [] => rfl
  | n :: ns => by
    rw [forestPreorder, List.map_append, List.foldr_append, foldr_grow_forestPreorder level h ns,
      foldr_grow_preorder level _ n]
    · rfl
    · intro p hp
      rcases List.mem_append.1 hp with hp | hp
      · obtain ⟨o, -, rfl⟩ := List.mem_map.1 hp
        exact le_rfl
      · exact h p hp

end

theorem ofRows_forestPreorder (ns : List Node) :
    ofRows ((forestPreorder 0 ns).map row) = outlines ns := by
  rw [ofRows, foldr_grow_forestPreorder 0 (by simp), List.append_nil, List.map_map]
  simp [Function.comp_def]

end Outline

/-! ## Texts of forests -/

namespace Hierarchy

/-- The lines of a text between its line feeds; an empty text has none. -/
def linesOf (t : Text) : List Text := if t.isEmpty then [] else splitAll '\n' t

theorem linesOf_joinWith {ls : List Text} (hne : ∀ l ∈ ls, l ≠ []) (hfeed : ∀ l ∈ ls, '\n' ∉ l) :
    linesOf (joinWith ['\n'] ls) = ls := by
  by_cases h : ls = []
  · subst h
    rfl
  · have hjoin : (joinWith ['\n'] ls).isEmpty = false :=
      List.isEmpty_eq_false_iff.2 (Path.joinWith_ne_nil h hne)
    rw [linesOf, if_neg (by simp [hjoin]), splitAll_joinWith h hfeed]

theorem lines_joinWith : ∀ {ls : List Text}, (∀ l ∈ ls, l ≠ []) →
    (∀ l ∈ ls, ∀ c ∈ l, isLineBreak c = false) → Text.lines (joinWith ['\n'] ls) = ls
  | [], _, _ => rfl
  | [l], hne, hbreak =>
    lines_of_not_isLineBreak (hne l List.mem_cons_self) (hbreak l List.mem_cons_self)
  | l :: k :: ls, hne, hbreak => by
    rw [joinWith, List.append_assoc, List.singleton_append,
      lines_cons_line (hbreak l List.mem_cons_self),
      lines_joinWith (fun j hj => hne j (List.mem_cons_of_mem l hj))
        fun j hj => hbreak j (List.mem_cons_of_mem l hj)]

end Hierarchy

/-- The trees that a text shows. -/
def Outline.read (t : Text) : List Outline := ofRows ((Hierarchy.linesOf t).map Row.read)

/-- The modules of the index were read from texts, and no name of their files has a line feed. -/
structure Tables.Scanned (t : Tables) : Prop where
  read : ∀ name m, t.module? name = some m → ∃ text path, Source.readModule text path = some m
  files : ∀ name m, t.module? name = some m → '\n' ∉ Path.baseName m.file

namespace Source

/-! ## Names of instances -/

/-- Whatever the text, the labels of the module read from it and of its instances are labels. -/
theorem isLabel_readModule {t path : Text} {m : Module} (h : readModule t path = some m) :
    IsLabel m.name ∧ ∀ i ∈ m.instances, IsLabel i.text := by
  refine ⟨.name (wellFormed_readModule h).name, fun i hi => ?_⟩
  simp only [readModule, Option.bind_eq_bind, Option.bind_eq_some_iff] at h
  obtain ⟨heading, -, hm⟩ := h
  obtain rfl := Option.some.inj hm
  obtain ⟨f, hf, rfl⟩ := List.mem_map.1 hi
  obtain ⟨o, -, -, -, rfl⟩ := exists_occurrence_of_mem hf
  exact .typed o.parts.name_identifier o.parts.type_identifier

end Source

namespace Hierarchy

open Node

variable {t : Tables}

/-- The label of the node can be told, and its file is that of a module of the index. -/
structure Drawn (t : Tables) (n : Node) : Prop where
  label : IsLabel n.label
  file : ∀ name, n.sign = .file name → ∃ k m, t.module? k = some m ∧ name = Path.baseName m.file

theorem drawn_ofInstance (depth : Nat) (above : List Text) {i : Instance} (h : IsLabel i.text) :
    Drawn t (ofInstance t depth above i) := by
  obtain ⟨-, he⟩ | ⟨m, -, ⟨-, he⟩ | ⟨-, he⟩⟩ := ofInstance_cases t depth above i <;> rw [he] <;>
    exact ⟨h, fun name hname => by cases hname⟩

theorem forestPreorder_eq_flatMap (level : Nat) (ns : List Node) :
    forestPreorder level ns = ns.flatMap (preorder level) := by
  induction ns with
  | nil => rfl
  | cons n ns ih => rw [forestPreorder, ih, List.flatMap_cons]

variable (hread : ∀ name m, t.module? name = some m → ∃ text path,
  Source.readModule text path = some m)
include hread

theorem drawn_of_mem_unfold : ∀ {depth level : Nat} {above : List Text} {k : Text} {m : Module},
    t.module? k = some m → ∀ p ∈ forestPreorder level (unfold t depth above m), Drawn t p.2 := by
  intro depth
  induction depth with
  | zero =>
    intro level above k m _ p hp
    cases hp
  | succ depth ih =>
    intro level above k m hm p hp
    obtain ⟨_, _, hmodule⟩ := hread k m hm
    rw [unfold_succ, forestPreorder_eq_flatMap, List.mem_flatMap] at hp
    obtain ⟨n, hn, hp⟩ := hp
    obtain ⟨i, hi, rfl⟩ := List.mem_map.1 hn
    rw [preorder_eq, List.mem_cons] at hp
    rcases hp with rfl | hp
    · exact drawn_ofInstance depth above ((Source.isLabel_readModule hmodule).2 i hi)
    · obtain ⟨-, he⟩ | ⟨m', hm', ⟨-, he⟩ | ⟨-, he⟩⟩ := ofInstance_cases t depth above i <;>
        rw [he] at hp
      · cases hp
      · cases hp
      · exact ih hm' p hp

theorem drawn_of_mem_forest {top : Option Text} {depth : Nat} :
    ∀ p ∈ forestPreorder 0 (forest t top depth), Drawn t p.2 := by
  have hroots : ∀ ms : List Module, (∀ m ∈ ms, ∃ k, t.module? k = some m) →
      ∀ p ∈ forestPreorder 0 (ms.map (ofModule t depth)), Drawn t p.2 := by
    intro ms hms p hp
    rw [forestPreorder_eq_flatMap, List.mem_flatMap] at hp
    obtain ⟨n, hn, hp⟩ := hp
    obtain ⟨m, hm, rfl⟩ := List.mem_map.1 hn
    obtain ⟨k, hk⟩ := hms m hm
    obtain ⟨_, _, hmodule⟩ := hread k m hk
    rw [preorder_eq, List.mem_cons] at hp
    rcases hp with rfl | hp
    · refine ⟨(Source.isLabel_readModule hmodule).1, fun name hname => ⟨k, m, hk, ?_⟩⟩
      cases hname
      rfl
    · exact drawn_of_mem_unfold hread hk p hp
  cases top with
  | some name => exact hroots _ fun m hm => ⟨name, Option.mem_toList.1 hm⟩
  | none =>
    refine hroots _ fun m hm => ?_
    obtain ⟨name, -, hname⟩ := List.mem_filterMap.1 hm
    exact ⟨name, hname⟩

end Hierarchy

/-! ## The modules of an index -/

namespace Session

/-- What is known of all modules that the reader gives is known of those that are under way, and of
those that were recorded. -/
structure Stocks (Q : Module → Prop) (s : Session) : Prop where
  reader : ∀ t path m, s.index.strategy.readModule t path = .ok (some m) → Q m
  updates : ∀ u ∈ s.updates, ∀ m, u.stage = .parsed (.found m) → Q m
  recorded : ∃ log, s.Tells log ∧ ∀ path m, .read path m ∈ log → Q m

theorem lasting_stocks (Q : Module → Prop) : Lasting (Stocks Q) where
  act {s} h a := by
    obtain ⟨log, htells, hlog⟩ := h.recorded
    refine ⟨by rw [strategy_act]; exact h.reader, fun u hu m hm => ?_,
      ⟨_, tells_act htells a, fun path m hread => ?_⟩⟩
    · rcases found_of_mem_act htells.booked hu hm with hu | ⟨t, ht⟩
      · exact h.updates u hu m hm
      · exact h.reader t u.path m ht
    · rcases List.mem_append.1 hread with hread | hread
      · exact hlog path m hread
      · rcases found_of_mem_changesOf hread with ⟨u, hu, -, hs⟩ | ⟨t, ht⟩
        · exact h.updates u hu m hs
        · exact h.reader t path m ht
  say {s} h notices := by
    obtain ⟨log, htells, hlog⟩ := h.recorded
    exact ⟨h.reader, h.updates,
      ⟨log, ⟨htells.booked.of_same rfl rfl le_rfl, htells.keeps, htells.own, htells.shows⟩, hlog⟩⟩

/-- In every session that comes of an empty one, what is known of all modules that the reader gives
is known of the modules of the index. -/
theorem Reachable.of_reader {Q : Module → Prop} {s₀ s : Session} (h₀ : s₀.Fresh)
    (hreader : ∀ t path m, s₀.index.strategy.readModule t path = .ok (some m) → Q m)
    (hs : Reachable s₀ s) (name : Text) (m : Module) (hm : s.index.tables.module? name = some m) :
    Q m := by
  have hstart : Stocks Q s₀ :=
    ⟨hreader, by simp [h₀.idle.updates], ⟨[], h₀.tells, by simp⟩⟩
  obtain ⟨log, htells, hlog⟩ := (hs.keeps (lasting_stocks Q) hstart).recorded
  have hwinner := htells.shows.module name
  rw [Tables.module?, hwinner, Option.map_eq_some_iff] at hm
  obtain ⟨e, he, rfl⟩ := hm
  exact hlog e.1 e.2 (Live.read_mem_of_mem (Live.mem_of_winner he).1)

end Session

/-! ## Reading back -/

namespace Hierarchy

open Node

section Scanned

variable {t : Tables} (ht : t.Scanned) (top : Option Text) (depth : Nat)
include ht

theorem isLabel_of_mem_forest :
    ∀ p ∈ forestPreorder 0 (forest t top depth), IsLabel (row p).label :=
  fun p hp => (drawn_of_mem_forest ht.read p hp).label

theorem ne_nil_of_mem_forest : ∀ l ∈ (forestPreorder 0 (forest t top depth)).map
    (fun p => p.2.line usualIndent p.1), l ≠ [] := by
  intro l hl
  obtain ⟨p, hp, rfl⟩ := List.mem_map.1 hl
  obtain ⟨c, r, hlabel, -⟩ := (isLabel_of_mem_forest ht top depth p hp).exists_cons
  rw [line_eq, Row.line, hlabel]
  simp

/-- A line break in a line is in the name of the file of a module. -/
theorem exists_file_of_isLineBreak {l : Text} (hl : l ∈ (forestPreorder 0 (forest t top depth)).map
    fun p => p.2.line usualIndent p.1) {c : Char} (hc : c ∈ l) (hb : isLineBreak c = true) :
    ∃ name m, t.module? name = some m ∧ c ∈ Path.baseName m.file := by
  obtain ⟨p, hp, rfl⟩ := List.mem_map.1 hl
  have hdrawn := drawn_of_mem_forest ht.read p hp
  rw [line_eq] at hc
  obtain ⟨file, hfile, hmem⟩ := Row.mem_file_of_isLineBreak (r := row p) hdrawn.label hc hb
  obtain ⟨name, m, hm, rfl⟩ := hdrawn.file file hfile
  exact ⟨name, m, hm, hmem⟩

theorem linesOf_render : linesOf (render usualIndent (forest t top depth)) =
    (forestPreorder 0 (forest t top depth)).map fun p => p.2.line usualIndent p.1 := by
  have hrender : render usualIndent (forest t top depth) = joinWith ['\n']
      ((forestPreorder 0 (forest t top depth)).map fun p => p.2.line usualIndent p.1) := by
    rw [render, forestLines_eq]
    rfl
  rw [hrender]
  refine linesOf_joinWith (ne_nil_of_mem_forest ht top depth) fun l hl hfeed => ?_
  obtain ⟨name, m, hm, hmem⟩ := exists_file_of_isLineBreak ht top depth hl hfeed rfl
  exact ht.files name m hm hmem

theorem map_read_linesOf : (linesOf (render usualIndent (forest t top depth))).map Row.read =
    (forestPreorder 0 (forest t top depth)).map row := by
  rw [linesOf_render ht, List.map_map]
  refine List.map_congr_left fun p hp => ?_
  rw [Function.comp_apply, line_eq, Row.read_line (isLabel_of_mem_forest ht top depth p hp)]

theorem outline_read_render : Outline.read (render usualIndent (forest t top depth)) =
    outlines (forest t top depth) := by
  rw [Outline.read, map_read_linesOf ht, Outline.ofRows_forestPreorder]

end Scanned

/-- The text of a forest has a line for each node, in preorder, and is empty for an empty forest
only. The lines are those between line feeds, and also those between any line breaks unless the name
of a file has one. The text alone gives the level, the label and the mark of every node, and so the
labels and marks of the trees: forests that differ in any of these have different texts. -/
theorem read_render {t : Tables} (ht : t.Scanned) (top : Option Text) (depth : Nat) :
    let nodes := forest t top depth
    let text := render usualIndent nodes
    (text = [] ↔ nodes = [])
      ∧ linesOf text = (forestPreorder 0 nodes).map (fun p => p.2.line usualIndent p.1)
      ∧ ((∀ name m, t.module? name = some m → ∀ c ∈ Path.baseName m.file, isLineBreak c = false) →
        Text.lines text = (forestPreorder 0 nodes).map fun p => p.2.line usualIndent p.1)
      ∧ (linesOf text).map Row.read = (forestPreorder 0 nodes).map row
      ∧ Outline.read text = outlines nodes
      ∧ ∀ (t' : Tables) (top' : Option Text) (depth' : Nat), t'.Scanned →
        render usualIndent (forest t' top' depth') = text →
          (forestPreorder 0 (forest t' top' depth')).map row = (forestPreorder 0 nodes).map row
            ∧ outlines (forest t' top' depth') = outlines nodes := by
  intro nodes text
  have hrows := map_read_linesOf ht top depth
  have htrees := outline_read_render ht top depth
  refine ⟨⟨fun h => ?_, fun h => ?_⟩, linesOf_render ht top depth, fun hbreak => ?_, hrows, htrees,
    fun t' top' depth' ht' h => ⟨?_, ?_⟩⟩
  · -- without a line there is no row, and so no tree
    have hnone : outlines nodes = [] := by
      rw [← htrees, show render usualIndent nodes = [] from h]
      rfl
    rcases hn : nodes with _ | ⟨n, ns⟩
    · rfl
    · rw [hn] at hnone
      cases hnone
  · rw [show text = render usualIndent nodes from rfl, h]
    rfl
  · rw [show text = render usualIndent nodes from rfl, render, forestLines_eq]
    refine lines_joinWith (ne_nil_of_mem_forest ht top depth) fun l hl c hc => ?_
    by_contra hb
    obtain ⟨name, m, hm, hmem⟩ :=
      exists_file_of_isLineBreak ht top depth hl hc (Bool.eq_true_of_not_eq_false hb)
    exact hb (by rw [hbreak name m hm c hmem])
  · rw [← map_read_linesOf ht' top' depth', h, hrows]
  · rw [← outline_read_render ht' top' depth', h, htrees]

end Hierarchy

namespace Session

open Hierarchy

/-- The modules of every session that scans its texts were read from texts. -/
theorem Reachable.read {s₀ s : Session} (h₀ : s₀.Fresh) (hscan : s₀.index.strategy = .scan)
    (hs : Reachable s₀ s) (name : Text) (m : Module) (hm : s.index.tables.module? name = some m) :
    ∃ text path, Source.readModule text path = some m := by
  refine hs.of_reader (Q := fun m => ∃ text path, Source.readModule text path = some m) h₀ ?_ name m
    hm
  rw [hscan]
  exact fun t path m hm => ⟨t, path, Except.ok.inj hm⟩

/-- The module at the root comes from a file whose name ends like a mark. -/
theorem read_render_circle :
    let s₀ : Session := { disk := ⟨[], "/p"⟩, index := { root := "/p" } }
    let s := s₀.run [.updateText "/p/a  (black box)" "module a; b u (); ip v (); endmodule",
      .updateText "/p/b.v" "module b; a w (); endmodule"]
    let nodes := forest s.index.tables (some "a") usualDepth
    create ⟨[], "/p"⟩ "/p" {} = .ok s₀ ∧ Reachable s₀ s ∧ s.index.tables.Scanned
      ∧ render usualIndent nodes = "a  [a  (black box)]\n    u : b\n" ++
        "        w : a  (recursive)\n    v : ip  (black box)"
      ∧ (linesOf (render usualIndent nodes)).map Row.read =
        (Node.forestPreorder 0 nodes).map Node.row
      ∧ Outline.read (render usualIndent nodes) = Node.outlines nodes := by
  intro s₀ s nodes
  have hcreate : create ⟨[], "/p"⟩ "/p" {} = .ok s₀ := rfl
  have hs : Reachable s₀ s := reachable_run .start _
  have hrun : (s.index.tables.modules.all fun e => !(Path.baseName e.2.file).contains '\n') = true
      ∧ render usualIndent nodes = "a  [a  (black box)]\n    u : b\n" ++
        "        w : a  (recursive)\n    v : ip  (black box)" := by
    decide +kernel
  have hscanned : s.index.tables.Scanned := by
    refine ⟨hs.read (fresh_create hcreate) rfl, fun name m hm => ?_⟩
    have hfile := List.all_eq_true.1 hrun.1 _ (Table.mem_of_get? hm)
    simpa using hfile
  obtain ⟨-, -, -, hrows, htrees, -⟩ := read_render hscanned (some "a") usualDepth
  exact ⟨hcreate, hs, hscanned, hrun.2, hrows, htrees⟩

end Session

end VerilogIndex
