import VerilogIndex.Proofs.CommentProtocol
import VerilogIndex.Proofs.PortOrder

/-!
# Tables of a page

A row of a table is one line, with a bar before, between and after its cells. Nothing is done to the
texts in the cells, so a line break in one of them makes two lines of the row, and a bar that
follows no backslash makes two cells of one. Therefore a table is well formed exactly if the texts
in it can stand in a cell (`wellFormedTable_iff`).

The names on a page that was made of a text are identifiers, and the types of its ports have no line
breaks; a default value may be any text. Main statement: `Page.tables_wellFormed_iff`. A default
value with a bar breaks its table (`Page.bar_breaks_table`).
-/

namespace VerilogIndex

open Text

/-! ## Numbers of lines -/

namespace Text

theorem linesFrom_ne_nil {d : Char} (hd : isLineBreak d = false) : ∀ (t : Text) (returned : Bool)
    (begun : Text), linesFrom returned begun (t ++ [d]) ≠ []
  | [], returned, begun => by
    have hfeed : d ≠ '\n' := by
      rintro rfl
      cases hd
    simp [linesFrom, hd, hfeed]
  | c :: t, returned, begun => by
    rw [List.cons_append, linesFrom]
    split_ifs
    · exact linesFrom_ne_nil hd t _ _
    · simp
    · exact linesFrom_ne_nil hd t _ _

/-- A text that does not end with a line break is one line exactly if it has none. -/
theorem length_lines_eq_one_iff {d : Char} (hd : isLineBreak d = false) {t : Text} :
    (lines (t ++ [d])).length = 1 ↔ ∀ c ∈ t, isLineBreak c = false := by
  suffices h : ∀ begun : Text, (linesFrom false begun (t ++ [d])).length = 1 ↔
      ∀ c ∈ t, isLineBreak c = false from h []
  induction t with
  | nil => simp [linesFrom, hd]
  | cons c t ih =>
    intro begun
    rw [List.cons_append, linesFrom, Bool.false_and, if_neg (by simp)]
    rcases hc : isLineBreak c with _ | _
    · simp [ih, hc]
    · simp [hc, linesFrom_ne_nil hd t (c == '\r') []]

/-- Lines that end in no line break can be read one by one. -/
theorem lines_joinWith_flatMap {d : Char} (hd : isLineBreak d = false) : ∀ {ls : List Text},
    (∀ l ∈ ls, ∃ a, l = a ++ [d]) → lines (joinWith ['\n'] ls) = ls.flatMap lines
  | [], _ => rfl
  | [l], _ => by simp [joinWith]
  | l :: k :: ls, h => by
    obtain ⟨a, rfl⟩ := h l List.mem_cons_self
    rw [joinWith, List.append_assoc, List.singleton_append, lines_append _ hd,
      lines_joinWith_flatMap hd fun j hj => h j (List.mem_cons_of_mem _ hj)]
    rfl

end Text

/-- If something comes of every member, and of all of them no more than there are members, then one
thing comes of each. -/
theorem length_eq_one_of_flatMap {α β : Type} {f : α → List β} {l : List α}
    (hf : ∀ a ∈ l, 0 < (f a).length) (h : (l.flatMap f).length ≤ l.length) :
    ∀ a ∈ l, (f a).length = 1 := by
  induction l with
  | nil => simp
  | cons a l ih =>
    obtain ⟨ha, hl⟩ := List.forall_mem_cons.1 hf
    have hleast : l.length ≤ (l.flatMap f).length := by
      rw [List.length_flatMap, ← List.length_map (fun a => (f a).length)]
      exact List.length_le_sum_of_one_le _ (List.forall_mem_map.2 hl)
    rw [List.flatMap_cons, List.length_append, List.length_cons] at h
    exact List.forall_mem_cons.2 ⟨by omega, ih hl (by omega)⟩

namespace Generate

/-! ## Cells -/

/-- The pieces of a line between the bars that follow no backslash; `escaped` right after one. -/
def cellsFrom : (escaped : Bool) → Text → List Text
  | _, [] => [[]]
  | escaped, c :: r =>
    if c = '|' ∧ escaped = false then [] :: cellsFrom false r
    else (cellsFrom (c == '\\') r).modifyHead (c :: ·)

/-- The cells of a line of a table, with what stands before the first bar and after the last. -/
def cells (line : Text) : List Text := cellsFrom false line

/-- The number of bars that follow no backslash. -/
def bars : (escaped : Bool) → Text → Nat
  | _, [] => 0
  | escaped, c :: r => (if c = '|' ∧ escaped = false then 1 else 0) + bars (c == '\\') r

theorem length_cellsFrom : ∀ (t : Text) (escaped : Bool),
    (cellsFrom escaped t).length = bars escaped t + 1
  | [], _ => rfl
  | c :: t, escaped => by
    rw [cellsFrom, bars]
    split_ifs with hc
    · rw [List.length_cons, length_cellsFrom t, hc.1, Nat.add_comm 1]
      rfl
    · rw [List.length_modifyHead, length_cellsFrom t, Nat.zero_add]

/-- A character that is neither a bar nor a backslash parts a text. -/
theorem bars_append {d : Char} (hbar : d ≠ '|') (hslash : d ≠ '\\') (b : Text) :
    ∀ (a : Text) (escaped : Bool), bars escaped (a ++ d :: b) = bars escaped a + bars false b
  | [], escaped => by
    have hd : (d == '\\') = false := by simpa using hslash
    simp [bars, hbar, hd]
  | c :: a, escaped => by
    rw [List.cons_append, bars, bars, bars_append hbar hslash b a, Nat.add_assoc]

theorem bars_of_not_mem {t : Text} (h : '|' ∉ t) : ∀ escaped, bars escaped t = 0 := by
  induction t with
  | nil => exact fun _ => rfl
  | cons c t ih =>
    intro escaped
    rw [List.mem_cons, not_or] at h
    simp [bars, Ne.symm h.1, ih h.2]

theorem bars_eq_zero_iff : ∀ {t : Text} {escaped : Bool}, bars escaped t = 0 ↔
    ∀ a b, t = a ++ '|' :: b → (a.getLast?.map (· == '\\')).getD escaped = true
  | [], escaped => by simp [bars]
  | c :: t, escaped => by
    have hlast : ∀ a : Text, ((c :: a).getLast?.map (· == '\\')).getD escaped =
        (a.getLast?.map (· == '\\')).getD (c == '\\') := by
      intro a
      rcases List.eq_nil_or_concat' a with rfl | ⟨a, d, rfl⟩
      · rfl
      · rw [← List.cons_append, List.getLast?_concat, List.getLast?_concat]
        rfl
    rw [bars, Nat.add_eq_zero_iff, bars_eq_zero_iff]
    constructor
    · rintro ⟨hc, ht⟩ (_ | ⟨d, a⟩) b heq
      · obtain ⟨rfl, rfl⟩ := List.cons.inj heq
        simpa using hc
      · obtain ⟨rfl, rfl⟩ := List.cons.inj heq
        rw [hlast]
        exact ht a b rfl
    · intro h
      refine ⟨?_, fun a b heq => ?_⟩
      · rw [ite_eq_right_iff]
        rintro ⟨rfl, rfl⟩
        exact absurd (h [] t rfl) (by simp)
      · rw [← hlast]
        exact h (c :: a) b (by rw [heq, List.cons_append])

/-- The text can stand in a cell: it has no line break, and every bar in it follows a backslash. -/
structure FitsCell (t : Text) : Prop where
  line : ∀ c ∈ t, isLineBreak c = false
  bars : ∀ a b, t = a ++ '|' :: b → a.getLast? = some '\\'

theorem fitsCell_iff {t : Text} :
    FitsCell t ↔ (∀ c ∈ t, isLineBreak c = false) ∧ bars false t = 0 := by
  have hlast : ∀ o : Option Char, (o.map (· == '\\')).getD false = true ↔ o = some '\\' := by
    rintro (_ | c) <;> simp
  rw [bars_eq_zero_iff]
  simp only [hlast]
  exact ⟨fun h => ⟨h.1, h.2⟩, fun h => ⟨h.1, h.2⟩⟩

/-! ## Rows -/

theorem bars_open (t : Text) : bars false ('|' :: ' ' :: t) = 1 + bars false t := by
  simp [bars]

theorem bars_cells : ∀ {cs : List Text}, cs ≠ [] →
    bars false (joinWith " | " cs ++ " |") = (cs.map (bars false)).sum + cs.length
  | [c], _ => by
    rw [joinWith, List.map_singleton, List.sum_singleton]
    exact bars_append (d := ' ') (by decide) (by decide) ['|'] c false
  | c :: k :: cs, _ => by
    have ih := bars_cells (List.cons_ne_nil k cs)
    have hc := bars_append (d := ' ') (by decide) (by decide)
      ('|' :: ' ' :: (joinWith " | " (k :: cs) ++ " |")) c false
    have hline : joinWith " | " (c :: k :: cs) ++ " |" =
        c ++ ' ' :: '|' :: ' ' :: (joinWith " | " (k :: cs) ++ " |") := by
      rw [joinWith, List.append_assoc, List.append_assoc]
      rfl
    rw [hline, hc, bars_open, ih]
    simp only [List.map_cons, List.sum_cons, List.length_cons]
    omega

theorem length_cells_tableRow {cs : List Text} (h : cs ≠ []) :
    (cells (tableRow cs)).length = (cs.map (bars false)).sum + cs.length + 2 := by
  have hline : tableRow cs = '|' :: ' ' :: (joinWith " | " cs ++ " |") := by
    rw [tableRow, List.append_assoc]
    rfl
  rw [cells, length_cellsFrom, hline, bars_open, bars_cells h]
  omega

/-- The line below headings. -/
def ruleLine (headers : List Text) : Text :=
  "|" ++ joinWith "|" (headers.map fun _ => (" :--- " : Text)) ++ "|"

theorem bars_rules : ∀ {cs : List Text}, cs ≠ [] →
    bars false (joinWith "|" (cs.map fun _ => (" :--- " : Text)) ++ "|") = cs.length
  | [_], _ => rfl
  | c :: k :: cs, _ => by
    have ih := bars_rules (List.cons_ne_nil k cs)
    have hbar : ∀ t : Text, bars false (" :--- |".toList ++ t) = bars false t + 1 := fun t => by
      simp [bars, Nat.add_comm]
    have hline : joinWith "|" ((c :: k :: cs).map fun _ => (" :--- " : Text)) ++ "|" =
        " :--- |" ++ (joinWith "|" ((k :: cs).map fun _ => (" :--- " : Text)) ++ "|") := by
      simp only [List.map_cons, joinWith, List.append_assoc]
      rfl
    rw [hline, hbar, ih]
    rfl

theorem length_cells_ruleLine {cs : List Text} (h : cs ≠ []) :
    (cells (ruleLine cs)).length = cs.length + 2 := by
  have hbar : ∀ t : Text, bars false ("|".toList ++ t) = bars false t + 1 := fun t =>
    Nat.add_comm 1 _
  rw [cells, length_cellsFrom, ruleLine, List.append_assoc, hbar, bars_rules h]

theorem tableRow_eq (cs : List Text) :
    tableRow cs = ("| " ++ joinWith " | " cs ++ " ") ++ ['|'] := by
  simp [tableRow]

theorem forall_mem_row {cs : List Text} :
    (∀ c ∈ "| ".toList ++ joinWith " | " cs ++ " ", isLineBreak c = false) ↔
      ∀ t ∈ cs, ∀ c ∈ t, isLineBreak c = false := by
  rw [List.forall_mem_append, List.forall_mem_append, forall_mem_joinWith (by simp [isLineBreak])]
  simp [isLineBreak]

/-- A row is one line exactly if every cell is. -/
theorem length_lines_tableRow {cs : List Text} :
    (lines (tableRow cs)).length = 1 ↔ ∀ t ∈ cs, ∀ c ∈ t, isLineBreak c = false := by
  rw [tableRow_eq, length_lines_eq_one_iff rfl, forall_mem_row]

theorem length_lines_tableRow_pos (cs : List Text) : 0 < (lines (tableRow cs)).length := by
  rw [tableRow_eq, List.length_pos_iff]
  exact linesFrom_ne_nil rfl _ _ _

theorem lines_tableRow {cs : List Text} (h : ∀ t ∈ cs, ∀ c ∈ t, isLineBreak c = false) :
    lines (tableRow cs) = [tableRow cs] := by
  rw [tableRow_eq]
  exact lines_of_not_isLineBreak (by simp)
    (List.forall_mem_append.2 ⟨forall_mem_row.2 h, List.forall_mem_singleton.2 rfl⟩)

theorem lines_table (headers : List Text) (rows : List (List Text)) :
    lines (joinWith ['\n'] (table headers rows)) =
      lines (tableRow headers) ++ ruleLine headers :: rows.flatMap fun r => lines (tableRow r) := by
  have hrule : ruleLine headers = ("|" ++ joinWith "|" (headers.map fun _ => (" :--- " : Text)))
      ++ ['|'] := rfl
  have hlast : ∀ l ∈ table headers rows, ∃ a, l = a ++ ['|'] := by
    rw [table, List.forall_mem_cons, List.forall_mem_cons, List.forall_mem_map]
    exact ⟨⟨_, tableRow_eq headers⟩, ⟨_, hrule⟩, fun r _ => ⟨_, tableRow_eq r⟩⟩
  have hbreak : ∀ c ∈ ruleLine headers, isLineBreak c = false := by
    rw [ruleLine, List.forall_mem_append, List.forall_mem_append,
      forall_mem_joinWith (by simp [isLineBreak]), List.forall_mem_map]
    simp [isLineBreak]
  rw [lines_joinWith_flatMap rfl hlast, table, List.flatMap_cons, List.flatMap_cons,
    List.flatMap_map, ← ruleLine, lines_of_not_isLineBreak (by simp [ruleLine]) hbreak]
  rfl

/-- A row has as many cells as it should exactly if no cell has a bar of its own. -/
theorem length_cells_tableRow_iff {cs : List Text} (h : cs ≠ []) :
    (cells (tableRow cs)).length = cs.length + 2 ↔ ∀ t ∈ cs, bars false t = 0 := by
  rw [length_cells_tableRow h, ← List.forall_mem_map (P := (· = 0)), ← List.sum_eq_zero_iff]
  omega

/-! ## Tables -/

/-- The text has a line for the headings, one below it and `n` more, all with as many cells as the
headings have. -/
def WellFormedTable (n : Nat) (t : Text) : Prop :=
  (lines t).length = n + 2 ∧ ∀ l ∈ lines t, (cells l).length = (cells ((lines t).headD [])).length

instance (n : Nat) (t : Text) : Decidable (WellFormedTable n t) :=
  inferInstanceAs (Decidable (_ ∧ _))

theorem wellFormedTable_iff {headers : List Text} (hne : headers ≠ [])
    (hheaders : ∀ h ∈ headers, FitsCell h) (rows : List (List Text))
    (hrows : ∀ r ∈ rows, r.length = headers.length) :
    WellFormedTable rows.length (joinWith ['\n'] (table headers rows)) ↔
      ∀ r ∈ rows, ∀ t ∈ r, FitsCell t := by
  have hlines : lines (joinWith ['\n'] (table headers rows)) =
      tableRow headers :: ruleLine headers :: rows.flatMap fun r => lines (tableRow r) := by
    rw [lines_table, lines_tableRow fun t ht => (hheaders t ht).line]
    rfl
  have hhead : (cells (tableRow headers)).length = headers.length + 2 :=
    (length_cells_tableRow_iff hne).2 fun h hh => (fitsCell_iff.1 (hheaders h hh)).2
  have hcells : ∀ r ∈ rows, ((cells (tableRow r)).length = headers.length + 2 ↔
      ∀ t ∈ r, bars false t = 0) := fun r hr => by
    rw [← hrows r hr]
    refine length_cells_tableRow_iff fun h => hne (List.length_eq_zero_iff.1 ?_)
    rw [← hrows r hr, h, List.length_nil]
  rw [WellFormedTable, hlines, List.headD_cons, hhead]
  constructor
  · rintro ⟨hlength, hwidth⟩ r hr
    have hone : (lines (tableRow r)).length = 1 := by
      refine length_eq_one_of_flatMap (fun r _ => length_lines_tableRow_pos r) ?_ r hr
      simpa using hlength.le
    have hbreaks := length_lines_tableRow.1 hone
    have hrow : tableRow r ∈ rows.flatMap fun r => lines (tableRow r) :=
      List.mem_flatMap.2 ⟨r, hr, by rw [lines_tableRow hbreaks]; exact List.mem_singleton_self _⟩
    have hbars := (hcells r hr).1 (hwidth _ (by simp [hrow]))
    exact fun t ht => fitsCell_iff.2 ⟨hbreaks t ht, hbars t ht⟩
  · intro h
    have hall : (rows.flatMap fun r => lines (tableRow r)) = rows.map tableRow := by
      rw [List.flatMap_congr fun r hr => lines_tableRow fun t ht => (h r hr t ht).line]
      exact List.map_eq_flatMap.symm
    rw [hall]
    refine ⟨by simp, ?_⟩
    rw [List.forall_mem_cons, List.forall_mem_cons, List.forall_mem_map]
    exact ⟨hhead, length_cells_ruleLine hne, fun r hr =>
      (hcells r hr).2 fun t ht => (fitsCell_iff.1 (h r hr t ht)).2⟩

/-! ## Pages -/

/-- The text has neither a line break nor a bar. -/
def isPlainCell (t : Text) : Bool := t.all fun c => !isLineBreak c && c != '|'

theorem FitsCell.of_isPlainCell {t : Text} (h : isPlainCell t = true) : FitsCell t := by
  simp only [isPlainCell, List.all_eq_true, Bool.and_eq_true, Bool.not_eq_true', bne_iff_ne] at h
  have hbar : '|' ∉ t := fun hmem => (h _ hmem).2 rfl
  exact fitsCell_iff.2 ⟨fun c hc => (h c hc).1, bars_of_not_mem hbar false⟩

theorem isPlainCell_of_isIdentifier {t : Text} (h : Source.isIdentifier t = true) :
    isPlainCell t = true := by
  refine List.all_eq_true.2 fun c hc => ?_
  have hword := isWord_of_isIdentifier h c hc
  have hbar : c ≠ '|' := by
    rintro rfl
    exact absurd hword (by decide +kernel)
  simp [not_isLineBreak_of_isWord hword, hbar]

theorem fitsCell_code {t : Text} : FitsCell (code t) ↔ FitsCell t := by
  have hcode : code t = '\x60' :: (t ++ ['\x60']) := rfl
  have hbars : bars false (code t) = bars false t := calc
    bars false (code t) = bars false [] + bars false (t ++ ['\x60']) :=
      bars_append (by decide) (by decide) _ [] false
    _ = bars false t := by
      rw [bars_append (by decide) (by decide)]
      simp [bars]
  rw [fitsCell_iff, fitsCell_iff, hbars, hcode, List.forall_mem_cons, List.forall_mem_append]
  simp [isLineBreak]

namespace Page

/-- The table of parameters. -/
def parameterTable (ps : List Parameter) : Text :=
  joinWith ['\n'] (table ["Name", "Default Value", "Description"]
    (ps.map fun p => [code p.name, code p.value, "-"]))

/-- The table of ports. -/
def portTable (ports : List Port) : Text :=
  joinWith ['\n'] (table ["Port Name", "Direction", "Type", "Description"] (ports.map portRow))

theorem wellFormed_parameterTable_iff {ps : List Parameter}
    (h : ∀ p ∈ ps, Source.isIdentifier p.name = true) :
    WellFormedTable ps.length (parameterTable ps) ↔ ∀ p ∈ ps, FitsCell p.value := by
  have hheaders : (["Name", "Default Value", "Description"] : List Text).all isPlainCell =
      true := by
    decide
  have hiff := wellFormedTable_iff (List.cons_ne_nil _ _)
    (fun t ht => .of_isPlainCell (List.all_eq_true.1 hheaders t ht))
    (ps.map fun p => [code p.name, code p.value, "-"]) (by simp)
  rw [List.length_map, List.forall_mem_map] at hiff
  refine hiff.trans (forall₂_congr fun p hp => ?_)
  rw [List.forall_mem_cons, List.forall_mem_cons, List.forall_mem_singleton, fitsCell_code,
    fitsCell_code]
  exact ⟨fun hrow => hrow.2.1, fun hvalue =>
    ⟨.of_isPlainCell (isPlainCell_of_isIdentifier (h p hp)), hvalue, .of_isPlainCell rfl⟩⟩

theorem wellFormed_portTable_iff {ports : List Port} (h : ∀ p ∈ ports, p.WellFormed) :
    WellFormedTable ports.length (portTable ports) ↔ ∀ p ∈ ports, FitsCell p.type := by
  have hheaders : (["Port Name", "Direction", "Type", "Description"] : List Text).all isPlainCell =
      true := by
    decide
  have hiff := wellFormedTable_iff (List.cons_ne_nil _ _)
    (fun t ht => .of_isPlainCell (List.all_eq_true.1 hheaders t ht)) (ports.map portRow)
    (by simp [portRow])
  rw [List.length_map, List.forall_mem_map] at hiff
  refine hiff.trans (forall₂_congr fun p hp => ?_)
  have hname : FitsCell ("**" ++ p.name ++ "**") := by
    refine .of_isPlainCell ?_
    rw [isPlainCell, List.all_append, List.all_append, ← isPlainCell, ← isPlainCell,
      isPlainCell_of_isIdentifier (h p hp).name]
    rfl
  have hdirection : FitsCell p.direction.text := by
    cases p.direction <;> exact .of_isPlainCell rfl
  have htype : FitsCell (if p.type.isEmpty then [] else code p.type) ↔ FitsCell p.type := by
    split_ifs with hempty
    · rw [List.isEmpty_iff.1 hempty]
    · exact fitsCell_code
  rw [portRow, List.forall_mem_cons, List.forall_mem_cons, List.forall_mem_cons,
    List.forall_mem_singleton, htype]
  exact ⟨fun hrow => hrow.2.2.1, fun h => ⟨hname, hdirection, h, .of_isPlainCell rfl⟩⟩

/-- The lines of a page above the tables. -/
def opening (page : Page) (today : Text) (m : Module) : List Text :=
  ["# Module: " ++ m.name, "", "**File:** " ++ code (Path.baseName m.file) ++ "  ",
    "**Date:** " ++ page.date.getD today, ""]

def parameterSection (ps : List Parameter) : Text :=
  if ps = [] then [] else "## Parameters\n\n" ++ parameterTable ps ++ "\n\n"

def portSection (ports : List Port) : Text :=
  if ports = [] then "*(No ports detected)*\n\n"
  else "## Interface\n\n" ++ portTable ports ++ "\n\n"

/-- The lines of a page below the tables. -/
def closing (m : Module) : List Text :=
  ["## Example Instantiation", "", "```verilog", ({} : Template).render m, "```"]

/-- A title and a table below it, each with an empty line after it. -/
theorem joined_section (title : Text) {ls : List Text} (h : ls ≠ []) :
    joined (List.flatten [[title, []], ls, [[]]]) =
      title ++ "\n\n" ++ joinWith ['\n'] ls ++ "\n\n" := by
  have htable := joinWith_feed h
  simp only [joined, List.flatten_cons, List.flatten_nil, List.flatMap_append] at htable ⊢
  rw [← htable]
  simp

theorem joined_parameterPart (ps : List Parameter) :
    joined (parameterPart ps) = parameterSection ps := by
  rcases ps with _ | ⟨p, ps⟩
  · rfl
  · exact joined_section "## Parameters" (List.cons_ne_nil _ _)

theorem joined_portPart (ports : List Port) : joined (portPart ports) = portSection ports := by
  rcases ports with _ | ⟨p, ports⟩
  · rfl
  · exact joined_section "## Interface" (List.cons_ne_nil _ _)

theorem render_eq {page : Page} {m : Module} {ports : List Port}
    (h : page.naming.sortPorts m.ports = .ok ports) (today : Text) :
    page.render today m = .ok (joined (page.opening today m) ++ parameterSection m.parameters
      ++ portSection ports ++ joined (closing m)) := by
  have hfeed : ∀ {ls : List Text}, ls ≠ [] → joinWith "\n" ls ++ "\n" = joined ls := joinWith_feed
  rw [render, h]
  simp only [bind, Except.bind, pure, Except.pure]
  rw [hfeed (by simp), ← joined_parameterPart, ← joined_portPart]
  simp only [joined, List.flatten_cons, List.flatten_nil, List.flatMap_append, List.append_nil,
    List.append_assoc, opening, closing]

/-- A page that was made of a text has a table of its parameters below one title, and a table of its
ports in sorted order below the next, unless it has none of them. The table of parameters has one
line for each parameter, and in every line as many cells as in that of the headings, exactly if no
default value has a line break or a bar that follows no backslash; and so has the table of ports,
exactly if no type has such a bar. -/
theorem tables_wellFormed_iff (page : Page) (hpage : page.naming.Readable) (today : Text)
    {t path : Text} {m : Module} (hm : Source.readModule t path = some m) :
    ∃ ports, page.naming.sortPorts m.ports = .ok ports
      ∧ page.render today m = .ok (joined (page.opening today m)
        ++ parameterSection m.parameters ++ portSection ports ++ joined (closing m))
      ∧ (WellFormedTable m.parameters.length (parameterTable m.parameters) ↔
        ∀ p ∈ m.parameters, FitsCell p.value)
      ∧ (WellFormedTable m.ports.length (portTable ports) ↔
        ∀ p ∈ m.ports, ∀ a b, p.type = a ++ '|' :: b → a.getLast? = some '\\') := by
  have hwell := Source.wellFormed_readModule hm
  obtain ⟨ports, hports⟩ := hpage.exists_sortPorts m.ports
  obtain ⟨⟨clock, hclock⟩, reset, hreset⟩ := hpage
  have hperm := page.naming.perm_sortPorts hclock hreset hports
  refine ⟨ports, hports, render_eq hports today, wellFormed_parameterTable_iff hwell.parameters, ?_⟩
  have hiff := wellFormed_portTable_iff fun p hp => hwell.ports p (hperm.subset hp)
  rw [hperm.length_eq] at hiff
  refine hiff.trans ⟨fun h p hp => (h p (hperm.symm.subset hp)).bars, fun h p hp => ?_⟩
  have hp' := hperm.subset hp
  exact ⟨not_isLineBreak_of_neat (hwell.ports p hp').type, h p hp'⟩

/-- A default value with a bar that follows a backslash. -/
theorem tables_wellFormed_iff_escaped :
    let t : Text := "module m #(parameter W = 8, M = \"a\\|b\") (output [W-1:0] q, input clk);"
    ∃ m ports, Source.readModule t [] = some m
      ∧ m.parameters = [⟨"W", "8"⟩, ⟨"M", "\"a\\|b\""⟩] ∧ m.ports.length = 2
      ∧ ({} : Page).naming.sortPorts m.ports = .ok ports
      ∧ WellFormedTable 2 (parameterTable m.parameters) ∧ WellFormedTable 2 (portTable ports) := by
  intro t
  have hread : (Source.readModule t []).any (fun m =>
      m.parameters = [⟨"W", "8"⟩, ⟨"M", "\"a\\|b\""⟩]
      ∧ m.ports = [⟨"q", .output, "[W-1:0]"⟩, ⟨"clk", .input, []⟩]) = true := by
    decide +kernel
  obtain ⟨m, hm, hcheck⟩ := (Option.any_eq_true _ _).1 hread
  obtain ⟨hparameters, hports⟩ := of_decide_eq_true hcheck
  have hline : "\"a\\|b\"".toList.all (fun c => !isLineBreak c) = true := rfl
  simp only [List.all_eq_true, Bool.not_eq_true'] at hline
  obtain ⟨ports, hsorted, -, hparameterTable, hportTable⟩ :=
    tables_wellFormed_iff {} Config.readable_standard [] hm
  rw [hparameters, List.forall_mem_cons, List.forall_mem_singleton] at hparameterTable
  rw [hports] at hportTable
  have htypes : ∀ p ∈ [(⟨"q", .output, "[W-1:0]"⟩ : Port), ⟨"clk", .input, []⟩],
      FitsCell p.type := by
    rw [List.forall_mem_cons, List.forall_mem_singleton]
    exact ⟨.of_isPlainCell rfl, .of_isPlainCell rfl⟩
  refine ⟨m, ports, hm, hparameters, by rw [hports]; rfl, hsorted, ?_, ?_⟩
  · rw [hparameters]
    exact hparameterTable.2 ⟨.of_isPlainCell rfl, fitsCell_iff.2 ⟨hline, rfl⟩⟩
  · exact hportTable.2 fun p hp => (htypes p hp).bars

/-- A bar in a default value is a cell too many. -/
theorem bar_breaks_table :
    let t : Text := "module m #(parameter A = 1 | 2) (input x);"
    (Source.readModule t []).any (fun m => m.parameters = [⟨"A", "1 | 2"⟩]
      ∧ ¬ WellFormedTable m.parameters.length (parameterTable m.parameters)) = true := by
  decide +kernel

end Page

end Generate

end VerilogIndex
