import VerilogIndex.Generate.Testbench
import VerilogIndex.Proofs.Items

/-!
# Names that a testbench declares

A testbench declares two constants and two signals of its own, a constant for each parameter and a
signal for each port other than the clock and the reset. What a line declares is read off the line
(`declared?`), so that the names can be told from the text alone (`declared_lines`).

The own names of a testbench are fixed, and nothing keeps a parameter or a port from having one of
them. So no name is declared twice if and only if none has (`nodup_declared_iff`); a port `clk` that
is not the first one whose name the clock pattern matches is declared beside the testbench's own
clock (`clk_declared_twice`).
-/

namespace VerilogIndex.Generate.Testbench

open Text Source

/-! ## Declarations -/

/-- The text after a range, if it starts with one. -/
def skipRange (t : Text) : Text :=
  if t.head? = some '[' then (t.dropWhile (· != ']')).tail else t

/-- The range that the text starts with, if it does. -/
def leadingRange (t : Text) : Text :=
  if t.head? = some '[' then t.takeWhile (· != ']') ++ [']'] else []

/-- The last word before the first `c`. -/
def wordBefore? (c : Char) (t : Text) : Option Text :=
  match cut c t with
  | (before, some _) => (words before).getLast?
  | (_, none) => none

/-- The name that a line declares: that of a constant stands before the equals sign, and that of a
signal between its range and the semicolon. -/
def declared? (line : Text) : Option Text :=
  match after? "    localparam " line with
  | some rest => wordBefore? '=' rest
  | none => (after? "    logic " line).bind fun rest => wordBefore? ';' (skipRange rest)

/-- The ports that have a signal of their own. -/
def otherPorts (clock reset : Text) (m : Module) : List Port :=
  m.ports.filter fun p => p.name != clock && p.name != reset

/-- The names that a testbench declares whatever the module is. -/
def ownNames : List Text := ["CLK_PERIOD", "TIMEOUT", "clk", "rst_n"]

/-- The names that a testbench declares, in order. -/
def declaredNames (clock reset : Text) (m : Module) : List Text :=
  ["CLK_PERIOD".toList, "TIMEOUT".toList] ++ m.parameters.map (·.name) ++
    ["clk".toList, "rst_n".toList] ++ (otherPorts clock reset m).map (·.name)

theorem words_name {g name g' : Text} (hg : Gap g) (hn : isIdentifier name = true) (hg' : Gap g') :
    words (g ++ (name ++ g')) = [name] := by
  have hname : ∀ c ∈ name, isBlank c = false := fun c hc =>
    not_isBlank_of_isWord (isWord_of_isIdentifier hn c hc)
  have hne : name.reverse ≠ [] := by simpa using ne_nil_of_isIdentifier hn
  rw [words, wordsFrom_nil_gap hg, wordsFrom_append hname, List.append_nil]
  rcases g' with _ | ⟨c, g'⟩
  · simp [wordsFrom, ne_nil_of_isIdentifier hn]
  · have hend := wordsFrom_gap hg' (by simp) hne []
    rw [List.append_nil] at hend
    rw [hend, List.reverse_reverse]
    rfl

/-- The marks up to which names are read. -/
def marks : Text := ['=', ';', '(', ')']

theorem not_isWord_of_mem_marks {c : Char} (h : c ∈ marks) :
    isBlank c = false ∧ isWord c = false := by
  simp only [marks, List.mem_cons, List.not_mem_nil, or_false] at h
  rcases h with rfl | rfl | rfl | rfl <;> decide +kernel

/-- A name between gaps is read up to a mark. -/
theorem wordBefore?_name {c : Char} (hmark : c ∈ marks) {g name g' : Text} (hg : Gap g)
    (hn : isIdentifier name = true) (hg' : Gap g') (r : Text) :
    wordBefore? c (g ++ (name ++ (g' ++ c :: r))) = some name := by
  obtain ⟨hblank, hword⟩ := not_isWord_of_mem_marks hmark
  have hgap : ∀ {g : Text}, Gap g → c ∉ g := fun hg hc => by
    rw [hg c hc] at hblank
    cases hblank
  have hname : c ∉ name := fun hc => by
    rw [isWord_of_isIdentifier hn c hc] at hword
    cases hword
  have hcut : cut c ((g ++ (name ++ g')) ++ c :: r) = (g ++ (name ++ g'), some r) :=
    cut_append (by simp [hgap hg, hname, hgap hg']) r
  simp only [List.append_assoc] at hcut
  rw [wordBefore?, hcut]
  simp only [words_name hg hn hg', List.getLast?_singleton]

theorem gap_space : Gap [' '] := by simp [Gap, show isBlank ' ' = true by decide]

theorem gap_nil : Gap [] := by simp [Gap]

theorem declared?_parameterLine {p : Parameter} (h : isIdentifier p.name = true) :
    declared? (parameterLine p) = some p.name := by
  have hline : parameterLine p = "    localparam ".toList ++
      ([] ++ (p.name ++ ([' '] ++ '=' :: (' ' :: p.value ++ [';'])))) := by
    unfold parameterLine
    simp only [List.append_assoc]
    rfl
  simp only [declared?, after?_eq_some_iff.2 hline]
  exact wordBefore?_name (by decide) gap_nil h gap_space _

/-- A range has its brackets at its ends only. -/
theorem bitRange_cases (p : Port) :
    p.bitRange = [] ∨ ∃ r, ']' ∉ r ∧ p.bitRange = '[' :: (r ++ [']']) := by
  rw [Port.bitRange, firstGroup?]
  split
  · exact .inl rfl
  · rename_i r _
    split_ifs
    · refine .inr ⟨r.takeWhile (· != ']'), fun hmem => ?_, rfl⟩
      simpa using List.mem_takeWhile_imp hmem
    · exact .inl rfl

theorem skipRange_range {r : Text} (h : ']' ∉ r) (t : Text) :
    skipRange ('[' :: (r ++ [']']) ++ t) = t
      ∧ leadingRange ('[' :: (r ++ [']']) ++ t) = '[' :: (r ++ [']']) := by
  have hall : ∀ c ∈ '[' :: r, (c != ']') = true := by
    refine List.forall_mem_cons.2 ⟨by decide, fun c hc => bne_iff_ne.2 ?_⟩
    rintro rfl
    exact h hc
  rw [show '[' :: (r ++ [']']) ++ t = '[' :: r ++ ']' :: t by simp, skipRange, leadingRange,
    List.dropWhile_append_of_pos hall, List.takeWhile_append_of_pos hall]
  simp

theorem skipRange_name {name : Text} (h : isIdentifier name = true) (t : Text) :
    skipRange (name ++ t) = name ++ t ∧ leadingRange (name ++ t) = [] := by
  obtain ⟨c, name, rfl⟩ := List.exists_cons_of_ne_nil (ne_nil_of_isIdentifier h)
  have hbracket : (c :: name ++ t).head? ≠ some '[' := by
    simp only [List.cons_append, List.head?_cons, ne_eq, Option.some.injEq]
    rintro rfl
    exact absurd (isWord_of_isIdentifier h '[' List.mem_cons_self) (by decide +kernel)
  exact ⟨if_neg hbracket, if_neg hbracket⟩

/-- The line of a signal, read: its name and its range. -/
theorem exists_after_signalLine {p : Port} (h : isIdentifier p.name = true) :
    ∃ rest, after? "    logic " (signalLine p) = some rest
      ∧ wordBefore? ';' (skipRange rest) = some p.name ∧ leadingRange rest = p.bitRange := by
  rcases bitRange_cases p with hr | ⟨r, hr, hrange⟩
  · have hline : signalLine p = "    logic ".toList ++ (p.name ++ [';']) := by
      unfold signalLine
      simp only [hr, List.append_assoc]
      rfl
    obtain ⟨hskip, hlead⟩ := skipRange_name h [';']
    refine ⟨_, after?_eq_some_iff.2 hline, ?_, hlead.trans hr.symm⟩
    rw [hskip]
    exact wordBefore?_name (by decide) gap_nil h gap_nil []
  · have hline : signalLine p =
        "    logic ".toList ++ ('[' :: (r ++ [']']) ++ (' ' :: p.name ++ [';'])) := by
      unfold signalLine
      simp only [hrange, List.append_assoc]
      rfl
    obtain ⟨hskip, hlead⟩ := skipRange_range hr (' ' :: p.name ++ [';'])
    refine ⟨_, after?_eq_some_iff.2 hline, ?_, hlead.trans hrange.symm⟩
    rw [hskip]
    exact wordBefore?_name (by decide) gap_space h gap_nil []

theorem declared?_signalLine {p : Port} (h : isIdentifier p.name = true) :
    declared? (signalLine p) = some p.name := by
  have hconstant : after? "    localparam " (signalLine p) = none := rfl
  obtain ⟨rest, hrest, hname, -⟩ := exists_after_signalLine h
  rw [declared?, hconstant]
  simp only [hrest, Option.bind_some, hname]

/-! ## The parts of a testbench -/

theorem declared?_of_not_mem {line : Text} (he : '=' ∉ line) (hs : ';' ∉ line) :
    declared? line = none := by
  have hword : ∀ {c : Char} {t : Text}, c ∉ t → wordBefore? c t = none := fun h => by
    rw [wordBefore?, cut_of_not_mem h]
  rw [declared?]
  split
  · rename_i rest hrest
    rw [after?_eq_some_iff.1 hrest] at he
    exact hword fun hmem => he (List.mem_append_right _ hmem)
  · refine Option.bind_eq_none_iff.2 fun rest hrest => hword fun hmem => hs ?_
    rw [after?_eq_some_iff.1 hrest]
    refine List.mem_append_right _ ?_
    rw [skipRange] at hmem
    split_ifs at hmem
    · exact (List.dropWhile_sublist _).mem (List.mem_of_mem_tail hmem)
    · exact hmem

theorem filterMap_declared? {α : Type} {line : α → Text} {name : α → Text} {xs : List α}
    (h : ∀ x ∈ xs, declared? (line x) = some (name x)) :
    (xs.map line).filterMap declared? = xs.map name := by
  rw [List.filterMap_map, ← List.filterMap_eq_map]
  exact List.filterMap_congr h

theorem declared_constants (b : Testbench) {m : Module}
    (h : ∀ p ∈ m.parameters, isIdentifier p.name = true) :
    (b.constants m).filterMap declared? =
      ["CLK_PERIOD".toList, "TIMEOUT".toList] ++ m.parameters.map (·.name) := by
  rw [constants, List.filterMap_append,
    filterMap_declared? fun p hp => declared?_parameterLine (h p hp)]
  rfl

theorem declared_signals {m : Module} (clock reset : Text)
    (h : ∀ p ∈ m.ports, isIdentifier p.name = true) :
    (signals clock reset m).filterMap declared? =
      ["clk".toList, "rst_n".toList] ++ (otherPorts clock reset m).map (·.name) := by
  have hothers : ∀ p ∈ otherPorts clock reset m, declared? (signalLine p) = some p.name :=
    fun p hp => declared?_signalLine (h p (List.mem_of_mem_filter hp))
  rw [signals, List.filterMap_append, ← otherPorts, filterMap_declared? hothers]
  rfl

/-- The line that opens the instance is made of words and a few marks. -/
theorem forall_mem_instanceLine {P : Char → Prop} (hword : ∀ c, isWord c = true → P c)
    (hmarks : ∀ c ∈ "#(.,) ".toList, P c) {m : Module} (hm : isIdentifier m.name = true)
    (h : ∀ p ∈ m.parameters, isIdentifier p.name = true) : ∀ c ∈ instanceLine m, P c := by
  have hname : ∀ {name : Text}, isIdentifier name = true → ∀ c ∈ name, P c := fun hn c hc =>
    hword c (isWord_of_isIdentifier hn c hc)
  have hfixed : ∀ {t : Text}, (t.all fun c => isWord c || "#(.,) ".toList.contains c) = true →
      ∀ c ∈ t, P c := fun ht c hc => by
    rcases Bool.or_eq_true_iff.1 (List.all_eq_true.1 ht c hc) with hc | hc
    · exact hword c hc
    · exact hmarks c (List.contains_iff_mem.1 hc)
  have hsets : ∀ c ∈ joinWith ", " (m.parameters.map fun p => "." ++ p.name ++ "(" ++ p.name
      ++ ")"), P c := by
    refine (forall_mem_joinWith (hfixed (by decide +kernel))).2
      (List.forall_mem_map.2 fun p hp => ?_)
    simp only [List.forall_mem_append]
    exact ⟨⟨⟨⟨hfixed (by decide +kernel), hname (h p hp)⟩, hfixed (by decide +kernel)⟩,
      hname (h p hp)⟩, hfixed (by decide +kernel)⟩
  unfold instanceLine
  simp only [List.forall_mem_append, onlyIf]
  refine ⟨⟨⟨hfixed (by decide +kernel), hname hm⟩, ?_⟩, hfixed (by decide +kernel)⟩
  split_ifs
  · simp only [List.forall_mem_append]
    exact ⟨⟨hfixed (by decide +kernel), hsets⟩, hfixed (by decide +kernel)⟩
  · simp

theorem not_mem_instanceLine {c : Char} (hmark : c ∈ marks) (hfixed : c ∉ "#(.,) ".toList)
    {m : Module} (hm : isIdentifier m.name = true)
    (h : ∀ p ∈ m.parameters, isIdentifier p.name = true) : c ∉ instanceLine m := by
  have hne : ∀ d ∈ instanceLine m, d ≠ c := by
    refine forall_mem_instanceLine (fun d hd => ?_) (fun d hd => ?_) hm h
    · rintro rfl
      rw [(not_isWord_of_mem_marks hmark).2] at hd
      cases hd
    · rintro rfl
      exact hfixed hd
  exact fun hmem => hne c hmem rfl

/-- Neither the instance nor its connections declare a name, if that of the module is one. -/
theorem declared_deviceUnderTest {m : Module} (clock reset : Text) (hm : isIdentifier m.name = true)
    (h : ∀ p ∈ m.parameters, isIdentifier p.name = true) :
    (deviceUnderTest clock reset m).filterMap declared? = [] := by
  have hconnections : ∀ (width : Nat) (ps : List Port),
      (connectionLines clock reset width ps).filterMap declared? = [] := by
    intro width ps
    induction ps with
    | nil => rfl
    | cons p ps ih => exact ih
  have hinstance : declared? (instanceLine m) = none :=
    declared?_of_not_mem (not_mem_instanceLine (by decide) (by decide) hm h)
      (not_mem_instanceLine (by decide) (by decide) hm h)
  rw [deviceUnderTest, List.filterMap_append, List.filterMap_append,
    List.filterMap_cons_none hinstance, hconnections]
  rfl

theorem declared_lines (b : Testbench) {m : Module} (clock reset : Text)
    (hm : isIdentifier m.name = true) (hparameters : ∀ p ∈ m.parameters, isIdentifier p.name = true)
    (hports : ∀ p ∈ m.ports, isIdentifier p.name = true) :
    (b.lines clock reset m).filterMap declared? = declaredNames clock reset m := by
  have hblank : ∀ ls : List Text, ([] :: ls).filterMap declared? = ls.filterMap declared? :=
    fun _ => rfl
  have hopening : (["`timescale 1ns/1ps", "", "module tb_" ++ m.name ++ ";"] : List Text).filterMap
      declared? = [] := rfl
  have hreset : b.clockAndResetProcess.filterMap declared? = [] := rfl
  have hmain : (mainProcess m).filterMap declared? = [] := rfl
  have hwatchdog : watchdog.filterMap declared? = [] := rfl
  have hending : (["endmodule"] : List Text).filterMap declared? = [] := rfl
  simp only [lines, List.flatten_cons, List.flatten_nil, List.filterMap_append, hblank, hopening,
    declared_constants b hparameters, declared_signals clock reset hports,
    declared_deviceUnderTest clock reset hm hparameters, hreset, hmain, hwatchdog, hending]
  simp [declaredNames]

/-! ## Names declared once -/

theorem mem_otherPorts {clock reset : Text} {m : Module} {p : Port} :
    p ∈ otherPorts clock reset m ↔ p ∈ m.ports ∧ p.name ≠ clock ∧ p.name ≠ reset := by
  simp [otherPorts]

theorem perm_declaredNames (clock reset : Text) (m : Module) : (declaredNames clock reset m).Perm
    (ownNames ++ (m.parameters.map (·.name) ++ (otherPorts clock reset m).map (·.name))) := by
  have hswap : (m.parameters.map (·.name) ++ ["clk".toList, "rst_n".toList]).Perm
      (["clk".toList, "rst_n".toList] ++ m.parameters.map (·.name)) := List.perm_append_comm
  rw [declaredNames, List.append_assoc, List.append_assoc, ← List.append_assoc (m.parameters.map _)]
  refine ((hswap.append_right _).append_left _).trans (.of_eq ?_)
  simp only [ownNames, List.append_assoc]
  rfl

/-- The text of a testbench, for a module whose parameters and ports have names that are all
different: its lines declare the constants and signals of the testbench, a constant for each
parameter and a signal for each port other than the clock and the reset, and nothing else if the
name of the module is one. No name is declared twice if and only if no parameter and no such port
has a name that the testbench gives to a constant or signal of its own. -/
theorem nodup_declared_iff {b : Testbench} {m : Module} {t : Text}
    (hparameters : ∀ p ∈ m.parameters, isIdentifier p.name = true)
    (hports : ∀ p ∈ m.ports, isIdentifier p.name = true)
    (hdistinct : (m.parameters.map (·.name) ++ m.ports.map (·.name)).Nodup)
    (h : b.render m = .ok t) :
    ∃ clock reset, b.clockAndReset m = .ok (clock, reset)
      ∧ t = ((b.lines clock reset m).flatMap fun line => line ++ ['\n'])
      ∧ (b.constants m ++ signals clock reset m).filterMap declared? = declaredNames clock reset m
      ∧ (isIdentifier m.name = true →
        (b.lines clock reset m).filterMap declared? = declaredNames clock reset m)
      ∧ ((declaredNames clock reset m).Nodup ↔ (∀ p ∈ m.parameters, p.name ∉ ownNames)
        ∧ ∀ p ∈ m.ports, p.name ≠ clock → p.name ≠ reset → p.name ∉ ownNames) := by
  rcases hnames : b.clockAndReset m with e | ⟨clock, reset⟩
  · rw [render, hnames] at h
    cases h
  rw [render, hnames] at h
  cases h
  refine ⟨clock, reset, rfl, rfl, ?_,
    fun hm => declared_lines b clock reset hm hparameters hports, ?_⟩
  · rw [List.filterMap_append, declared_constants b hparameters,
      declared_signals clock reset hports, declaredNames, List.append_assoc _ _ (List.map _ _)]
  · have hothers : (m.parameters.map (·.name) ++ (otherPorts clock reset m).map (·.name)).Nodup :=
      hdistinct.sublist ((List.filter_sublist.map _).append_left _)
    have hown : ownNames.Nodup := by decide
    rw [(perm_declaredNames clock reset m).nodup_iff, List.nodup_append]
    constructor
    · rintro ⟨-, -, hne⟩
      refine ⟨fun p hp hmem => ?_, fun p hp hclock hreset hmem => ?_⟩
      · exact hne _ hmem _ (List.mem_append_left _ (List.mem_map_of_mem hp)) rfl
      · have hother := mem_otherPorts.2 ⟨hp, hclock, hreset⟩
        exact hne _ hmem _ (List.mem_append_right _ (List.mem_map_of_mem hother)) rfl
    · rintro ⟨hfree, hfree'⟩
      refine ⟨hown, hothers, ?_⟩
      rintro _ ha _ hb rfl
      rcases List.mem_append.1 hb with hb | hb <;> obtain ⟨p, hp, rfl⟩ := List.mem_map.1 hb
      · exact hfree p hp ha
      · obtain ⟨hp, hclock, hreset⟩ := mem_otherPorts.1 hp
        exact hfree' p hp hclock hreset ha

/-- The clock and the reset are ports of other names than those of the testbench. -/
theorem nodup_declared_iff_renamed :
    let b : Testbench := { naming := .ofPatterns "ck" "rn" }
    let m : Module := {
      name := "m", file := "m.sv", location := ⟨"m.sv", 0, 7, 1⟩, parameters := [⟨"W", "8"⟩]
      ports := [⟨"ck", .input, []⟩, ⟨"rn", .input, []⟩, ⟨"d", .output, "logic [W-1:0]"⟩] }
    b.clockAndReset m = .ok ("ck", "rn")
      ∧ (b.lines "ck" "rn" m).filterMap declared? = ["CLK_PERIOD".toList, "TIMEOUT".toList,
        "W".toList, "clk".toList, "rst_n".toList, "d".toList]
      ∧ (declaredNames "ck" "rn" m).Nodup := by
  intro b m
  have hnames : b.clockAndReset m = .ok ("ck".toList, "rn".toList) := by decide +kernel
  have hrender : b.render m = .ok ((b.lines "ck" "rn" m).flatMap fun line => line ++ ['\n']) := by
    rw [render, hnames]
    rfl
  obtain ⟨clock, reset, hfound, -, -, hdeclared, hiff⟩ :=
    nodup_declared_iff (by decide +kernel) (by decide +kernel) (by decide +kernel) hrender
  rw [hnames] at hfound
  cases hfound
  exact ⟨hnames, hdeclared (by decide +kernel), hiff.2 (by decide +kernel)⟩

/-- Two clocks, of which the second is called as that of the testbench. -/
theorem clk_declared_twice :
    let m : Module := {
      name := "m", file := "m.sv", location := ⟨"m.sv", 0, 7, 1⟩
      ports := [⟨"aclk", .input, []⟩, ⟨"clk", .input, []⟩] }
    (m.ports.map (·.name)).Nodup ∧ ({} : Testbench).clockAndReset m = .ok ("aclk", "rst_n")
      ∧ (({} : Testbench).lines "aclk" "rst_n" m).filterMap declared? =
        ["CLK_PERIOD".toList, "TIMEOUT".toList, "clk".toList, "rst_n".toList, "clk".toList]
      ∧ ¬ (declaredNames "aclk" "rst_n" m).Nodup := by
  decide +kernel

end VerilogIndex.Generate.Testbench
