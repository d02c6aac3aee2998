import VerilogIndex.Proofs.ModuleSources
import VerilogIndex.Proofs.Statements
import VerilogIndex.Proofs.TestbenchNames

/-!
# Testbenches are read

A testbench is a text of lines, and comments in it end with their line, so blanking its comments can
be done line by line (`cleans_lines`). The statements of a testbench end in semicolons, so that the
instances in it can be told statement by statement. What stands before a semicolon is fixed but for
the name of the module and the lines for the ports; only a range of a port can bring in anything.

Main statement: a testbench is read as a module without ports, with the instances that stand in
ranges, with the one of the module that is tested, and with one more, since the message of the
watchdog has the shape of an instance (`readModule_testbench`).
-/

namespace VerilogIndex

open Text

namespace Source

/-! ## Comments by line -/

/-- A comment that opens in a line ends with it, unless it is a block. -/
theorem blankFrom_plainLine (t : Text) : ∀ {l : Text} {place : Place}, '\n' ∉ l → Apart '/' '*' l →
    (place = .line ∨ (∃ guarded, place = .code guarded) ∨ place = .opening false ∧ l ≠ []) →
    blankFrom place (l ++ '\n' :: t) = blankFrom place l ++ '\n' :: blankComments t
  | [], place, _, _, hplace => by
    rcases hplace with rfl | ⟨guarded, rfl⟩ | ⟨-, hne⟩
    · rfl
    · rfl
    · exact absurd rfl hne
  | c :: l, place, hfeed, hblock, hplace => by
    rw [List.mem_cons, not_or] at hfeed
    obtain ⟨hopen, hblock⟩ := apart_cons.1 hblock
    have hstep : place.step c (l ++ '\n' :: t).head? = place.step c l.head? := by
      rcases l with _ | ⟨d, l⟩
      · rcases hplace with rfl | ⟨guarded, rfl⟩ | ⟨rfl, -⟩ <;> simp [Place.step]
      · rfl
    have hnext : (place.step c l.head?).2 = .line
        ∨ (∃ guarded, (place.step c l.head?).2 = .code guarded)
        ∨ (place.step c l.head?).2 = .opening false ∧ l ≠ [] := by
      rcases hplace with rfl | ⟨guarded, rfl⟩ | ⟨rfl, -⟩
      · exact .inl (by rw [Place.step, if_neg (Ne.symm hfeed.1)])
      · rw [Place.step, if_neg hopen]
        split_ifs with hline
        · refine .inr (.inr ⟨rfl, ?_⟩)
          rintro rfl
          simp at hline
        · exact .inr (.inl ⟨_, rfl⟩)
      · exact .inl rfl
    rw [List.cons_append, blankFrom, blankFrom, hstep]
    simp only [List.cons_append, blankFrom_plainLine t hfeed.2 hblock hnext]

/-- Blanking the comments of the lines leaves this, whatever follows. -/
def Cleans (ls : List Text) (c : Text) : Prop :=
  ∀ t, blankComments (joined ls ++ t) = c ++ blankComments t

theorem Cleans.append {ls ls' : List Text} {c c' : Text} (h : Cleans ls c) (h' : Cleans ls' c') :
    Cleans (ls ++ ls') (c ++ c') := by
  intro t
  rw [joined_append, List.append_assoc, h, h', List.append_assoc]

/-- The lines with their comments blanked. -/
def cleaned (ls : List Text) : Text := ls.flatMap fun l => blankComments l ++ "\n"

/-- The line holds no line feed, and no block comment opens in it. -/
def isPlainLine (l : Text) : Bool := decide ('\n' ∉ l) && decide (Apart '/' '*' l)

theorem cleans_lines : ∀ {ls : List Text}, ls.all isPlainLine = true → Cleans ls (cleaned ls)
  | [], _, _ => rfl
  | l :: ls, h, t => by
    rw [List.all_cons, Bool.and_eq_true] at h
    obtain ⟨hl, hls⟩ := h
    simp only [isPlainLine, Bool.and_eq_true, decide_eq_true_eq] at hl
    have hline := blankFrom_plainLine (joined ls ++ t) hl.1 hl.2 (.inr (.inl ⟨false, rfl⟩))
    rw [joined_cons]
    refine hline.trans ?_
    rw [cleans_lines hls, cleaned, cleaned, List.flatMap_cons]
    simp [blankComments]

theorem cleans_of_not_mem : ∀ {ls : List Text}, (∀ l ∈ ls, '/' ∉ l) → Cleans ls (joined ls)
  | [], _, _ => rfl
  | l :: ls, h, t => by
    obtain ⟨hl, hls⟩ := List.forall_mem_cons.1 h
    have hline := Uncommented.of_not_mem hl '\n' (.inr rfl) (joined ls ++ t)
    rw [joined_cons, hline, cleans_of_not_mem hls, joined_cons]

end Source

namespace Generate.Testbench

open Source

/-! ## Lines for ports -/

/-- Comments that open in the text end in it. -/
def Closed (r : Text) : Prop :=
  ∀ u, blankComments (r ++ ' ' :: u) = blankComments r ++ ' ' :: blankComments u

/-- What is left of the line that declares a port's signal. -/
def signalCode (p : Port) : Text :=
  "    logic" ++ onlyIf (!p.bitRange.isEmpty) (" " ++ blankComments p.bitRange) ++ " " ++ p.name
    ++ ";\n"

theorem signalLine_of_range {p : Port} (h : p.bitRange ≠ []) (t : Text) :
    joined [signalLine p] ++ t =
      "    logic".toList ++ ' ' :: (p.bitRange ++ ' ' :: (p.name ++ ';' :: '\n' :: t))
    ∧ signalCode p = "    logic".toList ++
      ' ' :: (blankComments p.bitRange ++ ' ' :: (p.name ++ ';' :: ['\n'])) := by
  have he := List.isEmpty_eq_false_iff.2 h
  unfold signalLine signalCode joined
  simp only [he, onlyIf, Bool.not_false, if_true, List.flatMap_cons, List.flatMap_nil,
    List.append_nil, List.append_assoc]
  exact ⟨rfl, rfl⟩

theorem signalLine_of_nil {p : Port} (h : p.bitRange = []) :
    signalLine p = "    logic ".toList ++ (p.name ++ [';'])
    ∧ signalCode p = "    logic ".toList ++ p.name ++ ';' :: ['\n'] := by
  unfold signalLine signalCode
  simp only [h, List.append_assoc]
  exact ⟨rfl, rfl⟩

theorem cleans_signalLine {p : Port} (hn : isIdentifier p.name = true) (hr : Closed p.bitRange) :
    Cleans [signalLine p] (signalCode p) := by
  have hname : '/' ∉ p.name := slash_not_mem_of_isWord (isWord_of_isIdentifier hn)
  by_cases hrange : p.bitRange = []
  · obtain ⟨hline, hcode⟩ := signalLine_of_nil hrange
    have hclean : Cleans [signalLine p] (joined [signalLine p]) := by
      refine cleans_of_not_mem fun l hl => ?_
      rw [List.mem_singleton.1 hl, hline]
      simp [hname]
    have hjoined : joined [signalLine p] = signalCode p := by
      simp only [joined, List.flatMap_cons, List.flatMap_nil, hline, hcode, List.append_assoc]
      rfl
    rwa [hjoined] at hclean
  · intro t
    obtain ⟨hline, hcode⟩ := signalLine_of_range hrange t
    have hlead := blankComments_append (a := "    logic") (by decide) (d := ' ') (by decide)
      (p.bitRange ++ ' ' :: (p.name ++ ';' :: '\n' :: t))
    have hrest : blankComments (p.name ++ ';' :: '\n' :: t) =
        p.name ++ ';' :: '\n' :: blankComments t := by
      have := Uncommented.of_not_mem (a := p.name ++ [';']) (by simp [hname]) '\n' (.inr rfl) t
      rwa [List.append_assoc, List.append_assoc] at this
    rw [hline, hlead, hr, hrest, hcode]
    simp only [List.append_assoc, List.cons_append]
    rfl

/-- The scan finds in the line of a signal what it finds in the range. -/
theorem finds_signalCode {p : Port} (hn : isIdentifier p.name = true) :
    Finds (signalCode p) (found false (blankComments p.bitRange)) := by
  have hplain : '(' ∉ p.name := not_mem_name rfl hn
  have hfeed : ['\n'].any isWord = false := rfl
  rcases bitRange_cases p with hrange | ⟨r, -, hrange⟩
  · have hfound : found false ("    logic ".toList ++ p.name) = [] :=
      found_plain (by simp [hplain]) false
    have := finds_statement ("    logic ".toList ++ p.name) hfeed
    rw [hfound] at this
    rw [(signalLine_of_nil hrange).2, hrange]
    exact this
  · have hne : p.bitRange ≠ [] := by simp [hrange]
    obtain ⟨b, hb⟩ : ∃ b, blankComments p.bitRange = '[' :: b := by
      rw [hrange]
      exact ⟨_, rfl⟩
    have hword : isIdentifier "logic" = true := rfl
    have hlead : Idle ("    ".toList ++ ("logic".toList ++ ([' '] ++ ['[']))) :=
      (Idle.of_marks rfl).append (Idle.name hword gap_space rfl)
    have hmark : found false ('[' :: b) = found false b :=
      Idle.of_marks (a := ['[']) rfl b
    have hfound : found false ("    logic ".toList ++ ('[' :: b ++ ' ' :: p.name)) =
        found false ('[' :: b) := by
      calc found false ("    logic ".toList ++ ('[' :: b ++ ' ' :: p.name))
          = found false (b ++ ' ' :: p.name) := hlead (b ++ ' ' :: p.name)
        _ = found false b := found_append_plain rfl (by simp [hplain]) false b
        _ = found false ('[' :: b) := hmark.symm
    have := finds_statement ("    logic ".toList ++ ('[' :: b ++ ' ' :: p.name)) hfeed
    rw [hfound] at this
    rw [(signalLine_of_range hne []).2, hb]
    simpa using this

theorem cleans_signalLines : ∀ {ps : List Port},
    (∀ p ∈ ps, isIdentifier p.name = true ∧ Closed p.bitRange) →
    Cleans (ps.map signalLine) (ps.flatMap signalCode)
  | [], _ => fun _ => rfl
  | p :: ps, h => by
    obtain ⟨⟨hn, hr⟩, hps⟩ := List.forall_mem_cons.1 h
    exact (cleans_signalLine hn hr).append (cleans_signalLines hps)

theorem finds_signalLines : ∀ {ps : List Port}, (∀ p ∈ ps, isIdentifier p.name = true) →
    Finds (ps.flatMap signalCode) (ps.flatMap fun p => found false (blankComments p.bitRange))
  | [], _ => fun _ => rfl
  | p :: ps, h => by
    obtain ⟨hn, hps⟩ := List.forall_mem_cons.1 h
    exact (finds_signalCode hn).append (finds_signalLines hps)

theorem isIdentifier_target (clock reset : Text) {name : Text} (h : isIdentifier name = true) :
    isIdentifier (target clock reset name) = true := by
  rw [target]
  split_ifs
  · rfl
  · rfl
  · exact h

/-- The line that connects a port: marks, and two names that stand before parentheses. -/
theorem idle_connectionLine {name signal : Text} (hn : isIdentifier name = true)
    (hs : isIdentifier signal = true) (width : Nat) {ending : Text}
    (he : ending.any isWord = false) :
    Idle ("        .".toList ++ padRight width name ++ "(".toList ++ signal ++ ")".toList
      ++ ending) := by
  have hgap : Gap (List.replicate (width - name.length) ' ') := fun c hc => by
    rw [List.eq_of_mem_replicate hc]
    rfl
  have hlead : Idle "        .".toList := .of_marks rfl
  have hend : Idle ending := .of_marks he
  have := (hlead.append (.name hn hgap (d := '(') rfl)).append
    ((Idle.name hs gap_nil (d := ')') rfl).append hend)
  simpa [padRight] using this

theorem cleans_connectionLines (clock reset : Text) (width : Nat) {ps : List Port}
    (h : ∀ p ∈ ps, isIdentifier p.name = true) :
    Cleans (connectionLines clock reset width ps)
      (joined (connectionLines clock reset width ps)) := by
  refine cleans_of_not_mem ?_
  induction ps with
  | nil => simp [connectionLines]
  | cons p ps ih =>
    obtain ⟨hn, hps⟩ := List.forall_mem_cons.1 h
    have hword : ∀ {name : Text}, isIdentifier name = true → '/' ∉ name := fun hn =>
      slash_not_mem_of_isWord (isWord_of_isIdentifier hn)
    rw [connectionLines]
    refine List.forall_mem_cons.2 ⟨?_, ih hps⟩
    rw [onlyIf]
    split_ifs <;> simp [padRight, hword hn, hword (isIdentifier_target clock reset hn)]

theorem idle_connectionLines (clock reset : Text) (width : Nat) :
    ∀ {ps : List Port}, (∀ p ∈ ps, isIdentifier p.name = true) →
      Idle (joined (connectionLines clock reset width ps))
  | [], _ => fun _ => rfl
  | p :: ps, h => by
    obtain ⟨hn, hps⟩ := List.forall_mem_cons.1 h
    have hmarks : (onlyIf (!ps.isEmpty) ",".toList ++ "\n".toList).any isWord = false := by
      rw [onlyIf]
      split_ifs <;> rfl
    have hline := idle_connectionLine hn (isIdentifier_target clock reset hn) width hmarks
    have := hline.append (idle_connectionLines clock reset width hps)
    rw [connectionLines, joined, List.flatMap_cons, ← joined]
    simpa only [List.append_assoc] using this

/-! ## Lines for the module -/

theorem instanceLine_eq {m : Module} (h : m.parameters = []) :
    instanceLine m = "    ".toList ++ (m.name ++ " u_dut (".toList) := by
  unfold instanceLine
  simp only [h, List.append_assoc]
  rfl

theorem cleans_instanceLine {m : Module} (hm : isIdentifier m.name = true)
    (h : m.parameters = []) : Cleans [instanceLine m] (joined [instanceLine m]) := by
  refine cleans_of_not_mem fun l hl => ?_
  rw [List.mem_singleton.1 hl, instanceLine_eq h]
  simp [slash_not_mem_of_isWord (isWord_of_isIdentifier hm)]

theorem finds_instanceLine {m : Module} (hm : isIdentifier m.name = true)
    (h : m.parameters = []) : Finds (joined [instanceLine m]) [(m.name, "u_dut".toList)] := by
  intro t
  have hlead : Idle "    ".toList := .of_marks rfl
  have hdut : isIdentifier "u_dut" = true := rfl
  have hinstance := found_instance hm gap_space (by simp) hdut gap_space ('\n' :: t)
  have hfeed : found false ('\n' :: t) = found false t := Idle.of_marks (a := ['\n']) rfl t
  have htext : joined [instanceLine m] ++ t = "    ".toList ++
      (m.name ++ ([' '] ++ ("u_dut".toList ++ ([' '] ++ '(' :: '\n' :: t)))) := by
    simp only [joined, List.flatMap_cons, List.flatMap_nil, instanceLine_eq h, List.append_assoc]
    rfl
  rw [htext, hlead, hinstance, hfeed]
  rfl

/-- A statement on a line of its own that has the name of the module in it. -/
def namedLine (lead before after name : Text) : Text := lead ++ (before ++ name ++ after) ++ [';']

theorem append_eq_namedLine {lead before after opening ending : Text}
    (ho : opening = lead ++ before) (he : ending = after ++ [';']) (name : Text) :
    opening ++ name ++ ending = namedLine lead before after name := by
  rw [ho, he, namedLine]
  simp only [List.append_assoc]

section NamedLine

variable {lead before after name : Text} (hn : isIdentifier name = true)
include hn

theorem cleans_namedLine (h : '/' ∉ lead ++ before ++ after) :
    Cleans [namedLine lead before after name] (joined [namedLine lead before after name]) := by
  refine cleans_of_not_mem fun l hl => ?_
  simp only [List.mem_append, not_or] at h
  rw [List.mem_singleton.1 hl, namedLine]
  simp [h, slash_not_mem_of_isWord (isWord_of_isIdentifier hn)]

/-- The name brings in no instance where no parenthesis follows it. -/
theorem finds_namedLine {c : Text} {fs : List (Text × Text)} (hfs : found false (c ++ lead) = fs)
    (hw : startsWord (before ++ name ++ after) = false) (h : '(' ∉ before ++ after) :
    Finds (c ++ joined [namedLine lead before after name]) fs := by
  have hplain : '(' ∉ before ++ name ++ after := by
    simp only [List.mem_append, not_or] at h ⊢
    exact ⟨⟨h.1, not_mem_name rfl hn⟩, h.2⟩
  have hfound := found_append_plain hw hplain false (c ++ lead)
  have := finds_statement (c ++ lead ++ (before ++ name ++ after)) (g := ['\n']) rfl
  rw [hfound, hfs] at this
  simpa [joined, namedLine] using this

end NamedLine

/-! ## The whole testbench -/

/-- A module of which nothing is known. -/
def bare : Module := { name := [], file := [], location := ⟨[], 0, 0, 0⟩ }

/-- The lines before the signals of ports. -/
def ownLines : List Text := [] :: ({} : Testbench).constants bare ++ [] :: signals [] [] bare

/-- The lines between the instance and the first one with the name of the module. -/
def processLines : List Text :=
  [] :: ({} : Testbench).clockAndResetProcess ++ [] :: (mainProcess bare).take 5

/-- The lines after the last one with the name of the module. -/
def lastLines : List Text :=
  (mainProcess bare).drop 11 ++ [] :: watchdog ++ [[], "endmodule".toList]

/-- The part of the main process with the name of the module in it. -/
def dumpLines (name : Text) : List Text :=
  [namedLine "            $dumpfile(" "\"tb_" ".vcd\")" name] ++
    ([namedLine "            $dumpvars(0" ", tb_" ")" name] ++
    (((mainProcess bare).drop 7).take 2 ++
    ([namedLine "            $fsdbDumpfile(" "\"tb_" ".fsdb\")" name] ++
    [namedLine "            $fsdbDumpvars(0" ", tb_" ")" name])))

/-- What the scan finds after the instance of the module. -/
def lastFound : List (Text × Text) :=
  [("task".toList, "apply_reset".toList), ("endif".toList, "apply_reset".toList),
    ("begin".toList, "repeat".toList), ("TEST".toList, "FAILED".toList)]

-- The four lemmas that follow evaluate the fixed lines. Literals become lists of characters first,
-- since the kernel is slow to take a literal apart.

theorem scan_ownLines : ownLines.all isPlainLine = true ∧ isEnded (cleaned ownLines) = true
    ∧ found false (cleaned ownLines) = [] := by
  unfold ownLines constants signals heading
  simp -index only [String.toList_ofList]
  decide +kernel

theorem scan_heading :
    ([] :: heading "3. DUT Instantiation").all isPlainLine = true
    ∧ (cleaned ([] :: heading "3. DUT Instantiation")).any isWord = false := by
  unfold heading
  simp -index only [String.toList_ofList]
  decide +kernel

theorem scan_processLines : processLines.all isPlainLine = true
    ∧ found false (cleaned processLines ++ "            $dumpfile(".toList) =
      [("task".toList, "apply_reset".toList)] := by
  unfold processLines clockAndResetProcess mainProcess heading
  simp -index only [String.toList_ofList]
  decide +kernel

theorem scan_lastLines : lastLines.all isPlainLine = true
    ∧ found false (cleaned lastLines) = lastFound.drop 1 := by
  unfold lastLines lastFound mainProcess watchdog heading
  simp -index only [String.toList_ofList]
  decide +kernel

theorem mainProcess_eq (m : Module) : mainProcess m =
    (mainProcess bare).take 5 ++ (dumpLines m.name ++ (mainProcess bare).drop 11) := by
  have hfile : "            $dumpfile(\"tb_" ++ m.name ++ ".vcd\");" =
      namedLine "            $dumpfile(" "\"tb_" ".vcd\")" m.name :=
    append_eq_namedLine (by decide) (by decide) m.name
  have hvars : "            $dumpvars(0, tb_" ++ m.name ++ ");" =
      namedLine "            $dumpvars(0" ", tb_" ")" m.name :=
    append_eq_namedLine (by decide) (by decide) m.name
  have hfile' : "            $fsdbDumpfile(\"tb_" ++ m.name ++ ".fsdb\");" =
      namedLine "            $fsdbDumpfile(" "\"tb_" ".fsdb\")" m.name :=
    append_eq_namedLine (by decide) (by decide) m.name
  have hvars' : "            $fsdbDumpvars(0, tb_" ++ m.name ++ ");" =
      namedLine "            $fsdbDumpvars(0" ", tb_" ")" m.name :=
    append_eq_namedLine (by decide) (by decide) m.name
  unfold dumpLines
  rw [← hfile, ← hvars, ← hfile', ← hvars']
  rfl

theorem lines_eq {m : Module} (h : m.parameters = []) (clock reset : Text) :
    ({} : Testbench).lines clock reset m = ["`timescale 1ns/1ps".toList, "".toList] ++
      ([namedLine "module" " tb_" [] m.name] ++ (ownLines ++
      ((otherPorts clock reset m).map signalLine ++ ([] :: heading "3. DUT Instantiation" ++
      ([instanceLine m] ++ (connectionLines clock reset
        (maxLength (m.ports.map (·.name)) + 1) m.ports ++ (["    );".toList] ++
      (processLines ++ (dumpLines m.name ++ lastLines))))))))) := by
  have hconstants : ({} : Testbench).constants m = ({} : Testbench).constants bare := by
    unfold constants
    rw [h]
    rfl
  have hsignals : signals clock reset m =
      signals [] [] bare ++ (otherPorts clock reset m).map signalLine := by
    unfold signals otherPorts
    simp [bare]
  have hmodule : "module tb_" ++ m.name ++ ";" = namedLine "module" " tb_" [] m.name :=
    append_eq_namedLine (by decide) (by decide) m.name
  unfold lines deviceUnderTest
  rw [hconstants, hsignals, mainProcess_eq, hmodule]
  simp only [ownLines, processLines, lastLines, List.flatten_cons, List.flatten_nil,
    List.append_assoc, List.cons_append, List.nil_append, List.append_nil]

/-- What is left of the part of the main process with the name of the module in it. -/
def dumpCode (name : Text) : Text :=
  joined [namedLine "            $dumpfile(" "\"tb_" ".vcd\")" name] ++
    (joined [namedLine "            $dumpvars(0" ", tb_" ")" name] ++
    (cleaned (((mainProcess bare).drop 7).take 2) ++
    (joined [namedLine "            $fsdbDumpfile(" "\"tb_" ".fsdb\")" name] ++
    joined [namedLine "            $fsdbDumpvars(0" ", tb_" ")" name])))

theorem cleans_dumpLines {name : Text} (h : isIdentifier name = true) :
    Cleans (dumpLines name) (dumpCode name) :=
  (cleans_namedLine h (by decide)).append ((cleans_namedLine h (by decide)).append
    ((cleans_lines rfl).append ((cleans_namedLine h (by decide)).append
      (cleans_namedLine h (by decide)))))

theorem found_last {name : Text} (h : isIdentifier name = true) :
    found false (cleaned processLines ++ (dumpCode name ++ cleaned lastLines)) = lastFound := by
  have hfile : Finds (cleaned processLines ++
      joined [namedLine "            $dumpfile(" "\"tb_" ".vcd\")" name])
      [("task".toList, "apply_reset".toList)] :=
    finds_namedLine h scan_processLines.2 rfl (by decide)
  have hvars : Finds ([] ++ joined [namedLine "            $dumpvars(0" ", tb_" ")" name]) [] :=
    finds_namedLine h rfl rfl (by decide)
  have hfile' : Finds (cleaned (((mainProcess bare).drop 7).take 2) ++
      joined [namedLine "            $fsdbDumpfile(" "\"tb_" ".fsdb\")" name]) [] :=
    finds_namedLine h rfl rfl (by decide)
  have hvars' : Finds
      ([] ++ joined [namedLine "            $fsdbDumpvars(0" ", tb_" ")" name]) [] :=
    finds_namedLine h rfl rfl (by decide)
  have := (hfile.append (hvars.append (hfile'.append hvars'))) (cleaned lastLines)
  rw [scan_lastLines.2] at this
  simp only [dumpCode, List.append_assoc, List.nil_append] at this ⊢
  exact this

/-- The first two lines. -/
def preface : Text := "`timescale 1ns/1ps\n\n"

/-- What is left of a testbench after its first two lines. -/
def benchCode (clock reset : Text) (m : Module) : Text :=
  joined [namedLine "module" " tb_" [] m.name] ++ (cleaned ownLines ++
    ((otherPorts clock reset m).flatMap signalCode ++
    (cleaned ([] :: heading "3. DUT Instantiation") ++ (joined [instanceLine m] ++
    (joined (connectionLines clock reset (maxLength (m.ports.map (·.name)) + 1) m.ports) ++
    (cleaned ["    );".toList] ++
    (cleaned processLines ++ (dumpCode m.name ++ cleaned lastLines))))))))

section Bench

variable {m : Module} (clock reset : Text) (hm : isIdentifier m.name = true)
  (hparameters : m.parameters = []) (hports : ∀ p ∈ m.ports, isIdentifier p.name = true)
include hm hparameters hports

theorem cleans_bench (hclosed : ∀ p ∈ m.ports, Closed p.bitRange) :
    blankComments (joined (({} : Testbench).lines clock reset m)) =
      preface ++ benchCode clock reset m := by
  have hothers : ∀ p ∈ otherPorts clock reset m, isIdentifier p.name = true ∧ Closed p.bitRange :=
    fun p hp => ⟨hports p (List.mem_of_mem_filter hp), hclosed p (List.mem_of_mem_filter hp)⟩
  have hpreface : Cleans ["`timescale 1ns/1ps".toList, "".toList] preface :=
    cleans_lines rfl
  have hmodule : Cleans [namedLine "module" " tb_" [] m.name]
      (joined [namedLine "module" " tb_" [] m.name]) := cleans_namedLine hm (by decide)
  have hown : Cleans ownLines (cleaned ownLines) := cleans_lines scan_ownLines.1
  have hheading : Cleans ([] :: heading "3. DUT Instantiation")
      (cleaned ([] :: heading "3. DUT Instantiation")) := cleans_lines scan_heading.1
  have hconnections := cleans_connectionLines clock reset
    (maxLength (m.ports.map (·.name)) + 1) hports
  have hclosing : Cleans ["    );".toList] (cleaned ["    );".toList]) := cleans_lines rfl
  have hprocess : Cleans processLines (cleaned processLines) := cleans_lines scan_processLines.1
  have hlast : Cleans lastLines (cleaned lastLines) := cleans_lines scan_lastLines.1
  have hall := hpreface.append (hmodule.append (hown.append ((cleans_signalLines hothers).append
    (hheading.append ((cleans_instanceLine hm hparameters).append (hconnections.append
    (hclosing.append (hprocess.append ((cleans_dumpLines hm).append hlast)))))))))
  have := hall []
  rw [← lines_eq hparameters] at this
  have hnil : blankComments [] = [] := rfl
  rw [List.append_nil, hnil, List.append_nil] at this
  unfold benchCode
  exact this

theorem found_bench : found false (benchCode clock reset m) =
    ((otherPorts clock reset m).flatMap fun p => found false (blankComments p.bitRange)) ++
      (m.name, "u_dut".toList) :: lastFound := by
  have hmodule : Finds ([] ++ joined [namedLine "module" " tb_" [] m.name]) [] :=
    finds_namedLine hm rfl rfl (by decide)
  have hown : Finds (cleaned ownLines) [] :=
    finds_of_isEnded scan_ownLines.2.2 scan_ownLines.2.1
  have hothers : ∀ p ∈ otherPorts clock reset m, isIdentifier p.name = true := fun p hp =>
    hports p (List.mem_of_mem_filter hp)
  have hheading : Idle (cleaned ([] :: heading "3. DUT Instantiation")) :=
    .of_marks scan_heading.2
  have hconnections := idle_connectionLines clock reset
    (maxLength (m.ports.map (·.name)) + 1) hports
  have hclosing : Idle (cleaned ["    );".toList]) := .of_marks rfl
  have hinstance := finds_instanceLine hm hparameters
  unfold benchCode
  have := hmodule.append (hown.append ((finds_signalLines hothers).append
    (hheading.finds.append (hinstance.append (hconnections.finds.append hclosing.finds)))))
  simpa [found_last hm] using this (cleaned processLines ++ (dumpCode m.name ++ cleaned lastLines))

end Bench

theorem exists_benchCode_eq (clock reset : Text) (m : Module) :
    ∃ u, preface ++ benchCode clock reset m =
      "`timescale 1ns/1ps\n\nmodule t".toList ++ ("b_".toList ++ (m.name ++ ';' :: u)) := by
  have hlead : preface ++ ("module".toList ++ " tb_".toList) =
      "`timescale 1ns/1ps\n\nmodule t".toList ++ "b_".toList := by
    unfold preface
    simp -index only [String.toList_ofList]
    rfl
  obtain ⟨u, hu⟩ : ∃ u, benchCode clock reset m =
      "module".toList ++ (" tb_".toList ++ (m.name ++ ';' :: u)) := by
    unfold benchCode namedLine joined
    simp only [List.flatMap_cons, List.append_assoc, List.nil_append, List.cons_append]
    exact ⟨_, rfl⟩
  refine ⟨u, ?_⟩
  rw [hu]
  simpa only [List.append_assoc] using congrArg (· ++ (m.name ++ ';' :: u)) hlead

/-- The heading of a testbench is found after its first two lines, and ends at a semicolon. -/
theorem readModule_bench {t clock reset : Text} {m : Module} (hm : isIdentifier m.name = true)
    (h : blankComments t = preface ++ benchCode clock reset m) (path : Text) :
    ∃ tb, readModule t path = some tb ∧ tb.name = "tb_".toList ++ m.name
      ∧ tb.parameters = [] ∧ tb.ports = []
      ∧ tb.instances = locatedInstances t (preface ++ benchCode clock reset m) 20 path := by
  have hheading : ∀ v : Text, findHeading? ("`timescale 1ns/1ps\n\nmodule t".toList ++ v) =
      some ⟨20, 27, 't' :: v.takeWhile isWord, v.dropWhile isWord⟩ := fun v => rfl
  obtain ⟨u, hu⟩ := exists_benchCode_eq clock reset m
  have hword : ∀ c ∈ "b_".toList ++ m.name, isWord c = true :=
    isWord_of_isIdentifier (isIdentifier_append rfl hm)
  have hname : ("b_".toList ++ (m.name ++ ';' :: u)).takeWhile isWord = "b_".toList ++ m.name := by
    rw [← List.append_assoc, List.takeWhile_append_of_pos hword]
    simp [(not_isWord_of_mem_marks (show ';' ∈ marks by decide)).2]
  have hrest : ("b_".toList ++ (m.name ++ ';' :: u)).dropWhile isWord = ';' :: u := by
    rw [← List.append_assoc, List.dropWhile_append_of_pos hword]
    simp [(not_isWord_of_mem_marks (show ';' ∈ marks by decide)).2]
  have hfind : findHeading? (preface ++ benchCode clock reset m) =
      some ⟨20, 27, "tb_".toList ++ m.name, ';' :: u⟩ := by
    rw [hu, hheading, hname, hrest]
    rfl
  have hheader : header? (';' :: u) = none := rfl
  simp only [readModule, h, hfind, hheader, Option.bind_eq_bind, Option.bind_some]
  exact ⟨_, rfl, rfl, rfl, rfl, rfl⟩

/-- Reserved words among the types and names leave one instance after that of the module. -/
theorem map_instances_bench (clock reset : Text) {m : Module} (hm : isIdentifier m.name = true)
    (hreserved : isReserved m.name = false) (hparameters : m.parameters = [])
    (hports : ∀ p ∈ m.ports, isIdentifier p.name = true) :
    (instances (preface ++ benchCode clock reset m) 20).map (fun f => (f.type, f.name)) =
      ((otherPorts clock reset m).flatMap fun p =>
        (instances (blankComments p.bitRange)).map fun f => (f.type, f.name)) ++
      [(m.name, "u_dut".toList), ("TEST".toList, "FAILED".toList)] := by
  have hrange : ∀ p : Port, (instances (blankComments p.bitRange)).map (fun f => (f.type, f.name)) =
      (found false (blankComments p.bitRange)).filter fun f => !isReserved f.1 && !isReserved f.2 :=
    fun p => map_instances_append [] (blankComments p.bitRange)
  have hdut : isReserved "u_dut".toList = false := not_isReserved_lead "dut"
  have hlast : (lastFound.filter fun f => !isReserved f.1 && !isReserved f.2) =
      [("TEST".toList, "FAILED".toList)] := by
    unfold lastFound isReserved reservedWords
    simp -index only [List.map_cons, List.map_nil, String.toList_ofList]
    rfl
  have hbench := map_instances_append preface (benchCode clock reset m)
  have hglued : preface.getLast?.any isWord = false := rfl
  rw [hglued, found_bench clock reset hm hparameters hports, List.filter_append,
    List.filter_flatMap, List.filter_cons, hreserved, hdut, hlast] at hbench
  simp only [hrange]
  exact hbench

/-- For a module without parameters, with identifiers for names, no reserved word for its own, and
ranges in which comments end: its testbench is read under its name, without parameters or ports. The
instances are those that stand in the ranges of signals, then the one of the module, and then one
more that the message of the watchdog is read as. -/
theorem readModule_testbench {m : Module} (hparameters : m.parameters = [])
    (hm : isIdentifier m.name = true) (hreserved : isReserved m.name = false)
    (hports : ∀ p ∈ m.ports, isIdentifier p.name = true)
    (hclosed : ∀ p ∈ m.ports, Closed p.bitRange) (path : Text) :
    ∃ clock reset t tb, ({} : Testbench).clockAndReset m = .ok (clock, reset)
      ∧ ({} : Testbench).render m = .ok t ∧ readModule t path = some tb
      ∧ tb.name = "tb_".toList ++ m.name ∧ tb.parameters = [] ∧ tb.ports = []
      ∧ tb.instances.map (fun i => (i.type, i.name)) =
        ((otherPorts clock reset m).flatMap fun p =>
          (instances (blankComments p.bitRange)).map fun f => (f.type, f.name)) ++
        [(m.name, "u_dut".toList), ("TEST".toList, "FAILED".toList)] := by
  obtain ⟨clock, reset, hnames⟩ := Config.readable_standard.exists_clockAndReset (b := {}) m
  have hrender : ({} : Testbench).render m =
      .ok (joined (({} : Testbench).lines clock reset m)) := by
    rw [render, hnames]
    rfl
  have hclean := cleans_bench clock reset hm hparameters hports hclosed
  obtain ⟨tb, hread, hname, hparameters', hports', hinstances⟩ := readModule_bench hm hclean path
  refine ⟨clock, reset, _, tb, hnames, hrender, hread, hname, hparameters', hports', ?_⟩
  rw [hinstances, locatedInstances, List.map_map]
  exact map_instances_bench clock reset hm hreserved hparameters hports

/-- A range with a comment, and one with the shape of an instance in it. -/
theorem readModule_testbench_ranges :
    let m : Module := { bare with
      name := "fifo"
      ports := [⟨"clk", .input, []⟩, ⟨"d", .input, "wire [W /* 8 */ - 1:0]"⟩,
        ⟨"q", .output, "[size u(2):0]"⟩] }
    ∃ t tb, ({} : Testbench).render m = .ok t ∧ readModule t [] = some tb
      ∧ tb.name = "tb_fifo" ∧ tb.parameters = [] ∧ tb.ports = []
      ∧ tb.instances.map (fun i => (i.type, i.name)) =
        [("size".toList, "u".toList), ("fifo".toList, "u_dut".toList),
          ("TEST".toList, "FAILED".toList)] := by
  intro m
  have hclosed : ∀ p ∈ m.ports, Closed p.bitRange := by
    rintro p hp u
    fin_cases hp <;> rfl
  have hreserved : isReserved "fifo" = false := by
    unfold isReserved reservedWords
    simp -index only [List.map_cons, List.map_nil, String.toList_ofList]
    rfl
  obtain ⟨clock, reset, t, tb, hnames, hrender, hread, hname, hparameters, hports, hinstances⟩ :=
    readModule_testbench (m := m) rfl rfl hreserved (by decide +kernel) hclosed []
  have hfound : (({} : Testbench).clockAndReset m).toOption =
      some ("clk".toList, "rst_n".toList) := by decide +kernel
  rw [hnames, Except.toOption, Option.some.injEq, Prod.mk.injEq] at hfound
  refine ⟨t, tb, hrender, hread, hname, hparameters, hports, hinstances.trans ?_⟩
  rw [hfound.1, hfound.2]
  decide +kernel

/-- The message of the watchdog is read as an instance, so that a testbench has one too many. -/
theorem readModule_testbench_message :
    ¬ ∀ m : Module, m.parameters = [] → isIdentifier m.name = true → isReserved m.name = false →
      (∀ p ∈ m.ports, isIdentifier p.name = true) →
      ∃ t tb, ({} : Testbench).render m = .ok t ∧ readModule t [] = some tb
        ∧ tb.instances.map (fun i => (i.type, i.name)) = [(m.name, "u_dut".toList)] := by
  intro h
  let m : Module := { bare with name := "m" }
  have hm : isIdentifier m.name = true := rfl
  have hreserved : isReserved "m" = false := by
    unfold isReserved reservedWords
    simp -index only [List.map_cons, List.map_nil, String.toList_ofList]
    rfl
  have hports : ∀ p ∈ m.ports, isIdentifier p.name = true ∧ Closed p.bitRange := by simp [m, bare]
  obtain ⟨t, tb, hrender, hread, hone⟩ := h m rfl hm hreserved fun p hp => (hports p hp).1
  obtain ⟨clock, reset, hnames⟩ := Config.readable_standard.exists_clockAndReset (b := {}) m
  rw [render, hnames] at hrender
  obtain rfl := Except.ok.inj hrender
  have hclean := cleans_bench clock reset hm rfl (fun p hp => (hports p hp).1) fun p hp =>
    (hports p hp).2
  obtain ⟨tb', hread', -, -, -, hinstances⟩ := readModule_bench hm hclean []
  obtain rfl := Option.some.inj (hread.symm.trans hread')
  have htwo := map_instances_bench clock reset hm hreserved rfl fun p hp => (hports p hp).1
  rw [hinstances, locatedInstances, List.map_map] at hone
  cases htwo.symm.trans hone

end Generate.Testbench

end VerilogIndex
