import VerilogIndex.Proofs.Blanking
import VerilogIndex.Proofs.TestbenchReading

/-!
# Wiring of a testbench

A testbench declares a signal for each port other than the clock and the reset, and connects all
ports of its instance. What it declares and connects is read off its lines (`readWiring?`), without
a look at the module that it was made for.

The signals stand below a title. If the clock period and the timeout are told in one line, as any
numbers are (`isLine_display_int`, `isLine_display_double`), then above the title only the value of
a parameter can hold a line break. No comment opens in such a value, so none of its lines is taken
for the title (`not_mem_lines_parameterLine`). Main statement: `wiring_complete`.
-/

namespace VerilogIndex

open Text Source

/-- Two slashes after a space open a comment. -/
theorem Source.Uncommented.not_infix_slashes {v : Text} (h : Uncommented v) :
    ¬ " //".toList <:+: v := by
  rintro ⟨a, b, rfl⟩
  have hclear := blankComments_eq_self_iff.1 (h '\n' (.inr rfl) [])
  obtain ⟨c, hc, hguard⟩ := hclear.line (a ++ [' ']) (b ++ ['\n']) (by simp)
  rw [List.getLast?_concat, Option.some.injEq] at hc
  subst hc
  revert hguard
  decide

namespace Generate.Testbench

/-! ## Reading a testbench -/

/-- A signal that is declared for a port. -/
structure Net where
  name : Text
  range : Text
  deriving DecidableEq, Repr

/-- A port of the instance, the signal it is connected to, and whether a comma follows. -/
structure Connection where
  port : Text
  net : Text
  comma : Bool
  deriving DecidableEq, Repr

structure Wiring where
  nets : List Net
  connections : List Connection
  deriving DecidableEq, Repr

/-- The signal that a line declares. -/
def net? (line : Text) : Option Net := do
  let rest ← after? "    logic " line
  let name ← wordBefore? ';' (skipRange rest)
  return ⟨name, leadingRange rest⟩

/-- The connection that a line makes. -/
def connection? (line : Text) : Option Connection := do
  let rest ← after? "        ." line
  let port ← wordBefore? '(' rest
  let inside ← (cut '(' rest).2
  let net ← wordBefore? ')' inside
  match (cut ')' inside).2 with
  | some [] => return ⟨port, net, false⟩
  | some [','] => return ⟨port, net, true⟩
  | _ => none

/-- The lines above and below the first one with the property. -/
def cutAt (p : Text → Bool) (ls : List Text) : Option (List Text × List Text) :=
  match ls.dropWhile fun l => !p l with
  | [] => none
  | _ :: below => some (ls.takeWhile fun l => !p l, below)

/-- The line above the signals. -/
def signalTitle : Text := "    // DUT signals"

/-- The signals of a testbench, from their title to an empty line, and the connections of its
instance. -/
def readWiring? (t : Text) : Option Wiring := do
  let (_, ls) ← cutAt (· == signalTitle) (Text.lines t)
  let (signals, ls) ← cutAt (·.isEmpty) ls
  let (_, ls) ← cutAt (" u_dut (".toList.isSuffixOf ·) ls
  let (connections, _) ← cutAt (· == "    );") ls
  return ⟨← signals.mapM net?, ← connections.mapM connection?⟩

theorem cutAt_append {p : Text → Bool} {a : List Text} (ha : ∀ l ∈ a, p l = false) {l : Text}
    (hl : p l = true) (b : List Text) : cutAt p (a ++ l :: b) = some (a, b) := by
  have hpass : ∀ k ∈ a, (!p k) = true := fun k hk => by rw [ha k hk]; rfl
  rw [cutAt, List.dropWhile_append_of_pos hpass, List.takeWhile_append_of_pos hpass]
  simp [hl]

/-! ## Lines for ports -/

theorem net?_signalLine {p : Port} (h : isIdentifier p.name = true) :
    net? (signalLine p) = some ⟨p.name, p.bitRange⟩ := by
  obtain ⟨rest, hrest, hname, hrange⟩ := exists_after_signalLine h
  simp only [net?, hrest, hname, hrange, Option.bind_eq_bind, Option.bind_some]
  rfl

theorem connection?_line {name net : Text} (hn : isIdentifier name = true)
    (hnet : isIdentifier net = true) (width : Nat) (comma : Bool) :
    connection? ("        ." ++ padRight width name ++ "(" ++ net ++ ")" ++ onlyIf comma ",") =
      some ⟨name, net, comma⟩ := by
  have hgap : Gap (List.replicate (width - name.length) ' ') := fun c hc => by
    rw [List.eq_of_mem_replicate hc]
    rfl
  have hclose : ∀ ending, wordBefore? ')' (net ++ ')' :: ending) = some net := fun ending =>
    wordBefore?_name (by decide) gap_nil hnet gap_nil ending
  have hopen : ∀ inside, wordBefore? '(' (padRight width name ++ '(' :: inside) = some name :=
    fun inside => by
      rw [padRight, List.append_assoc]
      exact wordBefore?_name (by decide) gap_nil hn hgap inside
  have hline : ("        ." ++ padRight width name ++ "(" ++ net ++ ")" ++ onlyIf comma ",") =
      "        .".toList ++ (padRight width name ++ '(' :: (net ++ ')' :: onlyIf comma ",")) := by
    simp only [List.append_assoc]
    rfl
  have hcut : cut '(' (padRight width name ++ '(' :: (net ++ ')' :: onlyIf comma ",")) =
      (padRight width name, some (net ++ ')' :: onlyIf comma ",")) := by
    refine cut_append ?_ _
    simp [padRight, not_mem_name (by decide +kernel : isWord '(' = false) hn]
  have hcut' : cut ')' (net ++ ')' :: onlyIf comma ",") = (net, some (onlyIf comma ",")) :=
    cut_append (not_mem_name (by decide +kernel) hnet) _
  simp only [connection?, after?_eq_some_iff.2 hline, hopen, hclose, hcut, hcut',
    Option.bind_eq_bind, Option.bind_some]
  cases comma <;> rfl

/-- The connections of ports: the last has no comma. -/
def connectionsOf (clock reset : Text) : List Port → List Connection
  | [] => []
  | p :: ps => ⟨p.name, target clock reset p.name, !ps.isEmpty⟩ :: connectionsOf clock reset ps

theorem mapM_connectionLines (clock reset : Text) (width : Nat) : ∀ {ps : List Port},
    (∀ p ∈ ps, isIdentifier p.name = true) →
    (connectionLines clock reset width ps).mapM connection? = some (connectionsOf clock reset ps)
  | [], _ => rfl
  | p :: ps, h => by
    obtain ⟨hp, hps⟩ := List.forall_mem_cons.1 h
    rw [connectionLines, List.mapM_cons,
      connection?_line hp (isIdentifier_target clock reset hp), mapM_connectionLines _ _ _ hps]
    rfl

/-! ## Lines without breaks -/

/-- The text is a line: it has no line break. -/
def IsLine (t : Text) : Prop := ∀ c ∈ t, isLineBreak c = false

theorem IsLine.append {a b : Text} (ha : IsLine a) (hb : IsLine b) : IsLine (a ++ b) :=
  List.forall_mem_append.2 ⟨ha, hb⟩

theorem IsLine.sublist {a b : Text} (hb : IsLine b) (h : a.Sublist b) : IsLine a := fun c hc =>
  hb c (h.mem hc)

theorem isLine_name {name : Text} (h : isIdentifier name = true) : IsLine name := fun c hc =>
  not_isLineBreak_of_isWord (isWord_of_isIdentifier h c hc)

theorem isLine_of_all {t : Text} (h : (t.all fun c => !isLineBreak c) = true) : IsLine t := by
  simpa [IsLine] using h

theorem isLine_replicate {c : Char} (h : isLineBreak c = false) (n : Nat) :
    IsLine (List.replicate n c) := fun d hd => by
  rwa [List.eq_of_mem_replicate hd]

theorem IsLine.onlyIf {t : Text} (h : IsLine t) (b : Bool) : IsLine (Text.onlyIf b t) := by
  cases b
  · exact isLine_of_all rfl
  · exact h

theorem isLine_bitRange {p : Port} (h : p.WellFormed) : IsLine p.bitRange := by
  rw [Port.bitRange, firstGroup?]
  split
  · exact isLine_of_all rfl
  · rename_i r hr
    have hsub : (_ :: r).Sublist p.type := hr ▸ List.dropWhile_sublist _
    split_ifs
    · have htype : IsLine p.type := not_isLineBreak_of_neat h.type
      have hinner : IsLine (r.takeWhile (· != ']')) :=
        htype.sublist ((List.takeWhile_sublist _).trans ((List.sublist_cons_self _ r).trans hsub))
      exact ((isLine_of_all (t := ['[']) rfl).append hinner).append (isLine_of_all rfl)
    · exact isLine_of_all rfl

theorem isLine_signalLine {p : Port} (h : p.WellFormed) : IsLine (signalLine p) := by
  have hrange : IsLine (" ".toList ++ p.bitRange) :=
    (isLine_of_all rfl).append (isLine_bitRange h)
  exact ((((isLine_of_all rfl).append (hrange.onlyIf _)).append (isLine_of_all rfl)).append
    (isLine_name h.name)).append (isLine_of_all rfl)

theorem isLine_connectionLines (clock reset : Text) (width : Nat) : ∀ {ps : List Port},
    (∀ p ∈ ps, isIdentifier p.name = true) →
    ∀ l ∈ connectionLines clock reset width ps, IsLine l
  | [], _ => by simp [connectionLines]
  | p :: ps, h => by
    obtain ⟨hp, hps⟩ := List.forall_mem_cons.1 h
    have hname : IsLine (padRight width p.name) :=
      (isLine_name hp).append (isLine_replicate rfl _)
    have htarget := isLine_name (isIdentifier_target clock reset hp)
    have hcomma : IsLine ",".toList := isLine_of_all rfl
    refine List.forall_mem_cons.2 ⟨?_, isLine_connectionLines clock reset width hps⟩
    exact (((((isLine_of_all rfl).append hname).append (isLine_of_all rfl)).append htarget).append
      (isLine_of_all rfl)).append (hcomma.onlyIf _)

theorem isLine_instanceLine {m : Module} (hm : m.WellFormed) : IsLine (instanceLine m) :=
  forall_mem_instanceLine (fun _ => not_isLineBreak_of_isWord) (isLine_of_all rfl) hm.name
    hm.parameters

/-! ## Numbers -/

theorem isLine_ofNat (n : Nat) : IsLine (Text.ofNat n) := by
  intro c hc
  have hdigit := Nat.isDigit_of_mem_toDigits (by decide) (by decide) hc
  exact not_isLineBreak_of_isWord (by simp [isWord, Char.isAlphanum, hdigit])

theorem isLine_layOut (l : Double.Layout) {digits : Text} (h : IsLine digits) (point : Int) :
    IsLine (Double.layOut l digits point) := by
  have hmore : IsLine (if (digits.drop 1).isEmpty then [] else '.' :: digits.drop 1) := by
    split_ifs
    · exact isLine_of_all rfl
    · exact (isLine_of_all (t := ['.']) rfl).append (h.sublist (List.drop_sublist 1 digits))
  have hsign : IsLine (if point - 1 < 0 then "-" else "+" : String).toList := by
    split_ifs <;> exact isLine_of_all rfl
  have hzeros : ∀ n, IsLine (List.replicate n '0') := isLine_replicate rfl
  unfold Double.layOut
  dsimp only
  split
  · split
    · exact ((isLine_of_all rfl).append (hzeros _)).append h
    split
    · exact (h.append (hzeros _)).append (isLine_of_all rfl)
    · exact ((h.sublist (List.take_sublist _ digits)).append (isLine_of_all rfl)).append
        (h.sublist (List.drop_sublist _ digits))
  · have hfirst : IsLine (digits.take 1) := h.sublist (List.take_sublist 1 digits)
    have hmark : IsLine "e".toList := isLine_of_all rfl
    exact ((((hfirst.append hmore).append hmark).append hsign).append (hzeros _)).append
      (isLine_ofNat _)

theorem isLine_display_int : ∀ n : Int, IsLine (Value.int n).display
  | .ofNat n => isLine_ofNat n
  | .negSucc n => (isLine_of_all (t := ['-']) rfl).append (isLine_ofNat (n + 1))

theorem isLine_display_double : ∀ x : Double, IsLine (Value.double x).display
  | .nan => isLine_of_all rfl
  | .infinite true => isLine_of_all rfl
  | .infinite false => isLine_of_all rfl
  | .finite negative m q => by
    have hsign : IsLine (if negative then "-".toList else []) := by
      split_ifs <;> exact isLine_of_all rfl
    have hkept :
        IsLine ((Text.ofNat (Double.shortest m q).1).reverse.dropWhile (· == '0')).reverse :=
      fun c hc => isLine_ofNat _ c
        (List.mem_reverse.1 ((List.dropWhile_sublist _).mem (List.mem_reverse.1 hc)))
    change IsLine (Double.text (.finite negative m q))
    rw [Double.text]
    split
    · exact hsign.append (isLine_of_all rfl)
    · exact hsign.append (isLine_layOut _ hkept _)

/-! ## Lines above the signals -/

/-- No line of a constant is the title of the signals. -/
theorem not_mem_lines_parameterLine {p : Parameter} (hname : isIdentifier p.name = true)
    (hvalue : Uncommented p.value) : signalTitle ∉ Text.lines (parameterLine p) := by
  intro hmem
  have hlead : Uncommented ("    localparam " ++ p.name ++ " =") :=
    .of_not_mem (by simp [not_mem_name (by decide +kernel : isWord '/' = false) hname])
  have hline : parameterLine p =
      ("    localparam " ++ p.name ++ " =" ++ ' ' :: p.value) ++ [';'] := by
    unfold parameterLine
    simp only [List.append_assoc]
    rfl
  have hslashes : " //".toList <:+: signalTitle := ⟨"   ".toList, " DUT signals".toList, rfl⟩
  have hinfix := hslashes.trans (infix_of_mem_lines hmem)
  rw [hline, List.infix_concat_iff] at hinfix
  rcases hinfix with hsuffix | hinfix
  · have hlast := hsuffix.getLast (by simp)
    simp at hlast
  · exact (hlead.append (.inl rfl) hvalue).not_infix_slashes hinfix

theorem lines_parameterLines (t : Text) : ∀ ps : List Parameter,
    Text.lines (joined (ps.map parameterLine) ++ t) =
      (ps.flatMap fun p => Text.lines (parameterLine p)) ++ Text.lines t
  | [] => rfl
  | p :: ps => by
    obtain ⟨a, ha⟩ : ∃ a, parameterLine p = a ++ [';'] := ⟨_, rfl⟩
    rw [List.map_cons, joined_cons, ha, lines_append _ rfl, lines_parameterLines t ps, ← ha,
      List.flatMap_cons, List.append_assoc]

/-- The lines above the constants of the parameters. -/
def opening (b : Testbench) (m : Module) : List Text :=
  (["`timescale 1ns/1ps", "", "module tb_" ++ m.name ++ ";"] : List Text) ++
    [] :: heading "1. Parameters & Constants" ++
    (["    localparam real CLK_PERIOD = " ++ b.clockPeriod.display ++ ";",
      "    localparam int  TIMEOUT    = " ++ b.timeout.display
        ++ "; // watchdog budget in cycles"] : List Text)

/-- The lines from the constants to the signals of the ports. -/
def ownSignals : List Text :=
  [] :: heading "2. Signals" ++ (["    logic clk;", "    logic rst_n;", ""] : List Text)

/-- The line is not the title of the signals, nor is a break in it. -/
def Ordinary (l : Text) : Prop := IsLine l ∧ l ≠ signalTitle

theorem ordinary_of_all {ls : List Text}
    (h : (ls.all fun l => (l.all fun c => !isLineBreak c) && l != signalTitle) = true) :
    ∀ l ∈ ls, Ordinary l := by
  intro l hl
  have hboth := List.all_eq_true.1 h l hl
  rw [Bool.and_eq_true, bne_iff_ne] at hboth
  exact ⟨isLine_of_all hboth.1, hboth.2⟩

theorem ordinary_opening {b : Testbench} {m : Module} (hm : isIdentifier m.name = true)
    (hperiod : IsLine b.clockPeriod.display) (htimeout : IsLine b.timeout.display) :
    ∀ l ∈ b.opening m, Ordinary l := by
  -- where these lines have a letter, the title has a slash
  have hne : ∀ {l : Text}, l[4]? = some 'l' → l ≠ signalTitle := by
    rintro _ h rfl
    exact absurd h (by decide)
  have hmodule : Ordinary ("module tb_" ++ m.name ++ ";") :=
    ⟨((isLine_of_all rfl).append (isLine_name hm)).append (isLine_of_all rfl), hne rfl⟩
  have hclock : Ordinary ("    localparam real CLK_PERIOD = " ++ b.clockPeriod.display ++ ";") :=
    ⟨((isLine_of_all rfl).append hperiod).append (isLine_of_all rfl), hne rfl⟩
  have hbudget : Ordinary ("    localparam int  TIMEOUT    = " ++ b.timeout.display
      ++ "; // watchdog budget in cycles") :=
    ⟨((isLine_of_all rfl).append htimeout).append (isLine_of_all rfl), hne rfl⟩
  have hfirst : ∀ l ∈ (["`timescale 1ns/1ps", ""] : List Text), Ordinary l :=
    ordinary_of_all (by decide +kernel)
  have hheading : ∀ l ∈ [] :: heading "1. Parameters & Constants", Ordinary l :=
    ordinary_of_all (by decide +kernel)
  simp only [opening, List.forall_mem_append, List.forall_mem_cons] at hfirst hheading ⊢
  exact ⟨⟨⟨hfirst.1, hfirst.2.1, hmodule, by simp⟩, hheading⟩, hclock, hbudget, by simp⟩

theorem ordinary_ownSignals : ∀ l ∈ ownSignals, Ordinary l := ordinary_of_all (by decide +kernel)

/-! ## The sections of a testbench -/

/-- The lines from the signals of the ports to the end of the instance. -/
def wired (clock reset : Text) (m : Module) : List Text :=
  (otherPorts clock reset m).map signalLine ++ [] :: (heading "3. DUT Instantiation" ++
    instanceLine m :: (connectionLines clock reset (maxLength (m.ports.map (·.name)) + 1) m.ports ++
    ["    );".toList]))

/-- The lines below the instance. -/
def closing (b : Testbench) (m : Module) : List Text :=
  ([] :: b.clockAndResetProcess) ++ (([] :: mainProcess m) ++ (([] :: watchdog) ++
    ([[], "endmodule"] : List Text)))

theorem lines_eq_sections (b : Testbench) (clock reset : Text) (m : Module) :
    b.lines clock reset m = b.opening m ++ (m.parameters.map parameterLine ++
      ((ownSignals ++ signalTitle :: wired clock reset m) ++ b.closing m)) := by
  simp only [lines, constants, signals, deviceUnderTest, opening, ownSignals, wired, closing,
    List.flatten_cons, List.flatten_nil, List.append_assoc, List.cons_append, List.nil_append,
    List.append_nil]
  rfl

theorem isLine_wired (clock reset : Text) {m : Module} (hm : m.WellFormed) :
    ∀ l ∈ wired clock reset m, IsLine l := by
  have hsignals : ∀ l ∈ (otherPorts clock reset m).map signalLine, IsLine l :=
    List.forall_mem_map.2 fun p hp => isLine_signalLine (hm.ports p (List.mem_of_mem_filter hp))
  have hheading : ∀ l ∈ [] :: heading "3. DUT Instantiation", Ordinary l :=
    ordinary_of_all (by decide +kernel)
  have hconnections := isLine_connectionLines clock reset
    (maxLength (m.ports.map (·.name)) + 1) fun p hp => (hm.ports p hp).name
  rw [wired, ← List.cons_append]
  simp only [List.forall_mem_append]
  refine ⟨hsignals, fun l hl => (hheading l hl).1, List.forall_mem_cons.2
    ⟨isLine_instanceLine hm, ?_⟩⟩
  exact List.forall_mem_append.2 ⟨hconnections, List.forall_mem_singleton.2 (isLine_of_all rfl)⟩

theorem lines_joined_lines {b : Testbench} {m : Module} (hm : m.WellFormed)
    (hperiod : IsLine b.clockPeriod.display) (htimeout : IsLine b.timeout.display)
    (clock reset : Text) :
    Text.lines (joined (b.lines clock reset m)) =
      b.opening m ++ ((m.parameters.flatMap fun p => Text.lines (parameterLine p)) ++
      ((ownSignals ++ signalTitle :: wired clock reset m) ++
      Text.lines (joined (b.closing m)))) := by
  have hopening : ∀ l ∈ b.opening m, IsLine l := fun l hl =>
    (ordinary_opening hm.name hperiod htimeout l hl).1
  have hwired : ∀ l ∈ ownSignals ++ signalTitle :: wired clock reset m, IsLine l :=
    List.forall_mem_append.2 ⟨fun l hl => (ordinary_ownSignals l hl).1,
      List.forall_mem_cons.2 ⟨isLine_of_all rfl, isLine_wired clock reset hm⟩⟩
  rw [lines_eq_sections, joined_append, joined_append, joined_append, lines_joined hopening,
    lines_parameterLines, lines_joined hwired]

theorem cutAt_title {b : Testbench} {m : Module} (hm : m.WellFormed)
    (hvalues : ∀ p ∈ m.parameters, Uncommented p.value)
    (hperiod : IsLine b.clockPeriod.display) (htimeout : IsLine b.timeout.display)
    (clock reset : Text) :
    ∃ above, cutAt (· == signalTitle) (Text.lines (joined (b.lines clock reset m))) =
      some (above, wired clock reset m ++ Text.lines (joined (b.closing m))) := by
  have hconstants : ∀ l ∈ m.parameters.flatMap fun p => Text.lines (parameterLine p),
      l ≠ signalTitle := by
    intro l hl
    obtain ⟨p, hp, hl⟩ := List.mem_flatMap.1 hl
    rintro rfl
    exact not_mem_lines_parameterLine (hm.parameters p hp) (hvalues p hp) hl
  have habove : ∀ l ∈ b.opening m ++ ((m.parameters.flatMap fun p => Text.lines (parameterLine p))
      ++ ownSignals), (l == signalTitle) = false := by
    simp only [List.forall_mem_append, beq_eq_false_iff_ne]
    exact ⟨fun l hl => (ordinary_opening hm.name hperiod htimeout l hl).2, hconstants,
      fun l hl => (ordinary_ownSignals l hl).2⟩
  have hcut := cutAt_append habove (beq_self_eq_true signalTitle)
    (wired clock reset m ++ Text.lines (joined (b.closing m)))
  rw [lines_joined_lines hm hperiod htimeout]
  simp only [List.append_assoc, List.cons_append] at hcut ⊢
  exact ⟨_, hcut⟩

theorem ne_end_of_mem_connectionLines (clock reset : Text) (width : Nat) : ∀ {ps : List Port},
    ∀ l ∈ connectionLines clock reset width ps, (l == "    );".toList) = false
  | [] => by simp [connectionLines]
  | _ :: _ => List.forall_mem_cons.2 ⟨rfl, ne_end_of_mem_connectionLines clock reset width⟩

/-- What is read from a testbench are the signals of the ports other than the clock and the reset,
and the connections of all ports. -/
theorem readWiring?_lines {b : Testbench} {m : Module} (hm : m.WellFormed)
    (hvalues : ∀ p ∈ m.parameters, Uncommented p.value)
    (hperiod : IsLine b.clockPeriod.display) (htimeout : IsLine b.timeout.display)
    (clock reset : Text) :
    readWiring? (joined (b.lines clock reset m)) = some
      ⟨(otherPorts clock reset m).map fun p => ⟨p.name, p.bitRange⟩,
        connectionsOf clock reset m.ports⟩ := by
  obtain ⟨above, htitle⟩ := cutAt_title hm hvalues hperiod htimeout clock reset
  generalize Text.lines (joined (b.closing m)) = below at htitle
  have hports : ∀ p ∈ m.ports, isIdentifier p.name = true := fun p hp => (hm.ports p hp).name
  have hwired : wired clock reset m ++ below = (otherPorts clock reset m).map signalLine ++ [] ::
      (heading "3. DUT Instantiation" ++ instanceLine m :: (connectionLines clock reset
        (maxLength (m.ports.map (·.name)) + 1) m.ports ++ "    );".toList :: below)) := by
    simp only [wired, List.append_assoc, List.cons_append, List.nil_append]
  have hsignals : ∀ l ∈ (otherPorts clock reset m).map signalLine, l.isEmpty = false :=
    List.forall_mem_map.2 fun _ _ => rfl
  have hheading : (heading "3. DUT Instantiation").all
      (fun l => !" u_dut (".toList.isSuffixOf l) = true := by
    decide +kernel
  have hopen : " u_dut (".toList.isSuffixOf (instanceLine m) = true :=
    List.isSuffixOf_iff_suffix.2 (List.suffix_append _ _)
  have hnets : ((otherPorts clock reset m).map signalLine).mapM net? =
      some ((otherPorts clock reset m).map fun p => ⟨p.name, p.bitRange⟩) := by
    rw [List.mapM_map]
    exact mapM_eq_map fun p hp => net?_signalLine (hports p (List.mem_of_mem_filter hp))
  simp only [List.all_eq_true, Bool.not_eq_true'] at hheading
  simp only [readWiring?, htitle, hwired, Option.bind_eq_bind, Option.bind_some,
    cutAt_append hsignals (p := List.isEmpty) (l := []) rfl,
    cutAt_append hheading hopen,
    cutAt_append (ne_end_of_mem_connectionLines clock reset _) (beq_self_eq_true _), hnets,
    mapM_connectionLines clock reset _ hports]
  rfl

/-! ## Complete wiring -/

theorem map_connectionsOf (clock reset : Text) : ∀ ps : List Port,
    ((connectionsOf clock reset ps).map fun c => (c.port, c.net)) =
      ps.map fun p => (p.name, target clock reset p.name)
  | [] => rfl
  | p :: ps =>
    congrArg ((p.name, target clock reset p.name) :: ·) (map_connectionsOf clock reset ps)

theorem mem_connectionsOf {clock reset : Text} {ps : List Port} {c : Connection}
    (h : c ∈ connectionsOf clock reset ps) :
    ∃ p ∈ ps, c.port = p.name ∧ c.net = target clock reset p.name := by
  have hmem := List.mem_map_of_mem (f := fun c : Connection => (c.port, c.net)) h
  rw [map_connectionsOf] at hmem
  obtain ⟨p, hp, heq⟩ := List.mem_map.1 hmem
  exact ⟨p, hp, (Prod.mk.inj heq).1.symm, (Prod.mk.inj heq).2.symm⟩

theorem commas_connectionsOf (clock reset : Text) : ∀ ps : List Port,
    (∀ c ∈ (connectionsOf clock reset ps).dropLast, c.comma = true)
      ∧ ∀ c ∈ (connectionsOf clock reset ps).getLast?, c.comma = false
  | [] => by simp [connectionsOf]
  | [p] => by simp [connectionsOf]
  | p :: q :: ps => by
    obtain ⟨hinner, hlast⟩ := commas_connectionsOf clock reset (q :: ps)
    exact ⟨List.forall_mem_cons.2 ⟨rfl, hinner⟩, hlast⟩

/-- Every port of the module is connected, and every signal is declared and connected. -/
structure Wiring.Complete (w : Wiring) (clock reset : Text) (m : Module) : Prop where
  ports : w.connections.map (·.port) = m.ports.map (·.name)
  /-- A comma follows each connection but the last. -/
  separated : ∀ c ∈ w.connections.dropLast, c.comma = true
  ended : ∀ c ∈ w.connections.getLast?, c.comma = false
  known : ∀ c ∈ w.connections, c.net = "clk".toList ∨ c.net = "rst_n".toList
    ∨ ∃ d ∈ w.nets, d.name = c.net
  clockNet : ∀ c ∈ w.connections, c.port = clock → c.net = "clk".toList
  resetNet : ∀ c ∈ w.connections, c.port ≠ clock → c.port = reset → c.net = "rst_n".toList
  ownNet : ∀ c ∈ w.connections, c.port ≠ clock → c.port ≠ reset → c.net = c.port
  declared : w.nets = (otherPorts clock reset m).map fun p => ⟨p.name, p.bitRange⟩
  connected : ∀ d ∈ w.nets, ∃ c ∈ w.connections, c.net = d.name

theorem complete_connectionsOf (clock reset : Text) (m : Module) :
    Wiring.Complete ⟨(otherPorts clock reset m).map fun p => ⟨p.name, p.bitRange⟩,
      connectionsOf clock reset m.ports⟩ clock reset m where
  ports := by
    have hpairs := congrArg (List.map Prod.fst) (map_connectionsOf clock reset m.ports)
    rwa [List.map_map, List.map_map] at hpairs
  separated := (commas_connectionsOf clock reset m.ports).1
  ended := (commas_connectionsOf clock reset m.ports).2
  known := by
    intro c hc
    obtain ⟨p, hp, -, hnet⟩ := mem_connectionsOf hc
    rw [hnet, target]
    split_ifs with hclock hreset
    · exact .inl rfl
    · exact .inr (.inl rfl)
    · exact .inr (.inr ⟨_, List.mem_map_of_mem (mem_otherPorts.2 ⟨hp, hclock, hreset⟩), rfl⟩)
  clockNet := by
    intro c hc hclock
    obtain ⟨p, -, hport, hnet⟩ := mem_connectionsOf hc
    rw [hnet, target, if_pos (hport.symm.trans hclock)]
  resetNet := by
    intro c hc hclock hreset
    obtain ⟨p, -, hport, hnet⟩ := mem_connectionsOf hc
    rw [hport] at hclock hreset
    rw [hnet, target, if_neg hclock, if_pos hreset]
  ownNet := by
    intro c hc hclock hreset
    obtain ⟨p, -, hport, hnet⟩ := mem_connectionsOf hc
    rw [hport] at hclock hreset
    rw [hnet, target, if_neg hclock, if_neg hreset, hport]
  declared := rfl
  connected := by
    refine List.forall_mem_map.2 fun p hp => ?_
    obtain ⟨hp, hclock, hreset⟩ := mem_otherPorts.1 hp
    have hpair := List.mem_map_of_mem (f := fun p : Port => (p.name, target clock reset p.name)) hp
    rw [← map_connectionsOf] at hpair
    obtain ⟨c, hc, heq⟩ := List.mem_map.1 hpair
    refine ⟨c, hc, (Prod.mk.inj heq).2.trans ?_⟩
    rw [target, if_neg hclock, if_neg hreset]

/-- The text of a testbench for a module that was read, whatever names the searches for the clock
and the reset find: its instance connects all ports of the module, in order and with commas between
them. The clock and the reset are connected to the signals of the testbench, and every other port to
the signal of its own name, which is declared with the range of the port; no other signals are
declared for ports, and each of them is connected. -/
theorem wiring_complete {b : Testbench} {isClock isReset : Text → Bool}
    (hclock : b.naming.clock = .names isClock) (hreset : b.naming.reset = .names isReset)
    (hperiod : IsLine b.clockPeriod.display) (htimeout : IsLine b.timeout.display)
    {t path : Text} {m : Module} (hm : readModule t path = some m) :
    let clock := chosenName isClock "clk" m
    let reset := chosenName isReset "rst_n" m
    ∃ text w, b.render m = .ok text ∧ readWiring? text = some w ∧ w.Complete clock reset m := by
  intro clock reset
  have hrender : b.render m = .ok (joined (b.lines clock reset m)) := by
    rw [render, clockAndReset_eq hclock hreset]
    rfl
  exact ⟨_, _, hrender, readWiring?_lines (wellFormed_readModule hm)
    (uncommented_of_mem_parameters hm) hperiod htimeout clock reset,
    complete_connectionsOf clock reset m⟩

/-- A port that is called as the signal for the clock, one that is declared twice, and a value in
two lines. The reset is found by its case. -/
theorem wiring_complete_renamed :
    let t : Text :=
      "module m #(parameter W = 2 *\n 4) (input aclk, clk, rs, RS, output [W-1:0] q, [3:0] q);"
    let b : Testbench := { naming := ⟨.ofPattern "clk", .names fun name => name.head? == some 'R'⟩ }
    ∃ m text w, readModule t [] = some m ∧ m.ports.length = 6
      ∧ b.render m = .ok text ∧ readWiring? text = some w
      ∧ w.nets = [⟨"clk", []⟩, ⟨"rs", []⟩, ⟨"q", "[W-1:0]"⟩, ⟨"q", "[3:0]"⟩]
      ∧ w.Complete "aclk" "RS" m := by
  intro t b
  have hread : (readModule t []).any (fun m => m.ports = [⟨"aclk", .input, []⟩,
      ⟨"clk", .input, []⟩, ⟨"rs", .input, []⟩, ⟨"RS", .input, []⟩, ⟨"q", .output, "[W-1:0]"⟩,
      ⟨"q", .output, "[3:0]"⟩]) = true := by
    decide +kernel
  obtain ⟨m, hm, hcheck⟩ := (Option.any_eq_true _ _).1 hread
  have hports := of_decide_eq_true hcheck
  have hclock : Pattern.read "clk" = .ok (.seq (.one 'c') (.seq (.one 'l') (.one 'k'))) := by
    decide +kernel
  obtain ⟨text, w, hrender, hwiring, hcomplete⟩ :=
    wiring_complete (b := b) (Search.ofPattern_eq hclock) rfl (isLine_display_double _)
      (isLine_display_int _) hm
  have hnames :
      chosenName (Pattern.matchesIn (.seq (.one 'c') (.seq (.one 'l') (.one 'k')))) "clk" m
        = "aclk".toList
      ∧ chosenName (fun name => name.head? == some 'R') "rst_n" m = "RS".toList := by
    rw [chosenName, chosenName, hports]
    decide +kernel
  rw [hnames.1, hnames.2] at hcomplete
  have hnets := hcomplete.declared
  rw [otherPorts, hports] at hnets
  exact ⟨m, text, w, hm, by rw [hports]; rfl, hrender, hwiring, hnets, hcomplete⟩

end Generate.Testbench

end VerilogIndex
