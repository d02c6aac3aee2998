import VerilogIndex.Design.Module
import VerilogIndex.Generate.Naming
import VerilogIndex.Value

/-!
# Testbenches

A testbench skeleton around one instance of a module: a clock, a reset task, a main process and a
watchdog. The clock and reset ports, found by name, are tied to the testbench's own clock and reset.
-/

namespace VerilogIndex.Generate

structure Testbench where
  naming : Naming := {}
  clockPeriod : Value := .double (Double.ofDecimal false 10 0)
  resetCycles : Value := .int 10
  timeout : Value := .int 50000

namespace Testbench

/-- The file that holds the testbench of a module. -/
def fileName (m : Module) : Text := "tb_" ++ m.name ++ ".sv"

/-- The names of the clock and the reset port, those of the testbench if there is none. -/
def clockAndReset (b : Testbench) (m : Module) : Except SearchError (Text × Text) := do
  let clock ← findPort m.ports b.naming.clock
  let reset ← findPort m.ports b.naming.reset
  return ((clock.map (·.name)).getD "clk", (reset.map (·.name)).getD "rst_n")

/-- The signal a port is connected to. -/
def target (clock reset name : Text) : Text :=
  if name = clock then "clk" else if name = reset then "rst_n" else name

/-- The three lines above a part of the testbench. -/
def heading (title : Text) : List Text :=
  let rule : Text := "    // " ++ List.replicate 73 '-'
  [rule, "    // " ++ title, rule]

def parameterLine (p : Parameter) : Text := "    localparam " ++ p.name ++ " = " ++ p.value ++ ";"

def signalLine (p : Port) : Text :=
  let range := p.bitRange
  "    logic" ++ Text.onlyIf (!range.isEmpty) (" " ++ range) ++ " " ++ p.name ++ ";"

/-- The lines that connect the ports, with names filled up to `width`. -/
def connectionLines (clock reset : Text) (width : Nat) : List Port → List Text
  | [] => []
  | p :: ps =>
    ("        ." ++ Text.padRight width p.name ++ "(" ++ target clock reset p.name ++ ")"
        ++ Text.onlyIf (!ps.isEmpty) ",")
      :: connectionLines clock reset width ps

/-- The line that opens the instance, its parameters set to the constants of their names. -/
def instanceLine (m : Module) : Text :=
  let sets : List Text := m.parameters.map fun p => "." ++ p.name ++ "(" ++ p.name ++ ")"
  "    " ++ m.name ++ Text.onlyIf (!sets.isEmpty) (" #(" ++ Text.joinWith ", " sets ++ ")")
    ++ " u_dut ("

def constants (b : Testbench) (m : Module) : List Text :=
  heading "1. Parameters & Constants" ++
  (["    localparam real CLK_PERIOD = " ++ b.clockPeriod.display ++ ";",
    "    localparam int  TIMEOUT    = " ++ b.timeout.display ++ "; // watchdog budget in cycles"]
    : List Text) ++
  m.parameters.map parameterLine

def signals (clock reset : Text) (m : Module) : List Text :=
  heading "2. Signals" ++
  (["    logic clk;", "    logic rst_n;", "", "    // DUT signals"] : List Text) ++
  (m.ports.filter fun p => p.name != clock && p.name != reset).map signalLine

def deviceUnderTest (clock reset : Text) (m : Module) : List Text :=
  heading "3. DUT Instantiation" ++ instanceLine m
    :: connectionLines clock reset (Text.maxLength (m.ports.map (·.name)) + 1) m.ports
    ++ [("    );" : Text)]

def clockAndResetProcess (b : Testbench) : List Text :=
  heading "4. Clock & Reset Generation" ++ (["    initial begin",
   "        clk = 0;",
   "        forever #(CLK_PERIOD/2.0) clk = ~clk;",
   "    end",
   "",
   "    task apply_reset();",
   "    begin",
   "        $display(\"[%0t] Reset asserted\", $time);",
   "        rst_n = 0;",
   "        repeat(" ++ b.resetCycles.display ++ ") @(posedge clk);",
   "        @(negedge clk);",
   "        rst_n = 1;",
   "        $display(\"[%0t] Reset released\", $time);",
   "    end",
   "    endtask"] : List Text)

def mainProcess (m : Module) : List Text :=
  heading "5. Main Test Process" ++ (["    initial begin",
   "        `ifdef DUMP_VCD",
   "            $dumpfile(\"tb_" ++ m.name ++ ".vcd\");",
   "            $dumpvars(0, tb_" ++ m.name ++ ");",
   "        `endif",
   "        `ifdef DUMP_FSDB",
   "            $fsdbDumpfile(\"tb_" ++ m.name ++ ".fsdb\");",
   "            $fsdbDumpvars(0, tb_" ++ m.name ++ ");",
   "        `endif",
   "",
   "        apply_reset();",
   "        $display(\"[%0t] Test started\", $time);",
   "",
   "        // Drive stimulus here",
   "        repeat(100) @(posedge clk);",
   "",
   "        $display(\"[%0t] TEST PASSED\", $time);",
   "        $finish;",
   "    end"] : List Text)

def watchdog : List Text :=
  heading "6. Watchdog" ++ (["    initial begin",
   "        repeat(TIMEOUT) @(posedge clk);",
   "        $display(\"Error: simulation timeout after %0d cycles\", TIMEOUT);",
   "        $display(\"[%0t] TEST FAILED (TIMEOUT)\", $time);",
   "        $fatal;",
   "    end"] : List Text)

/-- The lines of the testbench, given the names of the clock and the reset port. -/
def lines (b : Testbench) (clock reset : Text) (m : Module) : List Text :=
  List.flatten (α := Text) [
    ["`timescale 1ns/1ps", "", "module tb_" ++ m.name ++ ";"],
    [] :: b.constants m,
    [] :: signals clock reset m,
    [] :: deviceUnderTest clock reset m,
    [] :: b.clockAndResetProcess,
    [] :: mainProcess m,
    [] :: watchdog,
    [[], "endmodule"]]

def render (b : Testbench) (m : Module) : Except SearchError Text := do
  let (clock, reset) ← b.clockAndReset m
  return (b.lines clock reset m).flatMap fun line => line ++ "\n"

end Testbench

end VerilogIndex.Generate
