import VerilogIndex.Command.Basic

/-!
# Help

What is printed about the program and each of its commands, eighty columns wide.
-/

namespace VerilogIndex.Command

def programHelp : List Text := [
  "usage: hdlhelper.py [-h] [--config YAML] [--strategy \x7bfast,slang\x7d] [-v]",
  "                    \x7binstantiate,declare,testbench,doc,scan,hierarchy,definition," ++
    "hover,watch\x7d",
  "                    ...",
  "",
  "Index, generate and navigate Verilog/SystemVerilog code.",
  "",
  "positional arguments:",
  "  \x7binstantiate,declare,testbench,doc,scan,hierarchy,definition,hover,watch\x7d",
  "    instantiate         Print an instantiation template for a module.",
  "    declare             Declare the signals connected in commented",
  "                        instantiation code.",
  "    testbench           Generate a testbench skeleton for a module.",
  "    doc                 Print module documentation.",
  "    scan                Index a project and list its modules.",
  "    hierarchy           Print the design hierarchy.",
  "    definition          Locate a module definition.",
  "    hover               Summarise a module's interface.",
  "    watch               Keep a project index up to date.",
  "",
  "options:",
  "  -h, --help            show this help message and exit",
  "  --config YAML         Configuration file (default: <root>/.hdlhelper.yaml if",
  "                        present).",
  "  --strategy \x7bfast,slang\x7d",
  "                        Parser strategy (default: from configuration, else",
  "                        fast).",
  "  -v, --verbose         Enable debug logging."]

def instantiateHelp : List Text := [
  "usage: hdlhelper.py instantiate [-h] [--module NAME] [--root ROOT]",
  "                                [--comments]",
  "                                [FILE]",
  "",
  "positional arguments:",
  "  FILE           Verilog/SystemVerilog file to parse.",
  "",
  "options:",
  "  -h, --help     show this help message and exit",
  "  --module NAME  Take module NAME from the project index instead of parsing",
  "                 FILE.",
  "  --root ROOT    Project root searched for --module (default: current",
  "                 directory).",
  "  --comments     Append '// direction type' comments to every port line."]

def declareHelp : List Text := [
  "usage: hdlhelper.py declare [-h] [--storage \x7blogic,wire,reg\x7d] [FILE]",
  "",
  "positional arguments:",
  "  FILE                  File holding instantiation code (default: read stdin).",
  "",
  "options:",
  "  -h, --help            show this help message and exit",
  "  --storage \x7blogic,wire,reg\x7d",
  "                        Storage class of the declarations (default: logic)."]

def testbenchHelp : List Text := [
  "usage: hdlhelper.py testbench [-h] [--module NAME] [--root ROOT]",
  "                              [--output-dir DIR] [--force] [--stdout]",
  "                              [FILE]",
  "",
  "positional arguments:",
  "  FILE              Verilog/SystemVerilog file to parse.",
  "",
  "options:",
  "  -h, --help        show this help message and exit",
  "  --module NAME     Take module NAME from the project index instead of parsing",
  "                    FILE.",
  "  --root ROOT       Project root searched for --module (default: current",
  "                    directory).",
  "  --output-dir DIR  Directory for tb_<module>.sv (default: next to FILE).",
  "  --force           Overwrite an existing testbench file.",
  "  --stdout          Print the testbench instead of writing a file."]

def docHelp : List Text := [
  "usage: hdlhelper.py doc [-h] [--module NAME] [--root ROOT]",
  "                        [--doc-format \x7bmarkdown,csv\x7d]",
  "                        [FILE]",
  "",
  "positional arguments:",
  "  FILE                  Verilog/SystemVerilog file to parse.",
  "",
  "options:",
  "  -h, --help            show this help message and exit",
  "  --module NAME         Take module NAME from the project index instead of",
  "                        parsing FILE.",
  "  --root ROOT           Project root searched for --module (default: current",
  "                        directory).",
  "  --doc-format \x7bmarkdown,csv\x7d",
  "                        Output format (default: markdown)."]

def scanHelp : List Text := [
  "usage: hdlhelper.py scan [-h] ROOT",
  "",
  "positional arguments:",
  "  ROOT        Project root directory.",
  "",
  "options:",
  "  -h, --help  show this help message and exit"]

def hierarchyHelp : List Text := [
  "usage: hdlhelper.py hierarchy [-h] [--top MODULE] ROOT",
  "",
  "positional arguments:",
  "  ROOT          Project root directory.",
  "",
  "options:",
  "  -h, --help    show this help message and exit",
  "  --top MODULE  Top module (default: all modules)."]

def definitionHelp : List Text := [
  "usage: hdlhelper.py definition [-h] ROOT NAME",
  "",
  "positional arguments:",
  "  ROOT        Project root directory.",
  "  NAME        Module name.",
  "",
  "options:",
  "  -h, --help  show this help message and exit"]

def hoverHelp : List Text := [
  "usage: hdlhelper.py hover [-h] ROOT NAME",
  "",
  "positional arguments:",
  "  ROOT        Project root directory.",
  "  NAME        Module name.",
  "",
  "options:",
  "  -h, --help  show this help message and exit"]

def watchHelp : List Text := [
  "usage: hdlhelper.py watch [-h] ROOT",
  "",
  "positional arguments:",
  "  ROOT        Project root directory.",
  "",
  "options:",
  "  -h, --help  show this help message and exit"]

/-- The lines of the help on a command, or on the program. -/
def helpLines : Option Verb → List Text
  | none => programHelp
  | some .instantiate => instantiateHelp
  | some .declare => declareHelp
  | some .testbench => testbenchHelp
  | some .doc => docHelp
  | some .scan => scanHelp
  | some .hierarchy => hierarchyHelp
  | some .definition => definitionHelp
  | some .hover => hoverHelp
  | some .watch => watchHelp

/-- The text of some lines. -/
def textOf (lines : List Text) : Text := lines.flatMap fun l => l ++ "\n"

def helpText (verb : Option Verb) : Text := textOf (helpLines verb)

/-- The first lines of the help, up to an empty one. -/
def usageText (verb : Option Verb) : Text := textOf ((helpLines verb).takeWhile (!·.isEmpty))

/-- The name of the program, with that of a command. -/
def programName : (verb : Option Verb) → Text
  | none => "hdlhelper.py"
  | some verb => "hdlhelper.py " ++ verb.text

/-- What is said about a wrong command line. -/
def complaint (verb : Option Verb) (e : UsageError) : Text :=
  usageText verb ++ programName verb ++ ": error: " ++ e.message ++ "\n"

end VerilogIndex.Command
