import VerilogIndex.Text.Basic

/-!
# Reserved words

The words that never name a module or an instance, and those of them that can open the type of a
port.
-/

namespace VerilogIndex.Source

def reservedWords : List Text := List.map String.toList
  ["always", "always_ff", "always_comb", "always_latch", "assign", "initial", "final", "if",
   "else", "case", "casex", "casez", "default", "endcase", "begin", "end", "fork", "join",
   "join_any", "join_none", "generate", "endgenerate", "for", "foreach", "while", "do", "repeat",
   "forever", "return", "break", "continue", "wait", "disable", "iff", "unique", "unique0",
   "priority", "function", "endfunction", "task", "endtask", "class", "endclass", "covergroup",
   "endgroup", "coverpoint", "cross", "constraint", "assert", "assume", "cover", "expect",
   "property", "endproperty", "sequence", "endsequence", "clocking", "endclocking", "modport",
   "module", "endmodule", "interface", "endinterface", "package", "endpackage", "program",
   "endprogram", "checker", "endchecker", "config", "endconfig", "library", "design", "import",
   "export", "ifdef", "ifndef", "endif", "elsif", "define", "undef", "include", "input", "output",
   "inout", "ref", "wire", "reg", "logic", "bit", "byte", "shortint", "int", "longint", "integer",
   "time", "real", "realtime", "shortreal", "string", "void", "var", "tri", "wand", "wor",
   "supply0", "supply1", "genvar", "parameter", "localparam", "defparam", "typedef", "struct",
   "union", "enum", "packed", "signed", "unsigned", "automatic", "static", "virtual", "extern",
   "pure", "local", "protected", "const", "new", "posedge", "negedge", "edge"]

def isReserved (word : Text) : Bool := reservedWords.contains word

/-- Words that may open the type of a port that takes its direction from the port before it. -/
def dataTypeWords : List Text := List.map String.toList
  ["wire", "reg", "logic", "bit", "byte", "shortint", "int", "longint", "integer", "time", "real",
   "realtime", "shortreal", "string", "var", "tri", "tri0", "tri1", "triand", "trior", "wand",
   "wor", "uwire", "supply0", "supply1", "signed", "unsigned"]

end VerilogIndex.Source
