import Mathlib.Data.List.Induction
import VerilogIndex.Elaboration

/-!
# Readings through a compiler

A reading through a compiler is the module that a scan of the text finds, with the ports and the
parameters that the compiler tells (`readModule_eq`). So whatever the compiler tells, the two agree
on all else (`readModule_sameBody`).

The errors of a compiler are kept beside the readings; only a text that is compiled changes them.
A text without a module is not compiled. So the errors kept are those of the last text that was
compiled (`keptAfter_eq`), and after a text without a module they can be those of an older one
(`kept_iff_reported`).
-/

namespace VerilogIndex.Elaboration

/-! ## The parts of a reading -/

/-- The error messages among the diagnostics. -/
def Compiler.errors (c : Compiler) : List Text := (c.diagnostics.filter (·.1)).map (·.2)

/-- What it takes to compile a text. -/
def Compiler.start (c : Compiler) : Except Error Unit := do
  c.need .syntaxTree
  c.need .compilation

/-- The module with another interface. -/
def withInterface (m : Module) (i : List Parameter × List Port) : Module :=
  { m with parameters := i.1, ports := i.2 }

theorem readModule_eq (errors : List Text) (c : Compiler) (t path : Text) :
    readModule errors (some c) t path =
      match Source.readModule t path with
      | none => (.ok none, errors)
      | some m =>
        match c.start with
        | .error e => (.error e, errors)
        | .ok () => ((c.interface m.name).map fun i => some (withInterface m i), c.errors) := by
  rw [readModule, Source.readModule]
  rcases Source.findHeading? (Source.blankComments t) with _ | heading
  · rfl
  · simp only [Option.bind_eq_bind, Option.bind_some]
    rw [show (do c.need .syntaxTree; c.need .compilation) = c.start from rfl]
    rcases c.start with e | ⟨⟩
    · rfl
    · rcases c.interface heading.name with e | i <;> rfl

/-- It fails only for a part that the compiler lacks. -/
def Compiler.Needs {α : Type} (c : Compiler) (x : Except Error α) : Prop :=
  ∀ e, x = .error e → ∃ p ∈ c.missing, e = .missing p

namespace Compiler

variable {α β : Type} (c : Compiler)

theorem needs_ok (a : α) : c.Needs (.ok a) := fun e he => by cases he

theorem needs_need (part : Part) : c.Needs (c.need part) := fun e he => by
  rw [need] at he
  split_ifs at he with hp
  cases he
  exact ⟨part, hp, rfl⟩

variable {c}

theorem Needs.bind {x : Except Error α} {f : α → Except Error β} (hx : c.Needs x)
    (hf : ∀ a, c.Needs (f a)) : c.Needs (x >>= f) := by
  rcases x with e | a
  · rintro _ ⟨⟩
    exact hx e rfl
  · exact hf a

theorem needs_start : c.Needs c.start :=
  (c.needs_need .syntaxTree).bind fun _ => c.needs_need .compilation

theorem needs_interface (name : Text) : c.Needs (c.interface name) := by
  rw [interface]
  split
  · exact c.needs_ok _
  · refine (c.needs_need .symbolKind).bind fun _ => ?_
    dsimp only
    split_ifs
    · exact (c.needs_need .argumentDirection).bind fun _ => c.needs_ok _
    · exact c.needs_ok _

end Compiler

/-! ## Agreement with a scan -/

/-- Two modules that can differ in their ports and parameters only. -/
structure SameBody (m m' : Module) : Prop where
  name : m.name = m'.name
  file : m.file = m'.file
  location : m.location = m'.location
  instances : m.instances = m'.instances

/-- What a reading through a compiler and a scan of the same text come to. -/
inductive Agrees (c : Compiler) : Except Error (Option Module) → Option Module → Prop
  | noModule : Agrees c (.ok none) none
  | found {m m' : Module} (body : SameBody m m') : Agrees c (.ok (some m)) (some m')
  /-- The text has a module, but the compiler lacks a part. -/
  | lacking {p : Part} {m' : Module} (part : p ∈ c.missing) :
      Agrees c (.error (.missing p)) (some m')

theorem agrees_readModule (errors : List Text) (c : Compiler) (t path : Text) :
    Agrees c (readModule errors (some c) t path).1 (Source.readModule t path) := by
  rw [readModule_eq]
  rcases Source.readModule t path with _ | m
  · exact .noModule
  · dsimp only
    rcases hstart : c.start with e | ⟨⟩
    · obtain ⟨p, hp, rfl⟩ := Compiler.needs_start e hstart
      exact .lacking hp
    · dsimp only
      rcases hface : c.interface m.name with e | i
      · obtain ⟨p, hp, rfl⟩ := Compiler.needs_interface m.name e hface
        exact .lacking hp
      · exact .found ⟨rfl, rfl, rfl, rfl⟩

/-- A reading through a compiler that lacks nothing comes to an end. Whenever one does, there is no
module if and only if a scan finds none, and otherwise the two modules have the same name, file,
location and instances, each with its location and owner. What the compiler tells, and the errors
kept from earlier readings, do not matter. -/
theorem readModule_sameBody (errors : List Text) (c : Compiler) (t path : Text) :
    (c.missing = [] → ∃ r, (readModule errors (some c) t path).1 = .ok r)
    ∧ ∀ r, (readModule errors (some c) t path).1 = .ok r →
      (r = none ↔ Source.readModule t path = none)
        ∧ ∀ m ∈ r, ∀ m' ∈ Source.readModule t path, SameBody m m' := by
  have hagrees := agrees_readModule errors c t path
  generalize (readModule errors (some c) t path).1 = r at hagrees ⊢
  generalize Source.readModule t path = r' at hagrees ⊢
  cases hagrees with
  | noModule => simp
  | found body =>
    refine ⟨fun _ => ⟨_, rfl⟩, ?_⟩
    rintro r ⟨⟩
    simpa using body
  | lacking part =>
    refine ⟨fun hnone => ?_, fun r hr => by cases hr⟩
    rw [hnone] at part
    cases part

/-- The compiler tells another type for the port; a comment names another module. -/
theorem readModule_sameBody_ranged :
    let c : Compiler := {
      tops := [{
        name := "m"
        ports := [{ name := "a", direction := some .input, type := ⟨true, 8, none⟩ }] }]
      diagnostics := [(true, "unknown module")] }
    let t : Text := "// module x\nmodule m (input a); sub u1 (); endmodule"
    let scanned : Module := {
      name := "m", file := "m.sv", location := ⟨"m.sv", 1, 7, 1⟩, ports := [⟨"a", .input, []⟩]
      instances := [⟨"sub", "u1", ⟨"m.sv", 1, 24, 2⟩, "m.sv"⟩] }
    let elaborated : Module := { scanned with ports := [⟨"a", .input, "[7:0]"⟩] }
    c.missing = [] ∧ (readModule ["old"] (some c) t "m.sv").1 = .ok (some elaborated)
      ∧ Source.readModule t "m.sv" = some scanned ∧ SameBody elaborated scanned := by
  intro c t scanned elaborated
  have hread : (readModule ["old"] (some c) t "m.sv").1 = .ok (some elaborated) := by decide +kernel
  have hscan : Source.readModule t "m.sv" = some scanned := by decide +kernel
  exact ⟨rfl, hread, hscan,
    ((readModule_sameBody ["old"] c t "m.sv").2 _ hread).2 _ rfl _ hscan⟩

/-! ## Errors kept -/

/-- A text that is to be read, and the compiler if there is one. -/
structure Call where
  text : Text
  path : Text
  compiler : Option Compiler

namespace Call

/-- The reading, and the errors kept after it. -/
def read (k : Call) (errors : List Text) : Except Error (Option Module) × List Text :=
  readModule errors k.compiler k.text k.path

/-- The errors kept after calls one after the other; at first there are none. -/
def keptAfter (calls : List Call) : List Text := calls.foldl (fun errors k => (k.read errors).2) []

/-- The errors that the compiler reports in a call, if the text is compiled at all: it has a module,
and the compiler can start. -/
def reported? (k : Call) : Option (List Text) :=
  match k.compiler, Source.readModule k.text k.path with
  | some c, some _ =>
    if .syntaxTree ∈ c.missing ∨ .compilation ∈ c.missing then none else some c.errors
  | _, _ => none

/-- The errors of the last call that compiled its text. -/
def lastReported (calls : List Call) : List Text := ((calls.filterMap reported?).getLast?).getD []

theorem start_eq_ok_iff {c : Compiler} :
    c.start = .ok () ↔ ¬ (.syntaxTree ∈ c.missing ∨ .compilation ∈ c.missing) := by
  by_cases htree : Part.syntaxTree ∈ c.missing <;> by_cases hcomp : Part.compilation ∈ c.missing <;>
    simp [Compiler.start, Compiler.need, htree, hcomp, bind, Except.bind]

/-- What a call can do: a text that is not compiled leaves the errors alone and gives no module, and
one that is compiled puts its own errors in their place and has a module. -/
theorem read_cases (k : Call) (errors : List Text) :
    (k.reported? = none ∧ (k.read errors).2 = errors ∧ ∀ m, (k.read errors).1 ≠ .ok (some m))
    ∨ ∃ c, k.compiler = some c ∧ k.reported? = some c.errors ∧ (k.read errors).2 = c.errors
      ∧ (k.read errors).1 ≠ .ok none := by
  obtain ⟨t, path, _ | c⟩ := k
  · exact .inl ⟨rfl, rfl, fun m hm => by cases hm⟩
  simp only [read, readModule_eq, reported?]
  rcases Source.readModule t path with _ | m
  · exact .inl ⟨rfl, rfl, fun m hm => by cases hm⟩
  dsimp only
  rcases hstart : c.start with e | ⟨⟩
  · have hmissing : .syntaxTree ∈ c.missing ∨ .compilation ∈ c.missing := by
      by_contra hno
      rw [start_eq_ok_iff.2 hno] at hstart
      cases hstart
    exact .inl ⟨if_pos hmissing, rfl, fun m hm => by cases hm⟩
  · refine .inr ⟨c, rfl, if_neg (start_eq_ok_iff.1 hstart), rfl, fun hm => ?_⟩
    dsimp only at hm
    rcases hface : c.interface m.name with e | i <;> rw [hface] at hm <;> cases hm

theorem keptAfter_append (calls : List Call) (k : Call) :
    keptAfter (calls ++ [k]) = k.reported?.getD (keptAfter calls) := by
  rw [keptAfter, List.foldl_append, List.foldl_cons, List.foldl_nil, ← keptAfter]
  rcases k.read_cases (keptAfter calls) with ⟨hnone, hkept, -⟩ | ⟨c, -, hsome, hkept, -⟩
  · rw [hnone, hkept, Option.getD_none]
  · rw [hsome, hkept, Option.getD_some]

theorem lastReported_append (calls : List Call) (k : Call) :
    lastReported (calls ++ [k]) = k.reported?.getD (lastReported calls) := by
  rw [lastReported, List.filterMap_append, List.getLast?_append]
  rcases h : k.reported? with _ | es <;> simp [h, lastReported]

theorem keptAfter_eq (calls : List Call) : keptAfter calls = lastReported calls := by
  induction calls using List.reverseRecOn with
  | nil => rfl
  | append_singleton calls k ih => rw [keptAfter_append, lastReported_append, ih]

/-- After a call that finds a module, the errors kept are those that the compiler reported in this
call. After a call that finds none, which reports nothing, they are those of the last call that
compiled its text. So after a call that comes to an end they are the errors of this call if and only
if it found a module or there were no errors to keep. -/
theorem kept_iff_reported (before : List Call) (k : Call) {r : Option Module}
    (h : (k.read (keptAfter before)).1 = .ok r) :
    (∀ m, r = some m → ∃ c, k.compiler = some c ∧ k.reported? = some c.errors
      ∧ keptAfter (before ++ [k]) = c.errors)
    ∧ (r = none → k.reported? = none ∧ keptAfter (before ++ [k]) = lastReported before)
    ∧ (keptAfter (before ++ [k]) = k.reported?.getD [] ↔ r ≠ none ∨ lastReported before = []) := by
  rw [keptAfter_append, ← keptAfter_eq before]
  rcases k.read_cases (keptAfter before) with ⟨hnone, -, hread⟩ | ⟨c, hc, hsome, -, hread⟩ <;>
    rw [h] at hread
  · obtain rfl : r = none := Option.eq_none_iff_forall_ne_some.2 fun m hm => hread m (by rw [hm])
    simp [hnone]
  · have hr : r ≠ none := fun hr => hread (by rw [hr])
    simp [hsome, hc, hr]

/-- A file with an error is read again after the error is gone, and then a package. -/
theorem kept_iff_reported_mended :
    let old : Call := ⟨"module m; endmodule", "m.sv", some { diagnostics := [(true, "e1")] }⟩
    let new : Call := ⟨"module m; endmodule", "m.sv", some { diagnostics := [(false, "w1")] }⟩
    let other : Call := ⟨"package p; endpackage", "p.sv", some {}⟩
    (∃ r, (other.read (keptAfter [old, new])).1 = .ok r) ∧ keptAfter [old] = ["e1".toList]
      ∧ keptAfter [old, new, other] = other.reported?.getD [] := by
  intro old new other
  have hread : (other.read (keptAfter [old, new])).1 = .ok none := by decide +kernel
  exact ⟨⟨none, hread⟩, by decide +kernel,
    (kept_iff_reported [old, new] other hread).2.2.2 (.inr (by decide +kernel))⟩

/-- A package is read after a module with an error: nothing is compiled, and the error stays. -/
theorem kept_of_older_text :
    let old : Call := ⟨"module m; endmodule", "m.sv", some { diagnostics := [(true, "e1")] }⟩
    let other : Call := ⟨"package p; endpackage", "p.sv", some {}⟩
    (other.read (keptAfter [old])).1 = .ok none ∧ other.reported? = none
      ∧ keptAfter [old, other] = ["e1".toList] := by
  decide +kernel

end Call

end VerilogIndex.Elaboration
