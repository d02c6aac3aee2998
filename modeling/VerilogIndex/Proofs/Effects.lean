import VerilogIndex.Command.Run
import VerilogIndex.Proofs.Places

/-!
# What commands do to files

All commands but one only read the disk (`keeps_run`). The command that writes a testbench looks
first whether there is something at the path; then it makes the folder, opens the file and writes
it, and last it prints the path. A run that fails before the file is open has made folders at most.
One that fails later leaves this one file behind, and in it a first part of the text
(`runTestbench_of_free`). Main statement: `files_of_execute`.
-/

namespace VerilogIndex

/-- A text with this ending ends in a name. -/
theorem Path.isName_baseName (t : Text) : IsName (baseName (t ++ ".sv")) := by
  have hbase : baseName (t ++ ".sv") = (t.reverse.takeWhile (· != '/')).reverse ++ ".sv" := by
    simp [baseName, List.takeWhile]
  have hlen : 3 ≤ (baseName (t ++ ".sv")).length := by
    rw [hbase, List.length_append]
    exact Nat.le_add_left 3 _
  refine ⟨?_, ?_, ?_, not_mem_baseName _⟩ <;>
  · intro he
    rw [he] at hlen
    simp at hlen

namespace Command

/-! ## Runs that only read -/

section Runs

variable {α β : Type} {console console' : Console} {x : Run α} {f : α → Run β}

theorem run_bind_of_ok {a : α} (h : x.run.run console = (.ok a, console')) :
    (x >>= f).run.run console = (f a).run.run console' := by
  rw [ExceptT.run_bind, StateT.run_bind, h]
  rfl

theorem run_bind_of_error {e : Exit} (h : x.run.run console = (.error e, console')) :
    (x >>= f).run.run console = (.error e, console') := by
  rw [ExceptT.run_bind, StateT.run_bind, h]
  rfl

theorem run_get_bind {f : Console → Run β} (console : Console) :
    (get >>= f).run.run console = (f console).run.run console := rfl

/-- What is around a run: the disk, the room on it, and what the output takes. -/
def surroundings (console : Console) : Disk × Option Nat × (Text → Text → Bool) :=
  (console.disk, console.room, console.takes)

/-- The run leaves the disk alone, however it ends, and the system is told if it fails. -/
def Keeps (x : Run α) : Prop :=
  ∀ console, surroundings (x.run.run console).2 = surroundings console
    ∧ ∀ e, (x.run.run console).1 = .error e → e.status ≠ 0

theorem keeps_pure (a : α) : Keeps (pure a) := fun _ => ⟨rfl, by rintro e ⟨⟩⟩

theorem keeps_get : Keeps (get : Run Console) := fun _ => ⟨rfl, by rintro e ⟨⟩⟩

theorem run_print (t : Text) (console : Console) : (print t).run.run console =
    if console.takes console.output t then (.ok (), { console with output := console.output ++ t })
    else (.error (.failure .output), console) := by
  rw [print, run_get_bind]
  split
  · rfl
  · rfl

theorem keeps_print (t : Text) : Keeps (print t) := by
  intro console
  rw [run_print]
  split
  · exact ⟨rfl, by rintro e ⟨⟩⟩
  · exact ⟨rfl, by rintro _ ⟨⟩; exact Nat.one_ne_zero⟩

theorem keeps_say (notices : List Notice) : Keeps (say notices) :=
  fun _ => ⟨rfl, by rintro e ⟨⟩⟩

theorem keeps_throw {e : Exit} (he : e.status ≠ 0) : Keeps (throw e : Run α) :=
  fun _ => ⟨rfl, by rintro _ ⟨⟩; exact he⟩

theorem keeps_quit (message : Text) : Keeps (quit message : Run α) := keeps_throw Nat.one_ne_zero

theorem keeps_fail (f : Failure) : Keeps (fail f : Run α) := keeps_throw Nat.one_ne_zero

theorem Keeps.bind (hx : Keeps x) (hf : ∀ a, Keeps (f a)) : Keeps (x >>= f) := by
  intro console
  obtain ⟨hsame, hstatus⟩ := hx console
  rcases h : x.run.run console with ⟨e | a, console'⟩ <;> rw [h] at hsame hstatus
  · rw [run_bind_of_error h]
    exact ⟨hsame, fun e' he' => hstatus e' (by cases he'; rfl)⟩
  · rw [run_bind_of_ok h, ← hsame]
    exact hf a console'

/-- After an error nothing runs. -/
theorem keeps_quit_bind (message : Text) (f : α → Run β) : Keeps (quit message >>= f) :=
  fun _ => ⟨rfl, by rintro _ ⟨⟩; exact Nat.one_ne_zero⟩

end Runs

theorem keeps_loadConfig (o : GlobalOptions) (storage : Option Text) (root : Text) :
    Keeps (loadConfig o storage root) := by
  refine keeps_get.bind fun console => (keeps_say _).bind fun _ => ?_
  split
  · exact keeps_pure _
  · split
    · exact keeps_quit _
    · exact keeps_fail _

theorem keeps_newSession (o : GlobalOptions) (root : Text) : Keeps (newSession o root) := by
  refine keeps_get.bind fun console => ?_
  dsimp only
  split
  · refine (keeps_loadConfig o none root).bind fun c => ?_
    split
    · exact keeps_pure _
    · exact keeps_fail _
  · exact keeps_quit_bind _ _

theorem keeps_rescan (s : Session) : Keeps (rescan s) := by
  refine (keeps_say _).bind fun _ => ?_
  split
  · exact keeps_pure _
  · exact keeps_fail _

theorem keeps_openIndex (o : GlobalOptions) (root : Text) : Keeps (openIndex o root) :=
  (keeps_newSession o root).bind fun s => (keeps_rescan s).bind fun _ => keeps_pure _

theorem keeps_folderOf (path : Text) : Keeps (folderOf path) :=
  keeps_get.bind fun _ => keeps_pure _

theorem keeps_moduleOfFile (o : GlobalOptions) (verb : Verb) (file : Option Text) :
    Keeps (moduleOfFile o verb file) := by
  rw [moduleOfFile]
  split
  · exact keeps_quit _
  refine keeps_get.bind fun console => ?_
  dsimp only
  split
  · refine (keeps_folderOf _).bind fun root => (keeps_loadConfig o none root).bind fun c => ?_
    split
    · exact keeps_fail _
    · split
      · exact keeps_pure _
      all_goals exact keeps_quit _
  · exact keeps_quit_bind _ _

theorem keeps_loadModule (o : GlobalOptions) (verb : Verb) (source : ModuleSource) :
    Keeps (loadModule o verb source) := by
  rw [loadModule]
  split
  · exact keeps_moduleOfFile o verb source.file
  dsimp only
  split
  · exact keeps_quit_bind _ _
  · refine (keeps_openIndex o source.root).bind fun x => ?_
    split
    · exact keeps_pure _
    · exact keeps_quit _

theorem keeps_render (g : Generator) (m : Module) : Keeps (render g m) := by
  refine keeps_get.bind fun console => ?_
  split
  · exact keeps_pure _
  · exact keeps_fail _

theorem keeps_textOrInput (file : Option Text) : Keeps (textOrInput file) := by
  refine keeps_get.bind fun console => ?_
  split
  · exact keeps_pure _
  dsimp only
  split
  · split
    · exact (keeps_folderOf _).bind fun _ => keeps_pure _
    · exact keeps_fail _
  · exact keeps_quit_bind _ _

theorem keeps_ignoredSignals (c : Config) : Keeps (ignoredSignals c) := by
  rw [ignoredSignals]
  split
  · exact keeps_pure _
  · exact keeps_fail _

theorem keeps_declare (o : GlobalOptions) (file storage : Option Text) :
    Keeps (runDeclare o file storage) := by
  refine (keeps_textOrInput file).bind fun x => (keeps_loadConfig o storage x.2).bind fun c =>
    (keeps_ignoredSignals c).bind fun _ => ?_
  dsimp only
  split
  · exact keeps_quit_bind _ _
  · exact keeps_print _

theorem keeps_hierarchy (o : GlobalOptions) (root : Text) (top : Option Text) :
    Keeps (runHierarchy o root top) := by
  refine (keeps_openIndex o root).bind fun x => ?_
  dsimp only
  split
  · split
    · exact keeps_quit_bind _ _
    · exact keeps_print _
  · exact keeps_print _

theorem keeps_lookup (o : GlobalOptions) (root : Text) (name : Option Text)
    (about : Module → Text) : Keeps (runLookup o root name about) := by
  refine (keeps_openIndex o root).bind fun x => ?_
  split
  · exact keeps_fail _
  · split
    · exact keeps_print _
    · exact keeps_quit _

theorem keeps_watch (o : GlobalOptions) (root : Text) : Keeps (runWatch o root) := by
  refine (keeps_newSession o root).bind fun s => (keeps_rescan s).bind fun x =>
    (keeps_print _).bind fun _ => ?_
  split
  · exact keeps_fail _
  · exact (keeps_say _).bind fun _ => keeps_print _

/-- The command is to write a file. -/
def writes : Command → Bool
  | .testbench _ _ _ toOutput => !toOutput
  | _ => false

/-- All commands but the one that writes a testbench only read the disk. -/
theorem keeps_run (o : GlobalOptions) {c : Command} (h : c.writes = false) :
    Keeps (Command.run o c) := by
  cases c with
  | instantiate source comments =>
    exact (keeps_loadModule o .instantiate source).bind fun _ => (keeps_render _ _).bind fun _ =>
      keeps_print _
  | declare file storage => exact keeps_declare o file storage
  | testbench source outputDir force toOutput =>
    obtain rfl : toOutput = true := by simpa [writes] using h
    exact (keeps_loadModule o .testbench source).bind fun _ => (keeps_render _ _).bind fun _ =>
      keeps_print _
  | doc source format =>
    exact (keeps_loadModule o .doc source).bind fun _ => (keeps_render _ _).bind fun _ =>
      keeps_print _
  | scan root => exact (keeps_openIndex o root).bind fun _ => keeps_print _
  | hierarchy root top => exact keeps_hierarchy o root top
  | definition root name => exact keeps_lookup o root name _
  | hover root name => exact keeps_lookup o root name _
  | watch root => exact keeps_watch o root

/-- What a command line asks for only reads the disk, unless it is to write a file. -/
theorem keeps_perform {i : Invocation} (h : ∀ o c, i = .run o c → c.writes = false) :
    Keeps i.perform := by
  cases i with
  | help verb => exact (keeps_print _).bind fun _ => keeps_pure _
  | noCommand => exact (keeps_print _).bind fun _ => keeps_pure _
  | wrong verb e => exact keeps_throw (Nat.succ_ne_zero 1)
  | run o c => exact (keeps_run o (h o c rfl)).bind fun _ => keeps_pure _

/-! ## The run that writes -/

/-- The folder that a testbench of the module goes to. -/
def benchFolder (d : Disk) (outputDir : Option Text) (m : Module) : Text :=
  (given outputDir).getD (Path.dirName (d.absolute m.file))

/-- The path that a testbench of the module goes to. -/
def benchPath (d : Disk) (outputDir : Option Text) (m : Module) : Text :=
  Path.join (benchFolder d outputDir m) (Generate.Testbench.fileName m)

theorem isName_benchPath (d : Disk) (outputDir : Option Text) (m : Module) :
    Path.IsName (Path.baseName (benchPath d outputDir m)) := by
  have hrelative : Path.isAbsolute (Generate.Testbench.fileName m) = false := rfl
  obtain ⟨t, ht⟩ : ∃ t : Text, benchPath d outputDir m = t ++ ".sv" := by
    simp only [benchPath, Path.join, hrelative, Bool.false_eq_true, if_false]
    split
    · exact ⟨_, (List.append_assoc _ _ _).symm⟩
    · exact ⟨_, (List.append_assoc _ _ _).symm⟩
  rw [ht]
  exact Path.isName_baseName t

/-- The module that a testbench is for is loaded, and this is the text. -/
def Generates (console : Console) (o : GlobalOptions) (source : ModuleSource) (m : Module)
    (t : Text) : Prop :=
  ∃ c console', (loadModule o .testbench source).run.run console = (.ok (m, c), console')
    ∧ ({ naming := naming c } : Generate.Testbench).render m = .ok t

theorem run_onDisk (change : Disk → Except Disk.Failure Unit × Disk) (console : Console) :
    (onDisk change).run.run console =
      ((change console.disk).1.mapError fun f => .failure (.disk f),
        { console with disk := (change console.disk).2 }) := by
  rw [onDisk, run_get_bind]
  rcases h : (change console.disk).1 with f | _
  · rfl
  · rfl

/-- The end of a run that has met a full disk. -/
def full (path : Text) : Exit := .failure (.disk ⟨.noSpace, path⟩)

/-- Either folders are made at most, or the file gets as much of the text as there is room for. -/
theorem writeFile_cases {console : Console} (hd : console.disk.Placed) (dir : Text) {path : Text}
    (hpath : Path.IsName (Path.baseName path)) (t : Text) :
    let written := Disk.fitting console.room (Text.Utf8.encode t)
    (∃ f d, (writeFile dir path t).run.run console =
        (.error (.failure (.disk f)), { console with disk := d }) ∧ console.disk.Grows d)
    ∨ ∃ d, (writeFile dir path t).run.run console =
        (if Disk.fits console.room (Text.Utf8.encode t) then .ok () else .error (full path),
          { console with disk := d }) ∧ console.disk.Sets d path written := by
  intro written
  have hgrows := Disk.grows_makeFolders hd dir
  have hmake := run_onDisk (·.makeFolders dir) console
  rcases hmade : console.disk.makeFolders dir with ⟨f | _, d⟩ <;> simp only [hmade] at hgrows hmake
  · exact .inl ⟨f, d, run_bind_of_error hmake, hgrows⟩
  rw [writeFile, run_bind_of_ok hmake, run_get_bind]
  have hsave := run_onDisk (·.save console.room path (Text.Utf8.encode t))
    { console with disk := d }
  rcases Disk.sets_of_save (hgrows.placed hd) console.room hpath (Text.Utf8.encode t) with
    ⟨f, hunopened⟩ | ⟨hsets, hresult⟩
  · rw [hunopened] at hsave
    exact .inl ⟨f, d, hsave, hgrows⟩
  · refine .inr ⟨_, hsave.trans ?_, hgrows.sets hsets⟩
    rw [hresult]
    split_ifs
    · rfl
    · rfl

/-- Where the module cannot be loaded or its text not be generated, the run ends there. -/
theorem runTestbench_of_not_generates {console : Console} {o : GlobalOptions}
    {source : ModuleSource} (h : ∀ m t, ¬ Generates console o source m t) (outputDir : Option Text)
    (force : Bool) : ∃ e console', (runTestbench o source outputDir force false).run.run console =
      (.error e, console') ∧ e.status ≠ 0 ∧ console'.disk = console.disk := by
  have hkeeps := keeps_loadModule o .testbench source console
  rw [runTestbench]
  rcases hload : (loadModule o .testbench source).run.run console with ⟨e | ⟨m, c⟩, console₁⟩ <;>
    rw [hload] at hkeeps
  · exact ⟨e, console₁, run_bind_of_error hload, hkeeps.2 e rfl, congrArg Prod.fst hkeeps.1⟩
  rw [run_bind_of_ok hload]
  rcases hrender : ({ naming := naming c } : Generate.Testbench).render m with e | t
  · refine ⟨.failure (.search e), console₁, run_bind_of_error ?_, Nat.one_ne_zero,
      congrArg Prod.fst hkeeps.1⟩
    rw [render, run_get_bind]
    simp only [Generator.render, hrender]
    rfl
  · exact absurd ⟨c, console₁, hload, hrender⟩ (h m t)

/-- With a text for the module the run looks at the path, and goes on if nothing is there or the
user insists. -/
theorem runTestbench_of_generates {console : Console} {o : GlobalOptions} {source : ModuleSource}
    {m : Module} {t : Text} (h : Generates console o source m t) (outputDir : Option Text)
    (force : Bool) : ∃ console₁, surroundings console₁ = surroundings console ∧
      (runTestbench o source outputDir force false).run.run console =
        (do
          if console.disk.exists? (benchPath console.disk outputDir m) && !force then
            quit (benchPath console.disk outputDir m
              ++ " already exists (use --force to overwrite)")
          writeFile (benchFolder console.disk outputDir m) (benchPath console.disk outputDir m) t
          say [.wroteTestbench m.name]
          printLine (benchPath console.disk outputDir m) : Run Unit).run.run console₁ := by
  obtain ⟨c, console₁, hload, hrender⟩ := h
  have hkeeps := keeps_loadModule o .testbench source console
  rw [hload] at hkeeps
  refine ⟨console₁, hkeeps.1, ?_⟩
  have hrendered : (render (.testbench { naming := naming c }) m).run.run console₁ =
      (.ok t, console₁) := by
    rw [render, run_get_bind]
    simp only [Generator.render, hrender]
    rfl
  have hdisk : console₁.disk = console.disk := congrArg Prod.fst hkeeps.1
  rw [runTestbench, run_bind_of_ok hload, run_bind_of_ok hrendered, ← hdisk, benchPath,
    benchFolder]
  rcases given outputDir with _ | dir
  · rfl
  · rfl

/-- The complaint about something that is there already. -/
def taken (path : Text) : Exit :=
  .error ("Error: " ++ (path ++ " already exists (use --force to overwrite)"))

/-- Something is at the path and the user does not insist. -/
theorem runTestbench_of_taken {console : Console} {o : GlobalOptions} {source : ModuleSource}
    {m : Module} {t : Text} (h : Generates console o source m t) {outputDir : Option Text}
    (hexists : console.disk.exists? (benchPath console.disk outputDir m) = true) :
    ∃ console', (runTestbench o source outputDir false false).run.run console =
      (.error (taken (benchPath console.disk outputDir m)), console')
      ∧ console'.disk = console.disk := by
  obtain ⟨console₁, hsame, hrun⟩ := runTestbench_of_generates h outputDir false
  refine ⟨console₁, ?_, congrArg Prod.fst hsame⟩
  rw [hrun, hexists]
  rfl

/-- A run has failed after it opened the file: there is not room for all of the text, or the path
of the file that is written cannot be printed. -/
def HalfDone (console : Console) (path t : Text) (exit : Exit) (after : Disk) : Prop :=
  (exit = full path ∧ Disk.fits console.room (Text.Utf8.encode t) = false
    ∧ console.disk.Sets after path (Disk.fitting console.room (Text.Utf8.encode t)))
  ∨ exit = .failure .output ∧ (∃ printed, console.takes printed (path ++ "\n") = false)
    ∧ console.disk.Sets after path (Text.Utf8.encode t)

/-- With room for all of the text and an output that takes all, nothing fails halfway. -/
theorem not_halfDone {console : Console} {path t : Text} {exit : Exit} {after : Disk}
    (hroom : console.room = none) (htakes : ∀ printed t, console.takes printed t = true) :
    ¬ HalfDone console path t exit after := by
  rintro (⟨-, hpart, -⟩ | ⟨-, ⟨printed, hrefused⟩, -⟩)
  · rw [hroom] at hpart
    cases hpart
  · rw [htakes] at hrefused
    cases hrefused

/-- Otherwise the file is set, or the run fails and at most folders are new, or it fails halfway. -/
theorem runTestbench_of_free {console : Console} (hd : console.disk.Placed) {o : GlobalOptions}
    {source : ModuleSource} {m : Module} {t : Text} (h : Generates console o source m t)
    {outputDir : Option Text} {force : Bool}
    (hfree : (console.disk.exists? (benchPath console.disk outputDir m) && !force) = false) :
    let path := benchPath console.disk outputDir m
    (∃ console', (runTestbench o source outputDir force false).run.run console = (.ok (), console')
      ∧ console.disk.Sets console'.disk path (Text.Utf8.encode t))
    ∨ ∃ e console', (runTestbench o source outputDir force false).run.run console =
        (.error e, console') ∧ e.status ≠ 0
      ∧ (console.disk.Grows console'.disk ∨ HalfDone console path t e console'.disk) := by
  intro path
  obtain ⟨console₁, hsame, hrun⟩ := runTestbench_of_generates h outputDir force
  obtain ⟨hdisk, hroom, htakes⟩ : console₁.disk = console.disk ∧ console₁.room = console.room
      ∧ console₁.takes = console.takes := by
    simpa [surroundings] using hsame
  rw [hrun, hfree]
  simp only [Bool.false_eq_true, if_false]
  have hpath : Path.IsName (Path.baseName path) := isName_benchPath console.disk outputDir m
  rw [← hdisk] at hd
  rcases writeFile_cases hd (benchFolder console.disk outputDir m) hpath t with
    ⟨f, d, hwrite, hgrows⟩ | ⟨d, hwrite, hsets⟩
  · rw [hdisk] at hgrows
    exact .inr ⟨_, _, run_bind_of_error hwrite, Nat.one_ne_zero, .inl hgrows⟩
  rw [hdisk] at hsets
  split_ifs at hwrite with hfits
  · rw [Disk.fitting_of_fits hfits] at hsets
    -- the file is written; the notice is taken, and the path is last
    have hlast := run_print (path ++ "\n")
      { console₁ with disk := d, log := console₁.log ++ [.wroteTestbench m.name] }
    split_ifs at hlast with htaken
    · exact .inl ⟨_, (run_bind_of_ok hwrite).trans hlast, hsets⟩
    · have hrefused : console.takes console₁.output (path ++ "\n") = false := by
        simpa [htakes] using htaken
      exact .inr ⟨_, _, (run_bind_of_ok hwrite).trans hlast, Nat.one_ne_zero,
        .inr (.inr ⟨rfl, ⟨_, hrefused⟩, hsets⟩)⟩
  · rw [hroom] at hfits hsets
    exact .inr ⟨_, _, run_bind_of_error hwrite, Nat.one_ne_zero,
      .inr (.inl ⟨rfl, Bool.eq_false_iff.2 hfits, hsets⟩)⟩

/-! ## The program -/

section Execute

variable {console console' : Console} {args : List Text}

theorem execute_of_ok {n : Nat} (h : (read args).perform.run.run console = (.ok n, console')) :
    execute console args = (.code n, console') := by
  rw [execute, h]

theorem execute_of_error {e : Exit}
    (h : (read args).perform.run.run console = (.error e, console')) :
    execute console args = (e, console') := by
  rw [execute, h]

/-- A command line that is not to write a file leaves the disk alone. -/
theorem disk_of_execute (h : ∀ o c, read args = .run o c → c.writes = false) (console : Console) :
    (execute console args).2.disk = console.disk := by
  have hkeeps := keeps_perform h console
  rcases hrun : (read args).perform.run.run console with ⟨e | n, console'⟩ <;> rw [hrun] at hkeeps
  · rw [execute_of_error hrun]
    exact congrArg Prod.fst hkeeps.1
  · rw [execute_of_ok hrun]
    exact congrArg Prod.fst hkeeps.1

variable {o : GlobalOptions} {source : ModuleSource} {outputDir : Option Text} {force : Bool}
  (hargs : read args = .run o (.testbench source outputDir force false))
include hargs

theorem execute_of_runTestbench_ok
    (h : (runTestbench o source outputDir force false).run.run console = (.ok (), console')) :
    execute console args = (.code 0, console') :=
  execute_of_ok (by rw [hargs]; exact run_bind_of_ok h)

theorem execute_of_runTestbench_error {e : Exit}
    (h : (runTestbench o source outputDir force false).run.run console = (.error e, console')) :
    execute console args = (e, console') :=
  execute_of_error (by rw [hargs]; exact run_bind_of_error h)

/-- A run that is to write a testbench sets the one file and succeeds, or it fails and changes no
file, or it fails halfway. -/
theorem execute_testbench_cases (hd : console.disk.Placed) {exit : Exit}
    (h : execute console args = (exit, console')) :
    (∃ m t, Generates console o source m t
      ∧ (console.disk.exists? (benchPath console.disk outputDir m) = true → force = true)
      ∧ (exit = .code 0 ∧ console.disk.Sets console'.disk (benchPath console.disk outputDir m)
          (Text.Utf8.encode t)
        ∨ exit.status ≠ 0
          ∧ HalfDone console (benchPath console.disk outputDir m) t exit console'.disk))
    ∨ exit.status ≠ 0 ∧ console.disk.Grows console'.disk := by
  by_cases hgen : ∃ m t, Generates console o source m t
  · obtain ⟨m, t, hgen⟩ := hgen
    rcases hfree : console.disk.exists? (benchPath console.disk outputDir m) && !force with _ | _
    · have hforce : console.disk.exists? (benchPath console.disk outputDir m) = true →
          force = true := fun hexists => by simpa [hexists] using hfree
      rcases runTestbench_of_free hd hgen hfree with
        ⟨console₁, hrun, hsets⟩ | ⟨e, console₁, hrun, hstatus, hends⟩
      · rw [execute_of_runTestbench_ok hargs hrun] at h
        cases h
        exact .inl ⟨m, t, hgen, hforce, .inl ⟨rfl, hsets⟩⟩
      · rw [execute_of_runTestbench_error hargs hrun] at h
        cases h
        rcases hends with hgrows | hhalf
        · exact .inr ⟨hstatus, hgrows⟩
        · exact .inl ⟨m, t, hgen, hforce, .inr ⟨hstatus, hhalf⟩⟩
    · obtain ⟨hexists, hforce⟩ := Bool.and_eq_true_iff.1 hfree
      obtain rfl : force = false := by simpa using hforce
      obtain ⟨console₁, hrun, hdisk⟩ := runTestbench_of_taken hgen hexists
      rw [execute_of_runTestbench_error hargs hrun] at h
      cases h
      exact .inr ⟨Nat.one_ne_zero, hdisk ▸ .refl _⟩
  · obtain ⟨e, console₁, hrun, hstatus, hdisk⟩ := runTestbench_of_not_generates
      (fun m t h => hgen ⟨m, t, h⟩) outputDir force
    rw [execute_of_runTestbench_error hargs hrun] at h
    cases h
    exact .inr ⟨hstatus, hdisk ▸ .refl _⟩

end Execute

/-- The program changes no file, unless it is to write a testbench. A run that succeeds in this has
set the one file at the testbench's path to the text. A run that fails has changed no file, unless
it failed after it opened this one: then the file has got what there was room for, which is not all
of the text, or it has got the text, and its path could not be printed. Neither happens where there
is room and the output takes all. Where something is at the path when the run looks, which is before
it makes folders, and the user does not insist, it ends with an error and leaves the disk as it
was. -/
theorem files_of_execute (console : Console) (hd : console.disk.Placed) (args : List Text) :
    let exit := (execute console args).1
    let after := (execute console args).2.disk
    ((∀ o source outputDir force, read args ≠ .run o (.testbench source outputDir force false)) →
      after = console.disk)
    ∧ (console.room = none → (∀ printed t, console.takes printed t = true) → exit.status ≠ 0 →
      ∀ place, after.fileAt? place = console.disk.fileAt? place)
    ∧ ∀ o source outputDir force, read args = .run o (.testbench source outputDir force false) →
      (exit.status = 0 → ∃ m t, Generates console o source m t
        ∧ (console.disk.exists? (benchPath console.disk outputDir m) = true → force = true)
        ∧ after.bytes (benchPath console.disk outputDir m) = .ok (Text.Utf8.encode t)
        ∧ console.disk.Sets after (benchPath console.disk outputDir m) (Text.Utf8.encode t))
      ∧ (exit.status ≠ 0 → (∀ place, after.fileAt? place = console.disk.fileAt? place)
        ∨ ∃ m t, Generates console o source m t
          ∧ (console.disk.exists? (benchPath console.disk outputDir m) = true → force = true)
          ∧ HalfDone console (benchPath console.disk outputDir m) t exit after)
      ∧ ∀ m t, Generates console o source m t →
        console.disk.exists? (benchPath console.disk outputDir m) = true → force = false →
        exit = taken (benchPath console.disk outputDir m) ∧ after = console.disk := by
  intro exit after
  have hreads : (∀ o source outputDir force,
      read args ≠ .run o (.testbench source outputDir force false)) → after = console.disk := by
    intro hother
    refine disk_of_execute (fun o c hargs => ?_) console
    rcases c with _ | _ | ⟨source, outputDir, force, _ | _⟩ | _ | _ | _ | _ | _ | _
    case testbench.false => exact absurd hargs (hother o source outputDir force)
    all_goals rfl
  have hexec : execute console args = (exit, (execute console args).2) := rfl
  refine ⟨hreads, fun hroom htakes hstatus => ?_, fun o source outputDir force hargs =>
    ⟨fun hstatus => ?_, fun hstatus => ?_, ?_⟩⟩
  · by_cases hargs : ∃ o source outputDir force,
        read args = .run o (.testbench source outputDir force false)
    · obtain ⟨o, source, outputDir, force, hargs⟩ := hargs
      rcases execute_testbench_cases hargs hd hexec with
        ⟨m, t, -, -, ⟨hcode, -⟩ | ⟨-, hhalf⟩⟩ | ⟨-, hgrows⟩
      · exact absurd (congrArg Exit.status hcode) hstatus
      · exact absurd hhalf (not_halfDone hroom htakes)
      · exact hgrows.fileAt?
    · rw [hreads fun o source outputDir force h => hargs ⟨o, source, outputDir, force, h⟩]
      exact fun _ => rfl
  · rcases execute_testbench_cases hargs hd hexec with
      ⟨m, t, hgen, hforce, ⟨-, hsets⟩ | ⟨hfails, -⟩⟩ | ⟨hfails, -⟩
    · exact ⟨m, t, hgen, hforce, hsets.bytes, hsets⟩
    · exact absurd hstatus hfails
    · exact absurd hstatus hfails
  · rcases execute_testbench_cases hargs hd hexec with
      ⟨m, t, hgen, hforce, ⟨hcode, -⟩ | ⟨-, hhalf⟩⟩ | ⟨-, hgrows⟩
    · exact absurd (congrArg Exit.status hcode) hstatus
    · exact .inr ⟨m, t, hgen, hforce, hhalf⟩
    · exact .inl hgrows.fileAt?
  · rintro m t hgen hexists rfl
    obtain ⟨console', hrun, hdisk⟩ := runTestbench_of_taken hgen hexists
    have hexec := execute_of_runTestbench_error hargs hrun
    exact ⟨congrArg Prod.fst hexec, (congrArg (fun r => r.2.disk) hexec).trans hdisk⟩

/-- An old testbench next to the module is kept, or written anew if the user insists. -/
theorem files_of_execute_again :
    let disk : Disk := ⟨[("w".toList, .folder [
      ("m.sv".toList, .file (Text.Utf8.encode "module m (input clk, output q); endmodule")),
      ("tb_m.sv".toList, .file (some []))])], "/w"⟩
    let console : Console := { disk, today := "2024-01-01" }
    let args : List Text := ["testbench", "m.sv"]
    let insisting : List Text := ["testbench", "m.sv", "--force"]
    let path : Text := "/w/tb_m.sv"
    disk.Placed ∧ disk.exists? path = true
      ∧ (execute console insisting).1.status = 0
      ∧ (∃ t, (execute console insisting).2.disk.bytes path = .ok (Text.Utf8.encode t)
        ∧ disk.Sets (execute console insisting).2.disk path (Text.Utf8.encode t))
      ∧ (execute console args).1 = taken path ∧ (execute console args).2.disk = disk := by
  intro disk console args insisting path
  have hd : disk.Placed := ⟨rfl, rfl⟩
  have hexists : disk.exists? path = true := by decide +kernel
  have hstatus : (execute console insisting).1.status = 0 := by decide +kernel
  have hargs : read args = .run {} (.testbench ⟨some "m.sv", none, "."⟩ none false false) := by
    decide +kernel
  have hinsisting : read insisting =
      .run {} (.testbench ⟨some "m.sv", none, "."⟩ none true false) := by decide +kernel
  have hmodule : ((loadModule {} .testbench ⟨some "m.sv", none, "."⟩).run.run
      console).1.toOption.map (fun x => (x.1.name, x.1.file)) =
        some ("m".toList, "m.sv".toList) := by decide +kernel
  have hfolder : Path.dirName (disk.absolute "m.sv") = "/w".toList := by decide +kernel
  obtain ⟨m, t, hgen, -, hbytes, hsets⟩ :=
    ((files_of_execute console hd insisting).2.2 _ _ _ _ hinsisting).1 hstatus
  have hpath : benchPath console.disk none m = path := by
    obtain ⟨c, console', hload, -⟩ := hgen
    rw [hload] at hmodule
    obtain ⟨hname, hfile⟩ : m.name = "m".toList ∧ m.file = "m.sv".toList := by
      simpa [Except.toOption] using hmodule
    have hbench : benchFolder console.disk none m = "/w".toList := by
      rw [benchFolder, hfile]
      exact hfolder
    rw [benchPath, hbench, Generate.Testbench.fileName, hname]
    rfl
  obtain ⟨hexit, hdisk⟩ := ((files_of_execute console hd args).2.2 _ _ _ _ hargs).2.2 m t hgen
    (by rw [hpath]; exact hexists) rfl
  rw [hpath] at hbytes hsets hexit
  exact ⟨hd, hexists, hstatus, ⟨t, hbytes, hsets⟩, hexit, hdisk⟩

/-- What a run that fails leaves behind: on a full disk an old testbench is empty, and where the
output takes nothing a new one is there. And a path through a folder that is still to be made leads
nowhere when the run looks at it, so that an old testbench is written over without a word. -/
theorem execute_overwrites :
    let disk : Disk := ⟨[("w".toList, .folder [
      ("m.sv".toList, .file (Text.Utf8.encode "module m; endmodule")),
      ("old".toList, .folder [("tb_m.sv".toList, .file (Text.Utf8.encode "// mine"))])])], "/w"⟩
    let console : Console := { disk, today := "2024-01-01" }
    let onFull := execute { console with room := some 0 }
      ["testbench", "m.sv", "--output-dir", "old", "--force"]
    let unheard := execute { console with takes := fun _ _ => false } ["testbench", "m.sv"]
    let around := execute console ["testbench", "m.sv", "--output-dir", "new/../old"]
    (onFull.1.status = 1 ∧ (onFull.2.disk.bytes "old/tb_m.sv").toOption = some [])
    ∧ (unheard.1.status = 1 ∧ disk.exists? "tb_m.sv" = false
      ∧ unheard.2.disk.isFile "tb_m.sv" = true)
    ∧ around.1.status = 0
      ∧ (around.2.disk.bytes "old/tb_m.sv").toOption ≠ (disk.bytes "old/tb_m.sv").toOption := by
  decide +kernel

end Command

end VerilogIndex
