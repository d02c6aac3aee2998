import VerilogIndex.Command.Run
import VerilogIndex.Proofs.Classification

/-!
# Which configurations can be used

A configuration is checked when it is made and used much later: a discovery puts the ignored folders
into a set and matches names against the pattern for filelists, an event filter takes the same
folders, and a declaration takes the signals that are not to be declared. The checks look at these
settings less closely than their users do. What they leave out is in `Careful`, so that an accepted
configuration serves all its users if and only if its mapping is careful, and what they do
themselves without being ready for it is in `Answerable`. Main statement: `serves_iff_careful`.
-/

namespace VerilogIndex

theorem bind_eq_error_iff {α β ε : Type} {x : Except ε α} {f : α → Except ε β} {e : ε} :
    (x >>= f) = .error e ↔ x = .error e ∨ ∃ a, x = .ok a ∧ f a = .error e := by
  cases x <;> simp [bind, Except.bind]

/-! ## Discovery and events -/

namespace Discovery

variable {c : Config}

theorem exists_ignoredNames_iff :
    (∃ names, ignoredNames c = .ok names) ↔ c.ignoreDirs.all (·.isKey) = true := by
  unfold ignoredNames
  split <;> simp [*]

theorem exists_isFilelist_iff {name : Text} :
    (∃ b, isFilelist c name = .ok b) ↔ ∃ p, c.filelistPattern = .text p := by
  unfold isFilelist
  split
  · simp [*]
  · rename_i hp
    simpa using hp

/-- A discovery needs names of folders that can be looked up. -/
theorem discover_eq_error {d : Disk} {root : Text} {e : Error} (h : ignoredNames c = .error e) :
    discover d root c = .error e := by
  rw [discover, filelists, candidates, h]
  rfl

/-- With folders that can be looked up and a pattern that is a text, a discovery succeeds. -/
theorem exists_discover {ignored : List Text} {p : Text} (hi : ignoredNames c = .ok ignored)
    (hp : c.filelistPattern = .text p) (d : Disk) (root : Text) :
    ∃ found, discover d root c = .ok found := by
  obtain ⟨lists, hlists⟩ : ∃ lists, filelists d root c = .ok lists :=
    ⟨_, (filelists_eq_ok hi).2 ⟨fun _ _ => exists_isFilelist_iff.2 ⟨p, hp⟩, rfl⟩⟩
  rcases lists with _ | ⟨list, lists⟩
  · exact ⟨_, discover_of_no_filelists hi hlists⟩
  · rw [discover, hlists]
    exact ⟨_, rfl⟩

/-- A disk with one file, in the outermost folder. -/
def oneFile : Disk := { here := ['/'], root := [(['a'], .file (some []))] }

/-- A discovery succeeds on all disks if and only if the folders can be looked up and the pattern
is a text: one file is enough to ask the pattern. -/
theorem forall_discover_iff : (∀ d root, ∃ found, discover d root c = .ok found) ↔
    (∃ names, ignoredNames c = .ok names) ∧ ∃ p, c.filelistPattern = .text p := by
  constructor
  · intro h
    obtain ⟨_, hfound⟩ := h oneFile ['/']
    rcases hi : ignoredNames c with e | ignored
    · rw [discover_eq_error hi] at hfound
      cases hfound
    refine ⟨⟨ignored, rfl⟩, ?_⟩
    obtain ⟨lists, hlists, -⟩ := bind_eq_ok_iff.1 hfound
    have hasked := ((filelists_eq_ok hi).1 hlists).1 (['/'], ['a'])
      List.mem_cons_self
    exact exists_isFilelist_iff.1 hasked
  · rintro ⟨⟨_, hi⟩, _, hp⟩ d root
    exact exists_discover hi hp d root

end Discovery

theorem EventFilter.exists_ofConfig_iff {c : Config} :
    (∃ f, ofConfig c = .ok f) ↔ ∃ names, Discovery.ignoredNames c = .ok names := by
  constructor
  · rintro ⟨f, hf⟩
    exact ⟨_, (ofConfig_eq_ok hf).2⟩
  · rintro ⟨names, hnames⟩
    rw [ofConfig, hnames]
    exact ⟨_, rfl⟩

theorem Command.exists_ignoredSignals_iff {c : Config} :
    (∀ console, ∃ names, (ignoredSignals c).run.run console = (.ok names, console)) ↔
      c.declarationIgnore.all (·.isKey) = true := by
  unfold ignoredSignals
  split
  · rename_i hall
    exact ⟨fun _ => hall, fun _ _ => ⟨_, rfl⟩⟩
  · rename_i hall
    refine ⟨fun h => ?_, fun h => absurd h hall⟩
    obtain ⟨_, hrun⟩ := h { disk := Discovery.oneFile, today := [] }
    cases hrun

/-! ## Checked mappings -/

namespace Config

variable {data : List (Value × Value)} {c : Config} {e : Error}

/-- The configuration serves its users: discoveries of all projects, the filter of file events and
the declaration of signals. -/
structure Serves (c : Config) : Prop where
  discovery : ∀ d root, ∃ found, Discovery.discover d root c = .ok found
  events : ∃ f, EventFilter.ofConfig c = .ok f
  declaration : ∀ console, ∃ names,
    (Command.ignoredSignals c).run.run console = (.ok names, console)

/-- A list under this name has only members that can be looked up. -/
def HasKeys (data : List (Value × Value)) (name : Text) : Prop :=
  ∀ xs, given? data name = some (.list xs) → xs.all (·.isKey) = true

/-- What the users of a configuration need and no check asks for. -/
structure Careful (data : List (Value × Value)) : Prop where
  filelistPattern : ∀ v, given? data "filelist_pattern" = some v → ∃ p, v = .text p
  ignoreDirs : HasKeys data "ignore_dirs"
  declarationIgnore : HasKeys data "declaration_ignore"

/-- If a pattern under this name is wrong, its reader can say so. -/
def HasReader (data : List (Value × Value)) (name : Text) : Prop :=
  ∀ v p e, given? data name = some v → source? v = some p → p.read = .error e →
    e.fault.isTold = true

/-- What the checks themselves need to be able to say what is wrong. -/
structure Answerable (data : List (Value × Value)) : Prop where
  strategy : ∀ v, given? data "strategy" = some v → v.isKey = true
  clockPattern : HasReader data "clock_pattern"
  resetPattern : HasReader data "reset_pattern"

theorem serves_iff : c.Serves ↔ (∃ p, c.filelistPattern = .text p)
    ∧ c.ignoreDirs.all (·.isKey) = true ∧ c.declarationIgnore.all (·.isKey) = true := by
  rw [← Discovery.exists_ignoredNames_iff, ← Command.exists_ignoredSignals_iff]
  constructor
  · rintro ⟨hd, he, hs⟩
    exact ⟨(Discovery.forall_discover_iff.1 hd).2, EventFilter.exists_ofConfig_iff.1 he, hs⟩
  · rintro ⟨hp, hi, hs⟩
    exact ⟨Discovery.forall_discover_iff.2 ⟨hi, hp⟩, EventFilter.exists_ofConfig_iff.2 hi, hs⟩

section Checks

variable {v : Option Value}

theorem message?_of_checkExtensions (h : checkExtensions v = .error e) : e.message? ≠ none := by
  unfold checkExtensions at h
  split at h
  · cases h
  · split at h
    · cases h
    · cases h
      simp [Error.message?]
  · cases h
    simp [Error.message?]

theorem eq_of_checkList {standard : List Value} {e' : Error}
    (h : checkList standard e' v = .error e) : e = e' := by
  unfold checkList at h
  split at h <;> cases h
  rfl

theorem eq_of_checkNumber {standard : Value} {setting : Text}
    (h : checkNumber standard setting v = .error e) : e = .number setting := by
  unfold checkNumber at h
  split at h
  · cases h
  · split at h <;> cases h
    rfl
  · split at h <;> cases h
    rfl

theorem eq_of_checkColumn (h : checkColumn v = .error e) : e = .commentColumn := by
  unfold checkColumn at h
  split at h
  · cases h
  · split at h <;> cases h
    rfl

/-- A strategy that can be looked up is accepted or told to be unknown. -/
theorem message?_of_checkStrategy (h : checkStrategy v = .error e)
    (hv : ∀ w, v = some w → w.isKey = true) : e.message? ≠ none := by
  unfold checkStrategy at h
  split at h
  · cases h
  · rename_i w
    rw [hv w rfl, if_neg (by decide)] at h
    split at h
    · split at h <;> cases h
      simp [Error.message?]
    · cases h
      simp [Error.message?]

theorem isKey_of_checkStrategy {name : Text} (h : checkStrategy v = .ok name) (w : Value)
    (hw : v = some w) : w.isKey = true := by
  unfold checkStrategy at h
  split at h
  · cases hw
  · cases hw
    split at h
    · cases h
    · rename_i hkey
      simpa using hkey

/-- A pattern whose faults can be told is accepted or told to be wrong. -/
theorem message?_of_checkPattern {standard : Pattern.Source} {setting : Text}
    (h : checkPattern standard setting v = .error e)
    (hv : ∀ w p f, v = some w → source? w = some p → p.read = .error f → f.fault.isTold = true) :
    e.message? ≠ none := by
  rcases v with _ | w <;> rw [checkPattern] at h
  · cases h
  split at h
  · rename_i p hp
    rw [checkSource] at h
    split at h
    · cases h
    · rename_i f hf
      rw [if_pos (hv w p f rfl hp hf)] at h
      cases h
      simp [Error.message?]
  · cases h
    simp [Error.message?]

theorem ne_error_of_checkPattern {standard accepted p : Pattern.Source} {setting : Text} {w : Value}
    {f : Pattern.Error} (hp : source? w = some p)
    (h : checkPattern standard setting (some w) = .ok accepted) : p.read ≠ .error f := by
  intro hf
  simp [checkPattern, checkSource, hp, hf] at h

theorem all_isKey_of_checkList {standard xs : List Value} {e' : Error}
    (hs : standard.all (·.isKey) = true) (h : checkList standard e' v = .ok xs) :
    xs.all (·.isKey) = true ↔ ∀ ys, v = some (.list ys) → ys.all (·.isKey) = true := by
  unfold checkList at h
  split at h <;> cases h
  · simp [hs]
  · simp

end Checks

/-- An accepted mapping is answerable, and its configuration has what the mapping gives. -/
theorem answerable_of_check (h : check data = .ok c) : Answerable data := by
  simp only [check, bind_eq_ok_iff] at h
  obtain ⟨_, -, _, -, _, -, _, -, _, -, _, -, _, hstrategy, _, hclock, _, hreset, -⟩ := h
  refine ⟨isKey_of_checkStrategy hstrategy, fun v p e hv hp hread => ?_,
    fun v p e hv hp hread => ?_⟩
  · rw [hv] at hclock
    exact absurd hread (ne_error_of_checkPattern hp hclock)
  · rw [hv] at hreset
    exact absurd hread (ne_error_of_checkPattern hp hreset)

theorem careful_iff_of_check (h : check data = .ok c) : Careful data ↔
    (∃ p, c.filelistPattern = .text p) ∧ c.ignoreDirs.all (·.isKey) = true
      ∧ c.declarationIgnore.all (·.isKey) = true := by
  simp only [check, bind_eq_ok_iff] at h
  obtain ⟨_, -, _, hsignals, _, hfolders, _, -, _, -, _, -, _, -, _, -, _, -, hc⟩ := h
  cases hc
  have hpattern : (∀ v, given? data "filelist_pattern" = some v → ∃ p, v = .text p) ↔
      ∃ p, (given? data "filelist_pattern").getD ({} : Config).filelistPattern = .text p := by
    rcases given? data "filelist_pattern" with _ | v
    · exact ⟨fun _ => ⟨_, rfl⟩, fun _ _ hv => by cases hv⟩
    · simp
  rw [all_isKey_of_checkList rfl hfolders, all_isKey_of_checkList rfl hsignals, ← hpattern]
  constructor
  · rintro ⟨hp, hi, hs⟩
    exact ⟨hp, hi, hs⟩
  · rintro ⟨hp, hi, hs⟩
    exact ⟨hp, hi, hs⟩

/-- A refusal of an answerable mapping says what is wrong. -/
theorem message?_of_check (ha : Answerable data) (h : check data = .error e) :
    e.message? ≠ none := by
  simp only [check, bind_eq_error_iff] at h
  rcases h with h | ⟨_, -, h | ⟨_, -, h | ⟨_, -, h | ⟨_, -, h | ⟨_, -, h | ⟨_, -, h |
    ⟨_, -, h | ⟨_, -, h | ⟨_, -, h⟩⟩⟩⟩⟩⟩⟩⟩⟩
  · exact message?_of_checkExtensions h
  · simp [eq_of_checkList h, Error.message?]
  · simp [eq_of_checkList h, Error.message?]
  · simp [eq_of_checkNumber h, Error.message?]
  · simp [eq_of_checkNumber h, Error.message?]
  · simp [eq_of_checkColumn h, Error.message?]
  · exact message?_of_checkStrategy h ha.strategy
  · exact message?_of_checkPattern h ha.clockPattern
  · exact message?_of_checkPattern h ha.resetPattern
  · cases h

/-- A mapping is refused with a message, unless the checks cannot deal with it themselves, or its
configuration is accepted; an accepted one serves all its users if and only if the folders to be
ignored and the signals not to be declared can be looked up and the pattern for filelists is a
text. -/
theorem serves_iff_careful (data : List (Value × Value)) :
    (∀ e, (ofMap data).1 = .error e → e.message? = none → ¬ Answerable data)
    ∧ ∀ c, (ofMap data).1 = .ok c → Answerable data ∧ (c.Serves ↔ Careful data) :=
  ⟨fun _ h hnone ha => message?_of_check ha h hnone,
    fun _ h => ⟨answerable_of_check h, serves_iff.trans (careful_iff_of_check h).symm⟩⟩

/-- A folder to be ignored that is a name: the configuration serves. A strategy that is a list is
refused without a message. -/
theorem serves_plain_folder :
    (∃ c, (ofMap [(.text "ignore_dirs", .list [.text "build"])]).1 = .ok c ∧ c.Serves)
    ∧ (ofMap [(.text "strategy", .list [.text "fast"])]).1 = .error .strategyKey
    ∧ ¬ Answerable [(.text "strategy", .list [.text "fast"])] := by
  refine ⟨⟨_, rfl, ((serves_iff_careful
    [(.text "ignore_dirs", .list [.text "build"])]).2 _ rfl).2.2 ⟨?_, ?_, ?_⟩⟩, rfl,
    (serves_iff_careful [(.text "strategy", .list [.text "fast"])]).1 .strategyKey rfl rfl⟩
  · intro v hv
    cases hv
  · intro xs hxs
    cases hxs
    rfl
  · intro xs hxs
    cases hxs

/-- A list among the folders to be ignored is accepted, and no project can be discovered. -/
theorem not_serves_listed_folder :
    ∃ c, (ofMap [(.text "ignore_dirs", .list [.list [.text "build"]])]).1 = .ok c
      ∧ ∀ d root, Discovery.discover d root c = .error .ignoreDirs :=
  ⟨_, rfl, fun _ _ => Discovery.discover_eq_error rfl⟩

end Config

end VerilogIndex
