import VerilogIndex.Proofs.Bookkeeping
import VerilogIndex.Proofs.ScanOrder
import VerilogIndex.Proofs.ScanRuns

/-!
# A rescan forgets history

A rescan forgets all modules and reads the source files anew. What it leaves of the past are the
stamps and tickets given out, the updates that have ended and what was said. Stamps only put the
definers of a name in order, and that order is the one of the readings (`Tables.Recorded`), so
tables that were filled with the same readings answer alike (`agrees_recordAll`). Main statement:
`rescan_forgets_history`.

Nothing is asked of the reader here: modules of different paths are recorded without a name being
given up, and only then the path in a module would matter.
-/

namespace VerilogIndex

/-! ## Tables filled from nothing -/

namespace Tables

/-- Every question has the same answer. -/
structure Agrees (t t' : Tables) : Prop where
  modules : t.modules = t'.modules
  module : ∀ n, t.module? n = t'.module? n
  size : t.size = t'.size
  paths : t.paths = t'.paths
  namesOf : ∀ p, t.namesOf p = t'.namesOf p
  modulesOf : ∀ p, t.modulesOf p = t'.modulesOf p
  definitions : ∀ n, t.definitions n = t'.definitions n
  duplicates : t.duplicates = t'.duplicates
  sortedModules : t.sortedModules = t'.sortedModules

/-- The tables without any dates. -/
def undated (t : Tables) : Tables := { t with stamps := [], nextStamp := 0 }

/-- The tables of modules that were recorded in this order, one for each path. -/
structure Recorded (t : Tables) (L : Live) : Prop where
  module : ∀ n, t.modules.get? n = (L.winner n).map (·.2)
  modules_nodup : t.modules.keys.Nodup
  definers : ∀ n, (t.definers.get? n).getD [] = (L.named n).map (·.1)
  parsed_none : ∀ p, (∀ m, (p, m) ∉ L) → t.parsed.get? p = none
  ordered : L.Pairwise fun a b => t.stamp a.1 < t.stamp b.1
  stamps_lt : ∀ e ∈ L, t.stamp e.1 < t.nextStamp

section Recorded

variable {t t' : Tables} {L : Live} {path : Text} {m : Module}

theorem recorded_clear (t : Tables) : t.clear.Recorded [] where
  module n := by simp [clear, Live.winner, Live.named]
  modules_nodup := by simp [clear, Table.keys]
  definers n := by simp [clear, Live.named]
  parsed_none p _ := rfl
  ordered := .nil
  stamps_lt e he := by simp at he

/-- A path that has no reading gives up no name. -/
theorem apply_of_new (h : t.parsed.get? path = none) (m : Module) : (t.apply path m).1 =
    (takeOver { t with
      parsed := t.parsed.put path m
      stamps := t.stamps.put path t.nextStamp
      nextStamp := t.nextStamp + 1 } path m).1 := by
  simp only [apply, h]

theorem Recorded.apply (h : t.Recorded L) (hp : ∀ m', (path, m') ∉ L) (m : Module) :
    (t.apply path m).1.Recorded (L ++ [(path, m)]) := by
  have hnew := apply_of_new (h.parsed_none path hp) m
  obtain ⟨hmodules, hdefiners⟩ := takeOver_names { t with
    parsed := t.parsed.put path m
    stamps := t.stamps.put path t.nextStamp
    nextStamp := t.nextStamp + 1 } path m
  rw [← hnew] at hmodules hdefiners
  obtain ⟨hparsed, hstamps, hnext⟩ := apply_dates t path m
  have hself : (t.apply path m).1.stamp path = t.nextStamp := by
    rw [stamp, hstamps, Table.get?_put, if_pos rfl, Option.getD_some]
  have hother : ∀ e ∈ L, (t.apply path m).1.stamp e.1 = t.stamp e.1 := by
    intro e he
    have hne : e.1 ≠ path := by
      rintro rfl
      exact hp e.2 he
    rw [stamp, hstamps, Table.get?_put, if_neg hne, stamp]
  refine ⟨fun n => ?_, ?_, fun n => ?_, fun p hno => ?_, ?_, fun e he => ?_⟩
  · rw [hmodules, Table.get?_put, h.module, Live.winner_append]
    by_cases hn : n = m.name
    · simp [hn]
    · simp [hn, Ne.symm hn]
  · rw [hmodules]
    exact Table.nodup_keys_put h.modules_nodup
  · have hfresh : path ∉ (t.definers.get? m.name).getD [] := by
      rw [h.definers]
      intro hmem
      obtain ⟨e, he, rfl⟩ := List.mem_map.1 hmem
      exact hp e.2 (Live.mem_named.1 he).1
    rw [hdefiners, Table.addTo]
    simp only [if_neg hfresh, Table.get?_put, Live.named, List.filter_append, List.map_append]
    by_cases hn : n = m.name
    · subst hn
      simp [h.definers, Live.named]
    · simp [hn, Ne.symm hn, h.definers, Live.named]
  · have hne : p ≠ path := by
      rintro rfl
      exact hno m (by simp)
    rw [hparsed, Table.get?_put, if_neg hne]
    exact h.parsed_none p fun m' hm' => hno m' (List.mem_append_left _ hm')
  · refine List.pairwise_append.2 ⟨?_, by simp, fun a ha b hb => ?_⟩
    · refine h.ordered.imp_of_mem fun ha hb hab => ?_
      rwa [hother _ ha, hother _ hb]
    · rw [List.mem_singleton.1 hb, hself, hother a ha]
      exact h.stamps_lt a ha
  · rw [hnext]
    rcases List.mem_append.1 he with he | he
    · rw [hother e he]
      exact (h.stamps_lt e he).trans (Nat.lt_succ_self _)
    · rw [List.mem_singleton.1 he, hself]
      exact Nat.lt_succ_self _

theorem undated_takeOver (t : Tables) (path : Text) (m : Module) :
    (t.takeOver path m).1.undated = (t.undated.takeOver path m).1 := by
  simp only [takeOver, module?, undated]
  split
  · rfl
  · split_ifs <;> rfl

theorem undated_apply (hu : t.undated = t'.undated) (h : t.parsed.get? path = none) (m : Module) :
    (t.apply path m).1.undated = (t'.apply path m).1.undated := by
  have hparsed : t.parsed = t'.parsed := (congrArg parsed hu : t.undated.parsed = _)
  have hbase : ∀ (t : Tables), undated { t with
      parsed := t.parsed.put path m
      stamps := t.stamps.put path t.nextStamp
      nextStamp := t.nextStamp + 1 } =
      { t.undated with parsed := t.undated.parsed.put path m } := fun _ => rfl
  rw [apply_of_new h, apply_of_new (hparsed ▸ h), undated_takeOver, undated_takeOver, hbase, hbase,
    hu]

theorem recorded_recordAll : ∀ (todo : Live) {t : Tables} {L : Live}, t.Recorded L →
    ((L ++ todo).map (·.1)).Nodup → (t.recordAll todo).Recorded (L ++ todo)
  | [], t, L, h, _ => by rwa [List.append_nil]
  | (path, m) :: todo, t, L, h, hn => by
    have ih := recorded_recordAll todo (h.apply (Live.not_mem_of_nodup hn) m)
      (by rwa [List.append_assoc, List.singleton_append])
    rwa [List.append_assoc, List.singleton_append] at ih

theorem undated_recordAll : ∀ (todo : Live) {t t' : Tables} {L : Live}, t.Recorded L →
    ((L ++ todo).map (·.1)).Nodup → t.undated = t'.undated →
    (t.recordAll todo).undated = (t'.recordAll todo).undated
  | [], _, _, _, _, _, hu => hu
  | (path, m) :: todo, t, t', L, h, hn, hu => by
    have hnew := Live.not_mem_of_nodup hn
    exact undated_recordAll todo (h.apply hnew m)
      (by rwa [List.append_assoc, List.singleton_append])
      (undated_apply hu (h.parsed_none path hnew) m)

/-- The definers of a name stand in the order in which they were recorded. -/
theorem Recorded.definitions (h : t.Recorded L) (n : Text) :
    t.definitions n = (L.named n).map (·.1) := by
  rw [Tables.definitions, h.definers]
  refine List.mergeSort_of_pairwise (List.pairwise_map.2 ?_)
  refine (h.ordered.sublist List.filter_sublist).imp fun hab => ?_
  exact decide_eq_true hab.le

theorem agrees_of_undated (hu : t.undated = t'.undated)
    (hd : ∀ n, t.definitions n = t'.definitions n) : t.Agrees t' := by
  have hmodules : t.modules = t'.modules := (congrArg Tables.modules hu : t.undated.modules = _)
  have hfiles : t.files = t'.files := (congrArg files hu : t.undated.files = _)
  have hdefiners : t.definers = t'.definers := (congrArg definers hu : t.undated.definers = _)
  have hmodule : t.module? = t'.module? := by
    funext n
    rw [module?, module?, hmodules]
  have hnames : ∀ p, t.namesOf p = t'.namesOf p := fun p => by rw [namesOf, namesOf, hfiles]
  exact {
    modules := hmodules
    module := congrFun hmodule
    size := congrArg List.length hmodules
    paths := by rw [Tables.paths, Tables.paths, hfiles]
    namesOf := hnames
    modulesOf := fun p => by rw [Tables.modulesOf, Tables.modulesOf, hnames, hmodule]
    definitions := hd
    duplicates := by simp only [Tables.duplicates, hdefiners, hd]
    sortedModules := by rw [Tables.sortedModules, Tables.sortedModules, hmodules, hmodule] }

/-- Whatever was forgotten, the same readings give the same answers. -/
theorem agrees_recordAll (t t' : Tables) {L : Live} (hn : (L.map (·.1)).Nodup) :
    (t.clear.recordAll L).Agrees (t'.clear.recordAll L) := by
  have h := recorded_recordAll L t.recorded_clear hn
  have h' := recorded_recordAll L t'.recorded_clear hn
  exact agrees_of_undated (undated_recordAll L t.recorded_clear hn rfl) fun n => by
    rw [h.definitions, h'.definitions]

end Recorded

end Tables

/-! ## The readings of a project -/

namespace Setting

/-- The module of the file at a path, with the path; a file that cannot be opened, that has no
module or that the reader fails on has none. -/
def reading? (w : Setting) (path : Text) : Option (Text × Module) :=
  match w.strategy.readAt w.disk path with
  | .ok (some m) => some (path, m)
  | _ => none

/-- The readings of files, one after the other. -/
def readings (w : Setting) (files : List Text) : Live := files.filterMap w.reading?

theorem reading?_fst {w : Setting} {path : Text} {e : Text × Module}
    (h : w.reading? path = some e) :
    e.1 = path := by
  rw [reading?] at h
  split at h
  · cases h
    rfl
  · cases h

theorem nodup_readings (w : Setting) {files : List Text} (h : files.Nodup) :
    ((w.readings files).map (·.1)).Nodup := by
  rw [readings, List.map_filterMap]
  refine h.filterMap fun f f' p hf hf' => ?_
  obtain ⟨e, he, rfl⟩ := Option.map_eq_some_iff.1 hf
  obtain ⟨e', he', hee⟩ := Option.map_eq_some_iff.1 hf'
  rw [← reading?_fst he, ← reading?_fst he', hee]

theorem fileChanges_eq (w : Setting) (path : Text) :
    w.fileChanges path false = (w.reading? path).toList.map fun e => .read e.1 e.2 := by
  rw [fileChanges, reading?, Strategy.readAt]
  rcases w.disk.text path with f | t
  · rfl
  · simp only [Except.mapError, bind, Except.bind, textChanges, Bool.false_eq_true, if_false]
    rcases w.strategy.readModule t path with e | _ | m <;> rfl

/-- The changes of files record their readings. -/
theorem foldl_fileChanges (w : Setting) : ∀ (files : List Text) (t : Tables),
    (files.flatMap fun f => w.fileChanges f false).foldl Tables.after t =
      t.recordAll (w.readings files)
  | [], _ => rfl
  | f :: files, t => by
    have ih := foldl_fileChanges w files
    rw [List.flatMap_cons, List.foldl_append, ih, fileChanges_eq, readings, readings]
    rcases hf : w.reading? f with _ | e
    · rw [List.filterMap_cons_none hf]
      rfl
    · rw [List.filterMap_cons_some hf]
      rfl

end Setting

/-- A new session in a setting. -/
def Setting.session (w : Setting) : Session :=
  { disk := w.disk, index := { root := w.root, config := w.config, strategy := w.strategy } }

/-- The reply to a scan. -/
def Reply.ofScan : Except Discovery.Error Nat → Reply
  | .ok n => .count n
  | .error e => .noDiscovery e

namespace Session

/-! ## A rescan of a session at rest -/

theorem lasting_wellFormed : Lasting fun s => s.disk.WellFormed where
  act {s} h a := by
    cases a with
    | advance ticket => exact (disk_step s ticket).symm ▸ h
    | scan => exact (beginScan_frame s).2.1.symm ▸ h
    | write path content => exact Disk.wellFormed_putFile h path content
    | delete path => exact Disk.wellFormed_erase h _
    | request path hangs => exact h
    | updateText path t => exact h
    | remove path => exact h
    | tidy => exact h
  say h _ := h

/-- Only a scan looks for filelists. -/
theorem steady_byFilelist (b : Bool) : Steady fun s => s.index.byFilelist = b where
  request h _ _ := h
  step {s} h ticket := by
    rcases step_cases s ticket with he | ⟨u, -, -, ⟨stage, log, -, -, -, he⟩ | ⟨m, -, -, he⟩ |
      ⟨o, -, he⟩⟩ <;> rw [he] <;> exact h

theorem beginScan_of_found {s : Session} {found : Discovery.Found} {notices : List Notice}
    (h : Discovery.discover s.disk s.index.root s.index.config = .ok (found, notices)) :
    s.beginScan = (.ok found.files, { s with
      index := { s.index.clear with byFilelist := found.byFilelist }
      log := s.log ++ notices ++ [if found.files.isEmpty then .noSources s.index.root
        else .reading found.files.length s.index.root] }) := by
  simp [beginScan, discover, Index.discover, Index.clear, h, bind, Except.bind, pure, Except.pure,
    become, say]

section Rest

variable {s : Session}

theorem settleAll_of_round (h : ∀ u ∈ s.round.updates, u.inFlight = false) :
    s.settleAll = s.round := by
  have hagain : s.round.settleAll = s.round := by
    rw [settleAll, round_of_settled h]
    simp
  rw [settleAll]
  split_ifs
  · exact hagain
  · rfl

/-- The updates that a session at rest requests for a scan: they hold their locks, and the updates
from before do not matter. -/
structure Asked (s : Session) (files : List Text) (a : Session) : Prop where
  scan : s.beginScan.2.issueScan files =
    (a.updates.map fun u => (u.path, u.ticket), a.behind s.updates)
  past : a.Past s.updates
  scanning : Scanning s.setting a
  ready : ∀ u ∈ a.updates, u.stage = .ready
  paths : a.updates.map (·.path) = files
  tables : a.index.tables = s.index.tables.clear
  byFilelist : a.index.byFilelist = s.beginScan.2.index.byFilelist

theorem exists_asked (h : s.Lined) (hrest : ∀ u ∈ s.updates, u.inFlight = false)
    {files : List Text} (hn : files.Nodup) : ∃ a, s.Asked files a := by
  obtain ⟨hu, -, hr, ht, -⟩ := beginScan_frame s
  have hidle := h.idle_tidy hrest
  have hreq : s.beginScan.2.index.requests = s.index.requests := hr.trans hidle.outdateAll
  let b : Session := { s.beginScan.2 with updates := [] }
  have hb : b.behind s.updates = s.beginScan.2 := by
    rw [← hu]
    simp only [behind, b, List.append_nil]
  have hbidle : b.Idle := ⟨rfl, (congrArg Requests.tickets hreq).trans hidle.tickets,
    (congrArg Requests.pending hreq).trans hidle.pending,
    (congrArg Requests.lines hreq).trans hidle.lines⟩
  have hpast : b.Past s.updates := by
    refine ⟨hrest, fun u _ => by simp [tickets, b], fun u hmem => ?_⟩
    exact (h.booked.tickets_lt u hmem).trans_eq (congrArg Requests.nextTicket hreq).symm
  obtain ⟨hscan, hpast'⟩ := issueScan_behind files hpast
  obtain ⟨h1, h2, h3, h4, h5⟩ := issueScan_of_solo files hbidle.solo hn (by simp [b])
  have hlist := (steady_byFilelist b.index.byFilelist).issueScan files (s := b) rfl
  rw [hb] at hscan
  generalize b.issueScan files = asked at hscan hpast' h1 h2 h3 h4 h5 hlist
  obtain ⟨scan, a⟩ := asked
  rw [hbidle.updates, List.nil_append] at h4
  dsimp only at *
  refine ⟨a, ⟨?_, hpast', ⟨h1, h2.trans (setting_beginScan s), ?_, ?_⟩, ?_, ?_, h3.trans ht, hlist⟩⟩
  · rw [hscan, h4, List.map_map]
    exact Prod.ext (List.map_id _).symm rfl
  · rw [h4]
    exact List.forall_mem_map.2 fun _ _ => rfl
  · rw [h4]
    exact List.forall_mem_map.2 fun _ _ => trivial
  · rw [h4]
    exact List.forall_mem_map.2 fun _ _ => rfl
  · rw [h4, List.map_map]
    exact h5

/-- One round ends the updates of a scan and records the readings of its files in order. -/
theorem Asked.round {files : List Text} {a : Session} (h : s.Asked files a)
    (hrest : ∀ u ∈ s.updates, u.inFlight = false) :
    (∀ u ∈ (a.behind s.updates).round.updates, u.inFlight = false)
      ∧ (a.behind s.updates).round.index.tables =
        s.index.tables.clear.recordAll (s.setting.readings files)
      ∧ (a.behind s.updates).round.index.byFilelist = s.beginScan.2.index.byFilelist
      ∧ (a.behind s.updates).round.isOver (a.updates.map fun u => (u.path, u.ticket)) = true := by
  obtain ⟨h1, -, h3, h4, h5⟩ := round_of_ready h.scanning.solo h.ready
  have hend : ∀ u ∈ (a.behind s.updates).round.updates, u.inFlight = false := by
    rw [round_behind h.past]
    exact List.forall_mem_append.2 ⟨hrest, h5⟩
  refine ⟨hend, ?_, ?_, ?_⟩
  · have hfiles : (a.updates.flatMap fun u => a.setting.fileChanges u.path u.hangs) =
        files.flatMap fun f => s.setting.fileChanges f false := by
      rw [← h.paths, List.flatMap_map, h.scanning.setting]
      refine List.flatMap_congr fun u hu => ?_
      rw [h.scanning.prompt u hu]
    rw [round_behind h.past, show (a.round.behind s.updates).index = a.round.index from rfl, h3,
      hfiles, Setting.foldl_fileChanges, h.tables]
  · exact (steady_byFilelist _).round (s := a.behind s.updates) h.byFilelist
  · refine List.all_eq_true.2 (List.forall_mem_map.2 fun u hu => ?_)
    have hticket : u.ticket ∈ (a.behind s.updates).round.tickets := by
      rw [round_behind h.past, tickets, behind, List.map_append, List.mem_append]
      refine .inr ?_
      rw [← tickets, h4]
      exact List.mem_map_of_mem hu
    obtain ⟨v, hv, hvt⟩ := List.mem_map.1 hticket
    rw [outcome?, stage?]
    rcases hfind : (a.behind s.updates).round.update? u.ticket with _ | v'
    · exact absurd (List.find?_eq_none.1 hfind v hv) (by simp [hvt])
    · have hended := hend v' (update?_mem hfind).1
      rwa [Update.inFlight, Option.isNone_eq_false_iff] at hended

/-- A rescan of a session at rest records the readings of the files it finds, in order. -/
theorem rescan_of_rest (h : s.Lined) (hrest : ∀ u ∈ s.updates, u.inFlight = false)
    {found : Discovery.Found} {notices : List Notice} (hn : found.files.Nodup)
    (hfound : Discovery.discover s.disk s.index.root s.index.config = .ok (found, notices)) :
    s.rescan.1 = .ok s.rescan.2.index.tables.size
      ∧ s.rescan.2.index.tables = s.index.tables.clear.recordAll (s.setting.readings found.files)
      ∧ s.rescan.2.index.byFilelist = found.byFilelist
      ∧ s.perform .rescan = (some (.ofScan s.rescan.1), s.rescan.2) := by
  have hb : s.beginScan = (.ok found.files, s.beginScan.2) := by rw [beginScan_of_found hfound]
  have hlist : s.beginScan.2.index.byFilelist = found.byFilelist := by
    rw [beginScan_of_found hfound]
  rcases hfiles : found.files with _ | ⟨f, files⟩ <;> rw [hfiles] at hb hn
  · have htables := (beginScan_frame s).2.2.2.1
    have hscan : s.rescan = (.ok 0, s.beginScan.2) := by rw [rescan, hb]
    have hperform : s.perform .rescan = (some (.count 0), s.beginScan.2) := by
      rw [perform, start, hb]
    rw [hperform, hscan]
    exact ⟨by rw [htables]; rfl, htables, hlist, rfl⟩
  · obtain ⟨a, ha⟩ := exists_asked h hrest hn
    obtain ⟨hend, htables, hmode, hover⟩ := ha.round hrest
    have hscan : s.rescan = (.ok (a.behind s.updates).round.index.tables.size,
        ((a.behind s.updates).round.endScan
          (a.updates.map fun u => (u.path, u.ticket))).2.tidy) := by
      rw [rescan, hb]
      simp only [ha.scan, settleAll_of_round hend]
      rfl
    have hperform : s.perform .rescan = (some (.count (a.behind s.updates).round.index.tables.size),
        ((a.behind s.updates).round.endScan
          (a.updates.map fun u => (u.path, u.ticket))).2.tidy) := by
      rw [perform, start, hb]
      simp only [ha.scan]
      rw [finishAll_of_over hend (show _ = (_, _) by rw [finish, if_pos hover])]
      rfl
    rw [hperform, hscan]
    exact ⟨rfl, htables, hmode.trans hlist, rfl⟩

/-- Without a discovery a rescan only forgets. -/
theorem rescan_of_error {e : Discovery.Error}
    (h : Discovery.discover s.disk s.index.root s.index.config = .error e) :
    s.rescan.1 = .error e ∧ s.rescan.2.index.tables = s.index.tables.clear
      ∧ s.perform .rescan = (some (.ofScan s.rescan.1), s.rescan.2) := by
  have hb : s.beginScan = (.error e, s.beginScan.2) :=
    Prod.ext (by rw [beginScan_fst, h]; rfl) rfl
  have hscan : s.rescan = (.error e, s.beginScan.2) := by rw [rescan, hb]
  have hperform : s.perform .rescan = (some (.noDiscovery e), s.beginScan.2) := by
    rw [perform, start, hb]
  rw [hperform, hscan]
  exact ⟨rfl, (beginScan_frame s).2.2.2.1, rfl⟩

/-- The steps of the updates of a scan may come in any order: as long as the updates are concluded
in the order of their requests, the readings of the files are recorded in order. -/
theorem tables_of_scan (h : s.Lined) (hrest : ∀ u ∈ s.updates, u.inFlight = false)
    {files : List Text} (hn : files.Nodup) {ts : List Nat}
    (hend : ∀ u ∈ ((s.beginScan.2.issueScan files).2.run (ts.map .advance)).updates,
      u.inFlight = false)
    (horder : ((s.beginScan.2.issueScan files).2.concluded ts).Sublist files) :
    ((s.beginScan.2.issueScan files).2.run (ts.map .advance)).index.tables =
      s.index.tables.clear.recordAll (s.setting.readings files) := by
  obtain ⟨a, ha⟩ := exists_asked h hrest hn
  simp only [ha.scan, concluded_behind ts ha.past, run_behind ts ha.past] at hend horder ⊢
  rw [show ∀ a' : Session, (a'.behind s.updates).index = a'.index from fun _ => rfl]
  have hopen : ∀ u ∈ a.updates, u.stage.isOpen = true := fun u hu => by
    rw [ha.ready u hu]
    rfl
  rw [tables_of_order ha.scanning hopen (fun u hu => hend u (List.mem_append_right _ hu))
    (ha.paths.symm ▸ horder), ha.paths, Setting.foldl_fileChanges, ha.tables]

end Rest

/-- A rescan of any session without an update in flight that comes of one where nothing is under
way, with any reader: the number of names that comes of it, the module of each name and the paths
that define it are those of the files found, read one after the other, so the last file wins; and
the steps of its updates may come in any order that concludes them in the order of their requests.
Every question has the answer that a rescan of a new session with the same disk, root,
configuration and reader gives. As a request, a rescan does the same. -/
theorem rescan_forgets_history {s₀ s : Session} (h₀ : s₀.Idle) (hd : s₀.disk.WellFormed)
    (hs : Reachable s₀ s) (hrest : ∀ u ∈ s.updates, u.inFlight = false) :
    (∀ found notices,
      Discovery.discover s.disk s.index.root s.index.config = .ok (found, notices) →
      let L := s.setting.readings found.files
      s.rescan.1 = .ok L.names.length
        ∧ (∀ n, s.rescan.2.index.module? n = (L.winner n).map (·.2))
        ∧ (∀ n, s.rescan.2.index.tables.definitions n = (L.named n).map (·.1))
        ∧ s.rescan.2.index.byFilelist = found.byFilelist
        ∧ ∀ ts : List Nat,
          let asked := (s.beginScan.2.issueScan found.files).2
          let after := asked.run (ts.map .advance)
          (∀ u ∈ after.updates, u.inFlight = false) → (asked.concluded ts).Sublist found.files →
            after.index.tables = s.rescan.2.index.tables)
    ∧ (s.rescan.1 = s.setting.session.rescan.1
      ∧ s.rescan.2.index.tables.Agrees s.setting.session.rescan.2.index.tables)
    ∧ s.perform .rescan = (some (.ofScan s.rescan.1), s.rescan.2) := by
  have hlined := hs.keeps lasting_lined h₀.lined
  have hdisk := hs.keeps lasting_wellFormed hd
  have hnew : s.setting.session.Idle := ⟨rfl, rfl, rfl, rfl⟩
  have hnewrest : ∀ u ∈ s.setting.session.updates, u.inFlight = false := by simp [hnew.updates]
  rcases hfound : Discovery.discover s.disk s.index.root s.index.config with e | ⟨found, notices⟩
  · obtain ⟨h1, h2, h3⟩ := rescan_of_error hfound
    obtain ⟨k1, k2, -⟩ := rescan_of_error (s := s.setting.session) hfound
    refine ⟨fun _ _ hf => (by cases hf), ⟨h1.trans k1.symm, ?_⟩, h3⟩
    rw [h2, k2]
    exact Tables.agrees_recordAll s.index.tables {} (L := []) .nil
  · have hn := Discovery.nodup_discover hdisk hfound
    obtain ⟨h1, h2, h3, h4⟩ := rescan_of_rest hlined hrest hn hfound
    obtain ⟨k1, k2, -, -⟩ := rescan_of_rest hnew.lined hnewrest hn hfound
    have hpaths := s.setting.nodup_readings hn
    have hrecorded : s.rescan.2.index.tables.Recorded (s.setting.readings found.files) := by
      rw [h2]
      exact Tables.recorded_recordAll _ s.index.tables.recorded_clear hpaths
    have hagrees : s.rescan.2.index.tables.Agrees
        s.setting.session.rescan.2.index.tables := by
      rw [h2, k2]
      exact Tables.agrees_recordAll _ _ hpaths
    refine ⟨fun found' notices' hf => ?_, ⟨?_, hagrees⟩, h4⟩
    · cases hf
      refine ⟨?_, hrecorded.module, hrecorded.definitions, h3, fun ts hend horder => ?_⟩
      · rw [h1, Tables.size_eq hrecorded.modules_nodup hrecorded.module]
      · rw [h2]
        exact tables_of_scan hlined hrest hn hend horder
    · rw [h1, k1, hagrees.size]

/-- Two files define `m`, one has no module, one is found but cannot be opened, and the index has a
text that is no file. An update from before the scan has ended and is still there. The second file
is read first and concluded after the first one; a new session gives the same answers. -/
theorem rescan_forgets_text :
    let disk : Disk := ⟨[("p".toList, .folder [
      ("a.v".toList, .file (Text.Utf8.encode "module m; endmodule")),
      ("b.v".toList, .file (Text.Utf8.encode "module m (input a); endmodule")),
      ("c.v".toList, .file (Text.Utf8.encode "no module")),
      ("d.v".toList, .file none)])], "/p"⟩
    let legible := ["/p/a.v".toList, "/p/b.v".toList, "/p/c.v".toList]
    let files := legible ++ ["/p/d.v".toList]
    let s₀ : Session := { disk, index := { root := "/p" } }
    let s := s₀.run [.updateText "/p/x.v" "module old; endmodule", .request "/p/a.v" false,
      .advance 1, .advance 1, .advance 1, .advance 1, .advance 1]
    let ts := [3, 3, 4, 4, 5, 2, 2, 2, 2, 5, 3, 3, 4, 4]
    create disk "/p" {} = .ok s₀ ∧ s₀.Idle ∧ disk.WellFormed ∧ Reachable s₀ s
      ∧ (disk.exists? "/p/d.v" = true ∧ disk.text "/p/d.v" = .error ⟨.noDevice, "/p/d.v"⟩)
      ∧ (s.updates.map (·.ticket) = [1] ∧ ∀ u ∈ s.updates, u.inFlight = false)
      ∧ s.index.tables.modules.keys = ["old".toList, "m".toList]
      ∧ s.rescan.1 = .ok 1
      ∧ s.rescan.2.index.tables.definitions "m" = ["/p/a.v".toList, "/p/b.v".toList]
      ∧ (s.rescan.2.index.module? "m").map (·.ports.length) = some 1
      ∧ s.rescan.2.index.module? "old" = none
      ∧ (s.beginScan.2.issueScan files).2.concluded ts = legible
      ∧ ((s.beginScan.2.issueScan files).2.run (ts.map .advance)).index.tables =
        s.rescan.2.index.tables
      ∧ s.rescan.2.index.tables.Agrees s₀.rescan.2.index.tables := by
  intro disk legible files
  have hdisk : disk.WellFormed := by
    refine ⟨.folder (by decide) (by decide) ?_, rfl⟩
    simp only [disk, List.mem_singleton, forall_eq]
    refine .folder (by decide) (by decide) ?_
    simp only [List.mem_cons, List.not_mem_nil, or_false, forall_eq_or_imp, forall_eq]
    exact ⟨.file _, .file _, .file _, .file _⟩
  intro s₀ s ts
  have hidle : s₀.Idle := ⟨rfl, rfl, rfl, rfl⟩
  have hs : Reachable s₀ s := reachable_run .start _
  have hrest : ∀ u ∈ s.updates, u.inFlight = false := by decide +kernel
  have hsetting : s.setting = s₀.setting := by
    simp only [s, run, List.foldl_cons, List.foldl_nil, act, setting_step]
    rfl
  have hdiscover : Discovery.discover disk "/p" {} = .ok (⟨files, false⟩, []) := by
    have hcandidates : Discovery.candidates disk "/p" {} = .ok [("/p".toList, "a.v".toList),
      ("/p".toList, "b.v".toList), ("/p".toList, "c.v".toList), ("/p".toList, "d.v".toList)] := rfl
    have hlists : Discovery.filelists disk "/p" {} = .ok [] := by
      simp only [Discovery.filelists, hcandidates]
      show Except.ok (Text.sorted []) = _
      rw [Text.sorted, List.mergeSort_nil]
    have hsorted : Text.sorted files = files := List.mergeSort_of_pairwise (by decide +kernel)
    rw [Discovery.discover, hlists, hcandidates]
    show Except.ok ((⟨Text.sorted files, false⟩ : Discovery.Found), _) = _
    rw [hsorted]
  -- the disk and the root are those of the start, whatever was done to the tables
  have hfound : ∀ s' : Session, s'.setting = s₀.setting →
      Discovery.discover s'.disk s'.index.root s'.index.config = .ok (⟨files, false⟩, []) :=
    fun s' h => (congrArg (fun w : Setting => Discovery.discover w.disk w.root w.config) h).trans
      hdiscover
  have hrescan : ∀ s' : Session, Reachable s₀ s' → (∀ u ∈ s'.updates, u.inFlight = false) →
      s'.setting = s₀.setting →
      s'.rescan.1 = .ok (s₀.setting.readings files).names.length
        ∧ (∀ n, s'.rescan.2.index.module? n = ((s₀.setting.readings files).winner n).map (·.2))
        ∧ (∀ n, s'.rescan.2.index.tables.definitions n =
          ((s₀.setting.readings files).named n).map (·.1))
        ∧ (∀ ts, (∀ u ∈ ((s'.beginScan.2.issueScan files).2.run (ts.map .advance)).updates,
            u.inFlight = false) →
          ((s'.beginScan.2.issueScan files).2.concluded ts).Sublist files →
          ((s'.beginScan.2.issueScan files).2.run (ts.map .advance)).index.tables =
            s'.rescan.2.index.tables)
        ∧ s'.rescan.2.index.tables.Agrees s₀.rescan.2.index.tables := by
    intro s' hs' hrest' hsetting'
    obtain ⟨hfiles, ⟨-, hagrees⟩, -⟩ := rescan_forgets_history hidle hdisk hs' hrest'
    obtain ⟨hcount, hmodule, hdefinitions, -, hsteps⟩ := hfiles _ _ (hfound s' hsetting')
    rw [hsetting'] at hcount hmodule hdefinitions hagrees
    exact ⟨hcount, hmodule, hdefinitions, hsteps, hagrees⟩
  have hbegin := congrArg Prod.snd (beginScan_of_found (hfound s hsetting))
  have hconcluded : (s.beginScan.2.issueScan files).2.concluded ts = legible := by
    rw [hbegin]
    decide +kernel
  have hended : ∀ u ∈ ((s.beginScan.2.issueScan files).2.run (ts.map .advance)).updates,
      u.inFlight = false := by
    rw [hbegin]
    decide +kernel
  obtain ⟨hcount, hmodule, hdefinitions, hsteps, hagrees⟩ := hrescan s hs hrest hsetting
  refine ⟨rfl, hidle, hdisk, hs, ⟨by decide +kernel, rfl⟩, ⟨by decide +kernel, hrest⟩,
    by decide +kernel, ?_, ?_, ?_, ?_, hconcluded, hsteps ts hended ?_, hagrees⟩
  · rw [hcount]
    exact congrArg Except.ok (by decide +kernel)
  · rw [hdefinitions]
    decide +kernel
  · rw [hmodule]
    decide +kernel
  · rw [hmodule]
    decide +kernel
  · rw [hconcluded]
    exact List.sublist_append_left _ _

end Session

end VerilogIndex
