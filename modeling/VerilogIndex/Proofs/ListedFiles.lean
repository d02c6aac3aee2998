import VerilogIndex.Proofs.Refresh
import VerilogIndex.Proofs.Reports
import VerilogIndex.Proofs.Rescan

/-!
# Files that filelists name

Where there are filelists a scan reads the files that they name, and no others. A watcher does not
ask the filelists again: it goes by the reports that it gets, and a report tells of any file that is
a source file by its name.

If each file that is reported to be there is named by a filelist, so is each path that is recorded,
as an update is only ever requested for a path that was reported (`Watcher.Confined`). A file that
no filelist names is recorded like any other once it is reported (`exists_recorded`). Main
statement: the paths of the index are named by filelists in every run if and only if the files of
the reports are (`paths_listed_iff`).
-/

namespace VerilogIndex

/-! ## What is recorded -/

namespace Tables

/-- The paths of the tables were read. -/
theorem Shows.read_mem {t : Tables} {log : List Change} (h : t.Shows (Live.ofChanges log))
    {q : Text} (hq : q ∈ t.paths) : ∃ m, .read q m ∈ log := by
  rw [paths_eq h, Text.mem_sorted, Live.mem_winningPaths] at hq
  obtain ⟨n, m, hwinner⟩ := hq
  exact ⟨m, Live.read_mem_of_mem (Live.mem_of_winner hwinner).1⟩

/-- A path that was just read owns its name. -/
theorem Shows.mem_paths {t : Tables} {log : List Change} {q : Text} {m : Module}
    (h : t.Shows (Live.ofChanges (log ++ [.read q m]))) : q ∈ t.paths := by
  rw [paths_eq h, Text.mem_sorted, Live.mem_winningPaths]
  refine ⟨m.name, m, ?_⟩
  rw [Live.ofChanges_append_read, Live.winner_append, if_pos rfl]

end Tables

namespace Session

/-- A filelist of the project names the path. -/
def Lists (s : Session) (q : Text) : Prop :=
  ∃ lists, Discovery.filelists s.disk s.index.root s.index.config = .ok lists
    ∧ ∃ l ∈ lists, q ∈ (Filelist.resolve s.disk s.index.config.extensions l).1

/-- With some files on the disk, a module is read at the path. -/
def CanFind (s : Session) (q : Text) : Prop :=
  ∃ (root : Folder) (t : Text) (m : Module),
    Disk.text ⟨root, s.disk.here⟩ q = .ok t ∧ s.index.strategy.readModule t q = .ok (some m)

/-- The event is of no filelist, and of no source file that filelists do not name, unless no module
can be there. -/
def Expects (s : Session) (f : EventFilter) (e : FileEvent) : Prop :=
  (∀ p ∈ e.paths, f.classify p ≠ .ok (some .filelist))
    ∧ ∀ p, e.present? = some p → f.classify p = .ok (some .source) →
      s.CanFind (s.place p) → s.Lists (s.place p)

/-- What the stage of an update holds was there with some files on the disk. -/
def Backs (s : Session) (u : Update) : Prop :=
  match u.stage with
  | .loaded t => ∃ root, Disk.text ⟨root, s.disk.here⟩ u.path = .ok t
  | .parsed (.found _) => s.CanFind u.path
  | _ => True

/-- What a step does to the update of its ticket: a text comes from the disk, and a module from the
text that was there before. -/
theorem step_eq_moveTo (s : Session) (ticket : Nat) : s.step ticket = s
    ∨ ∃ u stage, s.update? ticket = some u
      ∧ (∃ s' : Session, s.step ticket = s'.moveTo ticket stage ∧ s'.updates = s.updates)
      ∧ (∀ t, stage = .loaded t → s.disk.text u.path = .ok t)
      ∧ ∀ m, stage = .parsed (.found m) →
        ∃ t, u.stage = .loaded t ∧ s.index.strategy.readModule t u.path = .ok (some m) := by
  rcases hu : s.update? ticket with _ | u
  · exact .inl (by simp only [step, hu])
  obtain ⟨-, rfl⟩ := update?_mem hu
  rcases hs : u.stage with _ | _ | t | reading | o | o
  · by_cases hfirst : s.index.requests.isFirst u.path u.ticket = true
    · have hstep : s.step u.ticket = s.moveTo u.ticket
          (if s.index.requests.isNewest u.path u.ticket then .ready else .leaving .stale) := by
        simp only [step, hu, hs, acquire, hfirst, if_true]
      refine .inr ⟨u, _, rfl, ⟨s, hstep, rfl⟩, ?_, ?_⟩ <;> split_ifs <;> simp
    · exact .inl (by simp [step, hu, hs, acquire, hfirst])
  · rcases hd : s.disk.text u.path with e | t
    · have hstep : s.step u.ticket =
          (s.say [.cannotRead u.path e]).moveTo u.ticket (.leaving .unreadable) := by
        simp only [step, hu, hs, load, hd]
      exact .inr ⟨u, _, rfl, ⟨_, hstep, rfl⟩, by simp, by simp⟩
    · have hstep : s.step u.ticket = s.moveTo u.ticket (.loaded t) := by
        simp only [step, hu, hs, load, hd]
      exact .inr ⟨u, _, rfl, ⟨_, hstep, rfl⟩, by simp [hd], by simp⟩
  · have hstep : s.step u.ticket = s.moveTo u.ticket (.parsed
        (if u.hangs then .late else .ofResult (s.index.strategy.readModule t u.path))) := by
      simp only [step, hu, hs, parse]
    refine .inr ⟨u, _, rfl, ⟨_, hstep, rfl⟩, by simp, fun m hm => ⟨t, hs, ?_⟩⟩
    rcases hr : s.index.strategy.readModule t u.path with e | _ | m' <;>
      cases hh : u.hangs <;> simp_all [Reading.ofResult]
  · obtain ⟨s', o, hstep, hupdates⟩ : ∃ (s' : Session) (o : Outcome),
        s.step u.ticket = s'.moveTo u.ticket (.leaving o) ∧ s'.updates = s.updates := by
      simp only [step, hu, hs]
      rcases reading with _ | e | _ | m
      · exact ⟨_, _, rfl, rfl⟩
      · exact ⟨_, _, rfl, rfl⟩
      · exact ⟨_, _, rfl, rfl⟩
      · rw [conclude]
        split_ifs <;> exact ⟨_, _, rfl, rfl⟩
    exact .inr ⟨u, _, rfl, ⟨_, hstep, hupdates⟩, by simp, by simp⟩
  · have hstep : s.step u.ticket = s.settle u o := by simp only [step, hu, hs]
    exact .inr ⟨u, .settled o, rfl, ⟨_, hstep, rfl⟩, by simp, by simp⟩
  · exact .inl (by simp only [step, hu, hs])

/-- Only the index and the updates matter. -/
theorem Tells.of_same {s s' : Session} {log : List Change} (h : s.Tells log)
    (hindex : s'.index = s.index) (hupdates : s'.updates = s.updates) : s'.Tells log where
  booked := h.booked.of_same hupdates (by rw [hindex]) (by rw [hindex])
  keeps := hindex ▸ h.keeps
  own := hupdates ▸ h.own
  shows := hindex ▸ h.shows

/-! ## Paths that filelists name -/

/-- All that was read from the project is named by its filelists, and so is every path that is under
way, if a module can be there at all. -/
structure Confined (s₀ s : Session) : Prop where
  here : s.disk.here = s₀.disk.here
  strategy : s.index.strategy = s₀.index.strategy
  tells : ∃ log, s.Tells log ∧ ∀ q m, .read q m ∈ log → s₀.Lists q
  updates : ∀ u ∈ s.updates, (s₀.CanFind u.path → s₀.Lists u.path) ∧ s₀.Backs u

namespace Confined

variable {s₀ s : Session}

/-- The next stage of an update holds what is on the disk now, or what comes of its text. -/
theorem backs_stage (h : s₀.Confined s) {u : Update} {stage : Stage} (hu : s₀.Backs u)
    (hload : ∀ t, stage = .loaded t → s.disk.text u.path = .ok t)
    (hparse : ∀ m, stage = .parsed (.found m) →
      ∃ t, u.stage = .loaded t ∧ s.index.strategy.readModule t u.path = .ok (some m)) :
    s₀.Backs { u with stage } := by
  rw [Backs]
  split
  · rename_i t hstage
    refine ⟨s.disk.root, ?_⟩
    rw [← h.here]
    exact hload t hstage
  · rename_i m hstage
    obtain ⟨t, hs, hread⟩ := hparse m hstage
    rw [Backs, hs] at hu
    obtain ⟨root, ht⟩ := hu
    exact ⟨root, t, m, ht, h.strategy ▸ hread⟩
  · trivial

theorem paths (h : s₀.Confined s) : ∀ q ∈ s.index.tables.paths, s₀.Lists q := by
  intro q hq
  obtain ⟨log, htells, hlog⟩ := h.tells
  obtain ⟨m, hm⟩ := htells.shows.read_mem hq
  exact hlog q m hm

/-- Only the current folder, the index and the updates matter. -/
theorem of_same (h : s₀.Confined s) {s' : Session} (hhere : s'.disk.here = s.disk.here)
    (hindex : s'.index = s.index) (hupdates : s'.updates = s.updates) : s₀.Confined s' := by
  obtain ⟨log, htells, hlog⟩ := h.tells
  exact ⟨hhere.trans h.here, hindex ▸ h.strategy, ⟨log, htells.of_same hindex hupdates, hlog⟩,
    hupdates ▸ h.updates⟩

/-- An action keeps to the listed paths in what it records and in what it puts under way. -/
theorem act (h : s₀.Confined s) {a : Action} (hhere : (s.act a).disk.here = s.disk.here)
    (hread : ∀ q m, .read q m ∈ s.changesOf a → s₀.Lists q)
    (hupdates : ∀ u ∈ (s.act a).updates, (s₀.CanFind u.path → s₀.Lists u.path) ∧ s₀.Backs u) :
    s₀.Confined (s.act a) := by
  obtain ⟨log, htells, hlog⟩ := h.tells
  refine ⟨hhere.trans h.here, (strategy_act s a).trans h.strategy,
    ⟨_, tells_act htells a, fun q m hm => ?_⟩, hupdates⟩
  rcases List.mem_append.1 hm with hm | hm
  · exact hlog q m hm
  · exact hread q m hm

theorem remove (h : s₀.Confined s) (path : Text) : s₀.Confined (s.act (.remove path)) :=
  h.act rfl (by simp [changesOf]) h.updates

theorem tidy (h : s₀.Confined s) : s₀.Confined (s.act .tidy) :=
  h.act rfl (by simp [changesOf]) fun u hu => h.updates u (List.mem_filter.1 hu).1

theorem request (h : s₀.Confined s) {path : Text} (hpath : s₀.CanFind path → s₀.Lists path) :
    s₀.Confined (s.act (.request path false)) := by
  refine h.act rfl (by simp [changesOf]) fun u hu => ?_
  rcases List.mem_append.1 hu with hu | hu
  · exact h.updates u hu
  · rw [List.mem_singleton.1 hu]
    exact ⟨hpath, trivial⟩

theorem step (h : s₀.Confined s) (ticket : Nat) : s₀.Confined (s.step ticket) := by
  refine h.act (a := .advance ticket) (congrArg Disk.here (disk_step s ticket)) (fun q m hm => ?_)
    fun v hv => ?_
  · obtain ⟨u, m, hu, hs, hread⟩ := exists_of_mem_changesOf_advance hm
    cases hread
    obtain ⟨hadmits, hbacks⟩ := h.updates u (update?_mem hu).1
    rw [Backs, hs] at hbacks
    exact hadmits hbacks
  · rcases step_eq_moveTo s ticket with he | ⟨u, stage, hu, ⟨s', he, hs'⟩, hload, hparse⟩
    · exact h.updates v (he ▸ hv)
    · rw [Session.act, he] at hv
      obtain ⟨v', hv', rfl⟩ := mem_moveTo hv
      split_ifs with ht
      · obtain ⟨log, htells, -⟩ := h.tells
        rw [htells.booked.unique hu (hs' ▸ hv') ht]
        obtain ⟨hadmits, hbacks⟩ := h.updates u (update?_mem hu).1
        exact ⟨hadmits, h.backs_stage hbacks hload hparse⟩
      · exact h.updates v' (hs' ▸ hv')

end Confined

end Session

namespace Watcher

/-- The session keeps to the listed paths, no scan is under way or asked for, and of the paths under
which there is an event to read a file all are listed, if a module can be there at all. -/
structure Confined (s₀ : Session) (f : EventFilter) (w : Watcher) : Prop where
  filter : w.filter = f
  session : s₀.Confined w.session
  pending : ∀ key kind, (w.slot key).pending = some kind → kind ≠ .rescan
    ∧ (kind ≠ .deleted → s₀.CanFind key → s₀.Lists key)
  work : ∀ key work, (w.slot key).work = some work →
    work = .idle ∨ ∃ kind ticket, work = .updating kind ticket

namespace Confined

variable {s₀ : Session} {f : EventFilter} {w : Watcher}

theorem withSession (h : Confined s₀ f w) {s : Session} (hs : s₀.Confined s) :
    Confined s₀ f { w with session := s } := ⟨h.filter, hs, h.pending, h.work⟩

theorem turnTo (h : Confined s₀ f w) (key : Text) {work : Work}
    (hwork : work = .idle ∨ ∃ kind ticket, work = .updating kind ticket) :
    Confined s₀ f (w.turnTo key work) := by
  refine ⟨h.filter, h.session, fun k kind hk => ?_, fun k work' hk => ?_⟩ <;>
    rw [slot_turnTo] at hk <;> split_ifs at hk with he
  · exact h.pending k kind (he ▸ hk)
  · exact h.pending k kind hk
  · cases hk
    exact hwork
  · exact h.work k work' hk

theorem dispatch (h : Confined s₀ f w) (key : Text) {kind : EventKind} (hkind : kind ≠ .rescan)
    (hkey : kind ≠ .deleted → s₀.CanFind key → s₀.Lists key) :
    Confined s₀ f (w.dispatch kind key) := by
  have hissue : kind ≠ .deleted → s₀.Confined (w.session.issue key false).2 := fun hk =>
    (h.session.request (hkey hk)).step _
  cases kind with
  | deleted => exact h.withSession (h.session.remove key)
  | created => exact (h.withSession (hissue (by simp))).turnTo key (.inr ⟨_, _, rfl⟩)
  | changed => exact (h.withSession (hissue (by simp))).turnTo key (.inr ⟨_, _, rfl⟩)
  | rescan => exact absurd rfl hkind

theorem taken (h : Confined s₀ f w) (key : Text) (kind : EventKind) :
    Confined s₀ f (w.taken key kind) := by
  refine ⟨h.filter, h.session, fun k kind hk => ?_, fun k work hk => ?_⟩ <;>
    rw [slot_taken] at hk <;> split_ifs at hk with he
  · exact h.pending k kind hk
  · exact h.work k work (he ▸ hk)
  · exact h.work k work hk

theorem look (h : Confined s₀ f w) (key : Text) : Confined s₀ f (w.look key) := by
  rcases look_cases w key with hlook | ⟨-, hlook⟩ | ⟨kind, hslot, hlook⟩ <;> rw [hlook]
  · exact h
  · refine ⟨h.filter, h.session, fun k kind hk => ?_, fun k work hk => ?_⟩ <;>
      rw [slot_retire] at hk <;> split_ifs at hk with he
    · exact h.pending k kind (he ▸ hk)
    · exact h.pending k kind hk
    · exact h.work k work hk
  · obtain ⟨hkind, hkey⟩ := h.pending key kind (by rw [hslot])
    exact (h.taken key kind).dispatch key hkind hkey

theorem finish (h : Confined s₀ f w) (key : Text) : Confined s₀ f (w.finish key) := by
  rcases finish_cases w key with hfinish | ⟨work, session, hbusy, hwork, hfinish, hsession⟩ <;>
    rw [hfinish]
  · exact h
  · rcases h.work key work hwork with rfl | ⟨kind, ticket, rfl⟩
    · exact absurd rfl hbusy
    · obtain ⟨o, notices, -, rfl⟩ := hsession kind ticket rfl
      have hsay : s₀.Confined (w.session.say notices) := h.session.of_same rfl rfl rfl
      exact (h.withSession hsay).turnTo key (.inl rfl)

theorem requestScan (h : Confined s₀ f w) (key : Text) : Confined s₀ f (w.requestScan key) := by
  rw [Watcher.requestScan]
  split
  · rename_i files hfound
    rcases h.work key _ hfound with hwork | ⟨kind, ticket, hwork⟩ <;> cases hwork
  · exact h

theorem steady : Steady (Confined s₀ f) where
  look h key := h.look key
  requestScan h key := h.requestScan key
  finish h key := h.finish key
  step h ticket := h.withSession (h.session.step ticket)
  tidy h := h.withSession h.session.tidy

theorem submit (h : Confined s₀ f w) {kind : EventKind} {p : Text} (hkind : kind ≠ .rescan)
    (hp : kind ≠ .deleted → s₀.CanFind (s₀.place p) → s₀.Lists (s₀.place p)) :
    Confined s₀ f (w.submit kind p) := by
  have hkey : w.keyOf kind p = s₀.place p := by
    rw [keyOf, if_neg hkind, Session.place, Session.place, Disk.absolute, Disk.absolute,
      h.session.here]
  refine ⟨h.filter, h.session, fun k kind' hk => ?_, fun k work hk => ?_⟩ <;>
    rw [slot_submit, hkey] at hk <;> split_ifs at hk with he
  · cases hk
    exact ⟨hkind, he ▸ hp⟩
  · exact h.pending k kind' hk
  · cases hk
    rcases hw : (w.slot k).work with _ | work
    · exact .inl rfl
    · exact h.work k work hw
  · exact h.work k work hk

theorem report (h : Confined s₀ f w) {e : FileEvent} (he : s₀.Expects f e) :
    Confined s₀ f (w.perform (.report e)) := by
  rw [perform]
  split
  swap
  · exact h
  rename_i after hafter
  rw [notify, bind_eq_ok_iff, h.filter] at hafter
  obtain ⟨posted, hposted, hafter⟩ := hafter
  cases hafter
  have hall : ∀ x ∈ posted, x.1 ≠ .rescan
      ∧ (x.1 ≠ .deleted → s₀.CanFind (s₀.place x.2) → s₀.Lists (s₀.place x.2)) := by
    intro x hx
    obtain ⟨hparts, hsource⟩ := EventFilter.of_mem_posts hposted he.1 hx
    obtain ⟨hkind, hpresent⟩ := FileEvent.of_mem_parts hparts
    exact ⟨hkind, fun hk => he.2 x.2 (hpresent hk) hsource⟩
  clear hposted
  induction posted generalizing w with
  | nil => exact h
  | cons x posted ih =>
    obtain ⟨hx, hall⟩ := List.forall_mem_cons.1 hall
    exact ih (h.submit hx.1 hx.2) hall

theorem perform (h : Confined s₀ f w) {a : Action} (ha : ∀ e, a = .report e → s₀.Expects f e) :
    Confined s₀ f (w.perform a) := by
  cases a with
  | report e => exact h.report (ha e rfl)
  | look key => exact h.look key
  | requestScan key => exact h.requestScan key
  | finish key => exact h.finish key
  | advance ticket => exact h.withSession (h.session.step ticket)
  | join => exact steady.join h
  | change root => exact h.withSession (h.session.of_same rfl rfl rfl)

theorem performAll : ∀ {actions : List Action} {w : Watcher}, Confined s₀ f w →
    (∀ e, .report e ∈ actions → s₀.Expects f e) → Confined s₀ f (w.performAll actions)
  | [], _, h, _ => h
  | a :: actions, w, h, hreports => by
    have hstep : Confined s₀ f (w.perform a) := h.perform fun e he =>
      hreports e (he ▸ List.mem_cons_self)
    have hrun : Confined s₀ f ((w.perform a).performAll actions) :=
      performAll hstep fun e he => hreports e (List.mem_cons_of_mem a he)
    exact hrun

end Confined

end Watcher

/-! ## After a scan -/

namespace Session

variable {s : Session}

theorem lists_iff {files : List Text} {notices : List Notice}
    (h : Discovery.discover s.disk s.index.root s.index.config = .ok (⟨files, true⟩, notices))
    (q : Text) : s.Lists q ↔ q ∈ files := by
  simp only [Discovery.discover, bind_eq_ok_iff] at h
  obtain ⟨lists, hlists, h⟩ := h
  split_ifs at h
  · obtain ⟨_, -, h⟩ := bind_eq_ok_iff.1 h
    cases h
  · cases h
    rw [Text.mem_distinct, List.mem_flatMap, Lists, hlists]
    simp

/-- A scan of a session where nothing is under way, with filelists, keeps to the files they name. -/
theorem confined_rescan (h : s.Idle) (hd : s.disk.WellFormed) (hk : s.index.strategy.KeepsPath)
    {n : Nat} (hscan : s.rescan.1 = .ok n) (hmode : s.rescan.2.index.byFilelist = true) :
    s.rescan.2.Idle ∧ s.rescan.2.setting = s.setting ∧ s.Confined s.rescan.2 := by
  rcases hfound : Discovery.discover s.disk s.index.root s.index.config with e | ⟨found, notices⟩
  · rw [(rescan_of_error hfound).1] at hscan
    cases hscan
  have hnodup : ∀ found notices, Discovery.discover s.disk s.index.root s.index.config =
      .ok (found, notices) → found.files.Nodup := fun _ _ hf => Discovery.nodup_discover hd hf
  obtain ⟨-, -, hlist, hperform⟩ := rescan_of_rest h.lined (by simp [h.updates])
    (hnodup found notices hfound) hfound
  obtain ⟨-, hidle, hset, htables⟩ := perform_of_idle h .rescan hnodup
  have hafter : (s.perform .rescan).2 = s.rescan.2 := by rw [hperform]
  rw [hafter] at hidle hset htables
  obtain ⟨files, byFilelist⟩ := found
  obtain rfl : byFilelist = true := hlist.symm.trans hmode
  have hchanges : s.setting.changes .rescan =
      .cleared :: files.flatMap fun f => s.setting.fileChanges f false := by
    simp only [Setting.changes, setting, hfound]
  have hown : ∀ c ∈ files.flatMap fun f => s.setting.fileChanges f false, c.Own := fun c hc => by
    obtain ⟨f, -, hc⟩ := List.mem_flatMap.1 hc
    exact Setting.own_fileChanges (w := s.setting) hk f false c hc
  have hshows : (List.foldl Tables.after s.index.tables.clear _).Shows (Live.ofChanges ([] ++ _)) :=
    Tables.shows_foldl_after _ (Tables.shows_clear s.index.tables) hown
  rw [hchanges] at htables
  have hstrategy : s.rescan.2.index.strategy = s.index.strategy := congrArg (·.strategy) hset
  have hlog : ∀ q m, .read q m ∈ (files.flatMap fun f => s.setting.fileChanges f false) →
      s.Lists q := fun q m hm => by
    obtain ⟨f, hf, hm⟩ := List.mem_flatMap.1 hm
    rw [Setting.fileChanges_eq, List.mem_map] at hm
    obtain ⟨e, he, hread⟩ := hm
    cases hread
    rw [lists_iff hfound, Setting.reading?_fst (Option.mem_toList.1 he)]
    exact hf
  have htells : s.rescan.2.Tells (files.flatMap fun f => s.setting.fileChanges f false) :=
    ⟨hidle.booked, hstrategy ▸ hk, by simp [hidle.updates], htables ▸ hshows⟩
  exact ⟨hidle, hset, congrArg (·.disk.here) hset, hstrategy, ⟨_, htells, hlog⟩,
    by simp [hidle.updates]⟩

/-- Only the step that concludes an update changes the tables. -/
theorem Tells.step {log : List Change} (h : s.Tells log) {k : Nat} {u : Update}
    (hu : s.update? k = some u) (hs : ∀ r, u.stage ≠ .parsed r) : (s.step k).Tells log := by
  have hact := tells_act h (.advance k)
  rwa [changesOf_advance_nil fun v r hv hr => ?_, List.append_nil] at hact
  rw [hu] at hv
  cases hv
  exact hs r hr

/-- An update that is requested where nothing is under way records the module of its file. -/
theorem tells_issue {log : List Change} (h : s.Idle) (htells : s.Tells log) {q t : Text}
    {m : Module} (ht : s.disk.text q = .ok t)
    (hm : s.index.strategy.readModule t q = .ok (some m)) :
    let k := (s.issue q false).1
    ((((s.issue q false).2.step k).step k).step k).Tells (log ++ [.read q m]) := by
  intro k
  obtain ⟨hsolo, hset, -, hupdates⟩ := issue_of_solo h.solo q (by simp [h.updates]) false
  have hissue : (s.issue q false).2.Tells log := by
    have hrequest := tells_act htells (.request q false)
    rw [changesOf, List.append_nil] at hrequest
    exact hrequest.step (update?_request htells.booked q false).1 (by simp)
  have hdisk : (s.issue q false).2.disk = s.disk := congrArg (·.disk) hset
  have hstrategy : (s.issue q false).2.index.strategy = s.index.strategy :=
    congrArg (·.strategy) hset
  have hmem : ⟨q, k, false, .ready⟩ ∈ (s.issue q false).2.updates := by simp [hupdates, k]
  clear_value k
  generalize (s.issue q false).2 = a at *
  have hready : a.update? k = some ⟨q, k, false, .ready⟩ := update?_of_mem hsolo.booked hmem
  have hnewest : a.index.requests.isNewest q k = true := hsolo.isNewest hmem rfl
  -- the file is read, then the module, which is recorded then
  obtain ⟨b, hb⟩ : ∃ b, b = a.moveTo k (.loaded t) := ⟨_, rfl⟩
  have hload : a.step k = b := by
    simp only [hb, step, hready, load, hdisk, ht]
  have hloaded : b.update? k = some ⟨q, k, false, .loaded t⟩ := hb ▸ update?_moveTo hready _
  obtain ⟨c, hc⟩ : ∃ c, c = b.moveTo k (.parsed (.found m)) := ⟨_, rfl⟩
  have hstrategy' : b.index.strategy = s.index.strategy := hb ▸ hstrategy
  have hparse : b.step k = c := by
    simp only [hc, step, hloaded, parse, hstrategy', hm]
    rfl
  have hparsed : c.update? k = some ⟨q, k, false, .parsed (.found m)⟩ :=
    hc ▸ update?_moveTo hloaded _
  have hfound : c.Tells log := by
    rw [← hparse, ← hload]
    exact (hissue.step hready (by simp)).step (hload ▸ hloaded) (by simp)
  have hchanges : c.changesOf (.advance k) = [.read q m] := by
    rw [changesOf_advance hparsed rfl, hc, hb]
    exact if_pos hnewest
  rw [hload, hparse, ← hchanges]
  exact tells_act hfound (.advance k)

end Session

namespace Watcher

/-- A source file that is reported to be there is recorded, whether a filelist names it or not. -/
theorem exists_recorded {w : Watcher} {log : List Change} (hidle : w.session.Idle)
    (htells : w.session.Tells log) (hnone : w.coalescer = {}) {e : FileEvent} {p : Text}
    (hp : e.present? = some p) (hsource : w.filter.classify p = .ok (some .source))
    (hfind : w.session.CanFind (w.session.place p)) :
    ∃ actions : List Action, (∀ e', .report e' ∈ actions → e' = e)
      ∧ w.session.place p ∈ (w.performAll actions).session.index.tables.paths := by
  obtain ⟨root, t, m, ht, hm⟩ := hfind
  let changed := w.perform (.change root)
  let q := w.session.place p
  let k := (changed.session.issue q false).1
  have hwork : ∀ key, (changed.slot key).work.getD .idle = .idle := fun key => by
    have hslot : changed.slot key = w.slot key := rfl
    rw [hslot, slot, hnone]
    rfl
  have hlook : ((changed.perform (.report e)).look q).session = (changed.session.issue q false).2 :=
    session_look_report hwork hp hsource
  have hrecorded := Session.tells_issue (s := changed.session) (hidle.of_same rfl rfl)
    (htells.of_same rfl rfl) ht hm
  refine ⟨[.change root, .report e, .look q, .advance k, .advance k, .advance k], by simp, ?_⟩
  have hsession : (w.performAll [.change root, .report e, .look q, .advance k, .advance k,
      .advance k]).session = (((changed.session.issue q false).2.step k).step k).step k :=
    congrArg (fun s : Session => ((s.step k).step k).step k) hlook
  rw [hsession]
  exact hrecorded.shows.mem_paths

/-- After a scan of a project whose files filelists name, and as long as no event of a filelist is
reported: every path of the index is named by a filelist, whatever the watcher, the files and the
reports of these events do, if and only if a filelist names every source file that is reported to be
there, unless no module can be there. -/
theorem paths_listed_iff {s : Session} (h : s.Idle) (hd : s.disk.WellFormed)
    (hk : s.index.strategy.KeepsPath) {n : Nat} (hscan : s.rescan.1 = .ok n)
    (hmode : s.rescan.2.index.byFilelist = true) {w : Watcher}
    (hw : create s.rescan.2 = .ok w) {events : Set FileEvent}
    (hevents : ∀ e ∈ events, ∀ p ∈ e.paths, w.filter.classify p ≠ .ok (some .filelist)) :
    (∀ actions : List Action, (∀ e, .report e ∈ actions → e ∈ events) →
      ∀ q ∈ (w.performAll actions).session.index.tables.paths, s.Lists q)
    ↔ ∀ e ∈ events, ∀ p, e.present? = some p → w.filter.classify p = .ok (some .source) →
      s.CanFind (s.place p) → s.Lists (s.place p) := by
  obtain ⟨hidle, hset, hconfined⟩ := Session.confined_rescan h hd hk hscan hmode
  obtain ⟨hsession, hnone⟩ : w.session = s.rescan.2 ∧ w.coalescer = {} := by
    rw [create, bind_eq_ok_iff] at hw
    obtain ⟨f, -, hf⟩ := hw
    cases hf
    exact ⟨rfl, rfl⟩
  rw [← hsession] at hidle hset hconfined
  constructor
  · intro hruns e he p hp hsource hfind
    have hplace : w.session.place p = s.place p := by
      rw [Session.place, Session.place, Disk.absolute, Disk.absolute, hconfined.here]
    have hfind' : w.session.CanFind (w.session.place p) := by
      rwa [Session.CanFind, hplace, hconfined.here, hconfined.strategy]
    obtain ⟨log, htells, -⟩ := hconfined.tells
    obtain ⟨actions, hreports, hmem⟩ := exists_recorded hidle htells hnone hp hsource hfind'
    rw [← hplace]
    exact hruns actions (fun e' he' => hreports e' he' ▸ he) _ hmem
  · intro hlisted actions hreports
    have hstart : Confined s w.filter w :=
      ⟨rfl, hconfined, by simp [slot, hnone], by simp [slot, hnone]⟩
    refine (hstart.performAll fun e he => ?_).session.paths
    exact ⟨hevents e (hreports e he), hlisted e (hreports e he)⟩

/-- A project with two files, of which its filelist names one. -/
def oneListed : Session where
  disk := ⟨[("p".toList, .folder [
    ("a.v".toList, .file (Text.Utf8.encode "module a; endmodule")),
    ("b.v".toList, .file (Text.Utf8.encode "module b; endmodule")),
    ("files.f".toList, .file (Text.Utf8.encode "a.v\n"))])], "/p"⟩
  index := { root := "/p" }

theorem wellFormed_oneListed : oneListed.disk.WellFormed := by
  refine ⟨.folder (by decide) (by decide) ?_, rfl⟩
  simp only [oneListed, List.mem_singleton, forall_eq]
  refine .folder (by decide) (by decide) ?_
  simp only [List.mem_cons, List.not_mem_nil, or_false, forall_eq_or_imp, forall_eq]
  exact ⟨.file _, .file _, .file _⟩

theorem lists_oneListed (q : Text) : oneListed.Lists q ↔ q = "/p/a.v" := by
  have hfiles : (Discovery.discover oneListed.disk "/p" {}).toOption.map (·.1) =
      some ⟨["/p/a.v".toList], true⟩ := by decide +kernel
  rcases hfound : Discovery.discover oneListed.disk "/p" {} with e | ⟨found, notices⟩
  · rw [hfound] at hfiles
    cases hfiles
  · rw [hfound] at hfiles
    cases hfiles
    rw [Session.lists_iff hfound, List.mem_singleton]

/-- What happens to the file that is not listed does not matter as long as it is not reported to be
there. -/
theorem paths_listed_moved : ∃ w, create oneListed.rescan.2 = .ok w
    ∧ ∀ actions : List Action, (∀ e, .report e ∈ actions → e = .modified "/p/a.v"
        ∨ e = .deleted "/p/b.v" ∨ e = .moved "/p/b.v" "/p/a.v") →
      ∀ q ∈ (w.performAll actions).session.index.tables.paths, oneListed.Lists q := by
  have hclassify : (create oneListed.rescan.2).toOption.map (fun w =>
      ((w.filter.classify "/p/a.v").toOption, (w.filter.classify "/p/b.v").toOption)) =
      some (some (some .source), some (some .source)) := by decide +kernel
  have hscan : oneListed.rescan.1.toOption = some 1 := by decide +kernel
  have hmode : oneListed.rescan.2.index.byFilelist = true := by decide +kernel
  rcases hw : create oneListed.rescan.2 with e | w <;> rw [hw] at hclassify
  · cases hclassify
  simp only [Except.toOption, Option.map_some, Option.some.injEq, Prod.mk.injEq] at hclassify
  obtain ⟨ha, hb⟩ := hclassify
  rcases hn : oneListed.rescan.1 with e | n
  · rw [hn] at hscan
    cases hscan
  have hevents : ∀ e ∈ {e | e = FileEvent.modified "/p/a.v" ∨ e = .deleted "/p/b.v"
      ∨ e = .moved "/p/b.v" "/p/a.v"}, ∀ p ∈ e.paths,
      w.filter.classify p ≠ .ok (some .filelist) := by
    intro e he p hp hlist
    have hpath : p = "/p/a.v".toList ∨ p = "/p/b.v".toList := by
      rcases he with rfl | rfl | rfl <;>
        simp only [FileEvent.paths, FileEvent.parts, List.map_cons, List.map_nil, List.mem_cons,
          List.not_mem_nil, or_false] at hp
      · exact .inl hp
      · exact .inr hp
      · exact hp.symm
    rcases hpath with rfl | rfl
    · rw [hlist] at ha
      cases ha
    · rw [hlist] at hb
      cases hb
  refine ⟨w, rfl, (paths_listed_iff ⟨rfl, rfl, rfl, rfl⟩ wellFormed_oneListed
    Strategy.keepsPath_scan hn hmode hw hevents).2 fun e he p hp _ _ => ?_⟩
  have hpath : p = "/p/a.v".toList := by
    rcases he with rfl | rfl | rfl <;> cases hp <;> rfl
  rw [hpath, lists_oneListed]
  decide +kernel

/-- The file that is not listed is reported to be changed. Its worker requests an update, which
reads it and records its module. -/
theorem unlisted_recorded : ∃ w, create oneListed.rescan.2 = .ok w
    ∧ oneListed.rescan.2.index.byFilelist = true
    ∧ (w.filter.classify "/p/b.v").toOption = some (some .source)
    ∧ ¬ oneListed.Lists "/p/b.v"
    ∧ "/p/b.v".toList ∈ (w.performAll [.report (.modified "/p/b.v"), .look "/p/b.v",
      .advance 2, .advance 2, .advance 2]).session.index.tables.paths := by
  have hkeys : (create oneListed.rescan.2).toOption.map (fun w =>
      ((w.filter.classify "/p/b.v").toOption,
        (w.performAll [.report (.modified "/p/b.v"), .look "/p/b.v", .advance 2, .advance 2,
          .advance 2]).session.index.tables.files.keys)) =
      some (some (some .source), ["/p/a.v".toList, "/p/b.v".toList]) := by decide +kernel
  rcases hw : create oneListed.rescan.2 with e | w <;> rw [hw] at hkeys
  · cases hkeys
  simp only [Except.toOption, Option.map_some, Option.some.injEq, Prod.mk.injEq] at hkeys
  have hlists : ¬ oneListed.Lists "/p/b.v" := by
    rw [lists_oneListed]
    decide
  refine ⟨w, rfl, by decide +kernel, hkeys.1, hlists, ?_⟩
  rw [Tables.paths, Text.mem_sorted, hkeys.2]
  simp

end Watcher

end VerilogIndex
