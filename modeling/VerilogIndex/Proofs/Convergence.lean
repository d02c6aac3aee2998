import VerilogIndex.Proofs.Watching

/-!
# A watched index follows the disk

What a worker does concerns its own place only (`WorkerStep`). It removes the place from the index,
requests an update of it, or rests once the update is over, and each of these keeps the places in
step with the disk. Main statement: when every report has come in and no worker is left, the index
has what the last change of each place left there (`index_converges`).
-/

namespace VerilogIndex

open Text.Utf8 (Bytes)

namespace Watched

variable {s s' : Watched} {paths : Set Text} {log : List Change}

/-! ## Workers -/

/-- What the worker of a key does, as far as the other places are concerned. -/
structure WorkerStep (s s' : Watched) (k : Text) (log log' : List Change) : Prop where
  disk : s'.watcher.session.disk = s.watcher.session.disk
  strategy : s'.watcher.session.index.strategy = s.watcher.session.index.strategy
  filter : s'.watcher.filter = s.watcher.filter
  due : s'.due = s.due
  last : s'.last = s.last
  tells : s'.watcher.session.Tells log'
  others : ∀ key, key ≠ k → s'.watcher.slot key = s.watcher.slot key
  pending : (s'.watcher.slot k).pending = (s.watcher.slot k).pending
    ∨ (s'.watcher.slot k).pending = none
  work : ∀ work, (s'.watcher.slot k).work = some work → work = .idle
    ∨ ∃ kind ticket, work = .updating kind ticket ∧ s'.watcher.session.Runs ticket k
  /-- The updates of other keys go on, and one of this key is the worker's. -/
  runs : ∀ key, key ≠ k → ∀ ticket, s.watcher.session.Runs ticket key →
    s'.watcher.session.Runs ticket key
  update : ∀ ticket u, s.watcher.session.update? ticket = some u →
    s'.watcher.session.update? ticket = some u
  flight : ∀ u ∈ s'.watcher.session.updates, u.inFlight = true → u ∈ s.watcher.session.updates
    ∨ u.path = k
  own : ∀ u ∈ s'.watcher.session.updates, u.inFlight = true → u.path = k →
    ∃ kind, (s'.watcher.slot k).work = some (.updating kind u.ticket)
  live : ∀ q, q ≠ k → ∀ m, (q, m) ∈ Live.ofChanges log' ↔ (q, m) ∈ Live.ofChanges log

theorem WorkerStep.invariant {k : Text} {log' : List Change} (hstep : s.WorkerStep s' k log log')
    (h : s.Invariant paths log)
    (hk : ∀ left, s.InStep (Live.ofChanges log) k left → s'.InStep (Live.ofChanges log') k left) :
    s'.Invariant paths log' := by
  have hhere := congrArg Disk.here hstep.disk
  refine ⟨⟨h.watches.of_same hhere hstep.strategy hstep.filter, hstep.tells, ?_, ?_, fun key => ?_,
    fun key work hwork => ?_, fun u hu hf => ?_⟩, fun q left hleft => ?_⟩
  · rw [hstep.due]
    exact h.due
  · rw [hstep.last, place_of_same hhere]
    exact h.last
  · by_cases hkey : key = k
    · subst hkey
      rcases hstep.pending with hp | hp
      · rw [hp]
        exact h.pending key
      · rw [hp]
        simp
    · rw [hstep.others key hkey]
      exact h.pending key
  · by_cases hkey : key = k
    · subst hkey
      exact hstep.work work hwork
    · rw [hstep.others key hkey] at hwork
      refine (h.work key work hwork).imp_right ?_
      rintro ⟨kind, t, hup, hruns⟩
      exact ⟨kind, t, hup, hstep.runs key hkey t hruns⟩
  · by_cases hpath : u.path = k
    · rw [hpath]
      exact hstep.own u hu hf hpath
    · rw [hstep.others _ hpath]
      exact h.flight u ((hstep.flight u hu hf).resolve_right hpath) hf
  · rw [hstep.last] at hleft
    have hin := h.inStep q left hleft
    by_cases hq : q = k
    · subst hq
      exact hk left hin
    · refine hin.of_same (fun content hb => ?_) (dueAt_of_same hhere hstep.due q)
        (hstep.others q hq) (fun _ t u _ => hstep.update t u) (hstep.live q hq)
      rw [hstep.disk]
      exact hb

theorem InStep.of_next {L L' : Live} {k : Text} {left : Option Bytes} (h : s.InStep L k left)
    (hdisk : s'.watcher.session.disk = s.watcher.session.disk) (hnext : s'.next k = s.next k)
    (hattends : s.watcher.session.Attends L k left (s.watcher.slot k).work →
      s'.watcher.session.Attends L' k left (s'.watcher.slot k).work) : s'.InStep L' k left := by
  refine ⟨?_, ?_, fun hnone => hattends (h.attends (hnext ▸ hnone))⟩
  · rw [hdisk]
    exact h.bytes
  · rw [hnext]
    exact h.next

/-- A worker that takes the last event of its place has to see to what is left there. -/
theorem InStep.of_taken {L L' : Live} {k : Text} {left : Option Bytes} (h : s.InStep L k left)
    (hdisk : s'.watcher.session.disk = s.watcher.session.disk) (hdue : s'.dueAt k = s.dueAt k)
    {kind : EventKind} (hpending : (s.watcher.slot k).pending = some kind)
    (hpending' : (s'.watcher.slot k).pending = none)
    (hattends : (kind = .deleted ↔ left = none) →
      s'.watcher.session.Attends L' k left (s'.watcher.slot k).work) : s'.InStep L' k left := by
  rcases hlast : (s.dueAt k).getLast? with _ | c
  · have hnext : s.next k = some kind := by rw [Watched.next, hlast, hpending]; rfl
    have hnext' : s'.next k = none := by rw [Watched.next, hdue, hlast, hpending']; rfl
    refine ⟨?_, fun _ hkind => ?_, fun _ => hattends (h.next kind hnext)⟩
    · rw [hdisk]
      exact h.bytes
    · rw [hnext'] at hkind
      cases hkind
  · have hnext : s.next k = some c.kind := by rw [Watched.next, hlast]; rfl
    have hnext' : s'.next k = some c.kind := by rw [Watched.next, hdue, hlast]; rfl
    refine ⟨?_, ?_, fun hnone => ?_⟩
    · rw [hdisk]
      exact h.bytes
    · rw [hnext', ← hnext]
      exact h.next
    · rw [hnext'] at hnone
      cases hnone

/-- While the worker of a key is idle, no update of the key is in flight. -/
theorem Orderly.path_ne_of_idle (h : s.Orderly paths log) {k : Text}
    (hidle : (s.watcher.slot k).work = some .idle) {u : Update}
    (hu : u ∈ s.watcher.session.updates) (hf : u.inFlight = true) : u.path ≠ k := by
  rintro rfl
  obtain ⟨kind, hwork⟩ := h.flight u hu hf
  rw [hidle] at hwork
  cases hwork

/-- What a worker leaves of its watched disk when the changes of it are those of the watcher. -/
structure Around (s s' : Watched) : Prop where
  filter : s'.watcher.filter = s.watcher.filter
  due : s'.due = s.due
  last : s'.last = s.last

/-- A worker that is done with its place rests or retires. -/
theorem invariant_rest (h : s.Invariant paths log) (ha : s.Around s') {k : Text}
    (notices : List Notice) {work : Option Work}
    (hsession : s'.watcher.session = s.watcher.session.say notices)
    (hslot : ∀ key, s'.watcher.slot key =
      if key = k then ⟨(s.watcher.slot k).pending, work⟩ else s.watcher.slot key)
    (hwork : work = none ∨ work = some .idle)
    (hflight : ∀ u ∈ s.watcher.session.updates, u.inFlight = true → u.path ≠ k)
    (hdone : ∀ left, s.watcher.session.Attends (Live.ofChanges log) k left (s.watcher.slot k).work →
      (Live.ofChanges log).Reflects k left) : s'.Invariant paths log := by
  have hdisk : s'.watcher.session.disk = s.watcher.session.disk := by rw [hsession]; rfl
  have hupdates : s'.watcher.session.updates = s.watcher.session.updates := by rw [hsession]; rfl
  have hindex : s'.watcher.session.index = s.watcher.session.index := by rw [hsession]; rfl
  have hk : s'.watcher.slot k = ⟨(s.watcher.slot k).pending, work⟩ := (hslot k).trans (if_pos rfl)
  have hstep : s.WorkerStep s' k log log := {
    ha with
    disk := hdisk
    strategy := by rw [hindex]
    tells := by
      rw [hsession]
      exact ⟨h.tells.booked.of_same rfl rfl le_rfl, h.tells.keeps, h.tells.own, h.tells.shows⟩
    others := fun key hkey => (hslot key).trans (if_neg hkey)
    pending := .inl (by rw [hk])
    work := fun w hw => by
      rw [hk] at hw
      rcases hwork with rfl | rfl
      · cases hw
      · cases hw
        exact .inl rfl
    runs := fun _ _ _ hruns => hruns.of_same hupdates hindex
    update := fun t u hu => by
      rw [Session.update?, hupdates]
      exact hu
    flight := fun u hu _ => .inl (hupdates ▸ hu)
    own := fun u hu hf hpath => absurd hpath (hflight u (hupdates ▸ hu) hf)
    live := fun _ _ _ => Iff.rfl }
  refine hstep.invariant h fun left hin => hin.of_next hdisk ?_ fun hattends => ?_
  · rw [next, next, dueAt_of_same (congrArg Disk.here hdisk) ha.due, hk]
  · rw [hk]
    rcases hwork with rfl | rfl
    · exact hdone left hattends
    · exact hdone left hattends

theorem invariant_remove (h : s.Invariant paths log) (ha : s.Around s') {k : Text}
    (hsession : s'.watcher.session = s.watcher.session.act (.remove k))
    (hold : s.watcher.slot k = ⟨some .deleted, some .idle⟩)
    (hslot : ∀ key, s'.watcher.slot key =
      if key = k then ⟨none, some .idle⟩ else s.watcher.slot key) :
    s'.Invariant paths (log ++ [.removed k]) := by
  have hdisk : s'.watcher.session.disk = s.watcher.session.disk := by rw [hsession]; rfl
  have hupdates : s'.watcher.session.updates = s.watcher.session.updates := by rw [hsession]; rfl
  have hk : s'.watcher.slot k = ⟨none, some .idle⟩ := (hslot k).trans (if_pos rfl)
  have hupdate : ∀ t u, s.watcher.session.update? t = some u →
      s'.watcher.session.update? t = some u := fun t u hu => by
    rw [Session.update?, hupdates]
    exact hu
  have hstep : s.WorkerStep s' k log (log ++ [.removed k]) := {
    ha with
    disk := hdisk
    strategy := by rw [hsession]; rfl
    tells := by
      rw [hsession]
      exact Session.tells_act h.tells (.remove k)
    others := fun key hkey => (hslot key).trans (if_neg hkey)
    pending := .inr (by rw [hk])
    work := fun w hw => by
      rw [hk] at hw
      cases hw
      exact .inl rfl
    runs := fun key hkey t hruns => by
      rw [hsession] at hupdate ⊢
      exact hruns.act h.tells.booked (by simpa [Session.Action.concerns] using Ne.symm hkey) hupdate
    update := hupdate
    flight := fun u hu _ => .inl (hupdates ▸ hu)
    own := fun u hu hf hpath =>
      absurd hpath (h.path_ne_of_idle (by rw [hold]) (hupdates ▸ hu) hf)
    live := fun q hq m => Live.mem_ofChanges_append fun c hc => by
      rw [List.mem_singleton.1 hc]
      simpa [Change.concerns] using Ne.symm hq }
  refine hstep.invariant h fun left hin => hin.of_taken hdisk
    (dueAt_of_same (congrArg Disk.here hdisk) ha.due k) (by rw [hold]) (by rw [hk]) fun hleft => ?_
  rw [hk, hleft.1 rfl]
  intro m hm
  rw [Live.ofChanges_append_removed] at hm
  exact (Live.mem_without.1 hm).2 rfl

theorem invariant_request (h : s.Invariant paths log) (ha : s.Around s') {k : Text}
    {kind : EventKind} (hkind : kind ≠ .deleted)
    (hsession : s'.watcher.session = (s.watcher.session.request k false).2)
    (hold : s.watcher.slot k = ⟨some kind, some .idle⟩)
    (hslot : ∀ key, s'.watcher.slot key = if key = k then
      ⟨none, some (.updating kind (s.watcher.session.request k false).1)⟩ else s.watcher.slot key) :
    s'.Invariant paths log := by
  have hbooked := h.tells.booked
  have hdisk : s'.watcher.session.disk = s.watcher.session.disk := by rw [hsession]; rfl
  have hk := (hslot k).trans (if_pos rfl)
  obtain ⟨hnew, hupdate⟩ := Session.update?_request hbooked k false
  have htells := Session.tells_act h.tells (.request k false)
  have hflight : ∀ u ∈ s'.watcher.session.updates, u ∈ s.watcher.session.updates
      ∨ u = { path := k, ticket := (s.watcher.session.request k false).1, hangs := false } := by
    intro u hu
    rw [hsession] at hu
    exact (List.mem_append.1 hu).imp_right List.mem_singleton.1
  have hstep : s.WorkerStep s' k log log := {
    ha with
    disk := hdisk
    strategy := by rw [hsession]; rfl
    tells := by
      rw [Session.changesOf, List.append_nil] at htells
      rw [hsession]
      exact htells
    others := fun key hkey => (hslot key).trans (if_neg hkey)
    pending := .inr (by rw [hk])
    work := fun w hw => by
      rw [hk] at hw
      cases hw
      refine .inr ⟨kind, _, rfl, ?_⟩
      rw [hsession]
      exact Session.runs_request hbooked k
    runs := fun key hkey t hruns => by
      rw [hsession]
      exact hruns.act hbooked (a := .request k false)
        (by simpa [Session.Action.concerns] using Ne.symm hkey) hupdate
    update := fun t u hu => by
      rw [hsession]
      exact hupdate t u hu
    flight := fun u hu _ => (hflight u hu).imp_right fun he => by rw [he]
    own := fun u hu hf hpath => by
      rcases hflight u hu with hu | rfl
      · exact absurd hpath (h.path_ne_of_idle (by rw [hold]) hu hf)
      · exact ⟨kind, by rw [hk]⟩
    live := fun _ _ _ => Iff.rfl }
  refine hstep.invariant h fun left hin => hin.of_taken hdisk
    (dueAt_of_same (congrArg Disk.here hdisk) ha.due k) (by rw [hold]) (by rw [hk]) fun hleft => ?_
  rcases left with _ | content
  · exact absurd (hleft.2 rfl) hkind
  · rw [hk, hsession]
    exact ⟨content, _, rfl, hnew, trivial⟩

/-- The watcher once a worker has requested an update. -/
def asking (w : Watcher) (k : Text) (kind : EventKind) : Watcher :=
  { w.taken k kind with session := (w.session.request k false).2 }.turnTo k
    (.updating kind (w.session.request k false).1)

theorem slot_asking (w : Watcher) (k : Text) (kind : EventKind) (key : Text) :
    (asking w k kind).slot key = if key = k then
      ⟨none, some (.updating kind (w.session.request k false).1)⟩ else w.slot key := by
  have htaken := Watcher.slot_taken w k kind
  have hpending : ((w.taken k kind).slot k).pending = none := by rw [htaken, if_pos rfl]
  rw [asking, Watcher.slot_turnTo]
  split_ifs with hkey
  · exact congrArg (Watcher.Slot.mk · _) hpending
  · exact (htaken key).trans (if_neg hkey)

/-- An update that is requested goes to its next stage at once. -/
theorem invariant_issue (h : s.Invariant paths log) {k : Text} {kind : EventKind}
    (hkind : kind ≠ .deleted) (hold : s.watcher.slot k = ⟨some kind, some .idle⟩)
    (hlook : s.watcher.look k = { asking s.watcher k kind with
      session := (asking s.watcher k kind).session.step (s.watcher.session.request k false).1 }) :
    ∃ log', (s.act (.look k)).Invariant paths log' := by
  let asked : Watched := { s with watcher := asking s.watcher k kind }
  have hasked : asked.Invariant paths log :=
    invariant_request h ⟨rfl, rfl, rfl⟩ hkind rfl hold (slot_asking s.watcher k kind)
  rw [act, hlook]
  exact ⟨_, invariant_advance hasked (s.watcher.session.request k false).1⟩

theorem invariant_look (h : s.Invariant paths log) (k : Text) :
    ∃ log', (s.act (.look k)).Invariant paths log' := by
  rcases Watcher.look_cases s.watcher k with hlook | ⟨hslot, hlook⟩ | ⟨kind, hslot, hlook⟩
  · refine ⟨log, ?_⟩
    rw [act, hlook]
    exact h
  · rw [act, hlook]
    refine ⟨log, invariant_rest h ⟨rfl, rfl, rfl⟩ [] ?_ (Watcher.slot_retire s.watcher k) (.inl rfl)
      (fun u hu hf => h.path_ne_of_idle (by rw [hslot]) hu hf) fun left hattends => ?_⟩
    · rw [Session.say, List.append_nil]
    · rw [hslot] at hattends
      exact hattends
  · cases kind with
    | deleted =>
      have ha : s.Around { s with watcher := (s.watcher.taken k .deleted).dispatch .deleted k } :=
        ⟨rfl, rfl, rfl⟩
      rw [act, hlook]
      refine ⟨log ++ [.removed k], invariant_remove h ha rfl hslot fun key => ?_⟩
      refine (Watcher.slot_taken s.watcher k .deleted key).trans ?_
      rw [hslot]
    | created => exact invariant_issue h (by simp) hslot hlook
    | changed => exact invariant_issue h (by simp) hslot hlook
    | rescan => exact absurd (by rw [hslot]) (h.pending k)

theorem invariant_finish (h : s.Invariant paths log) (k : Text) :
    (s.act (.finish k)).Invariant paths log := by
  rw [act]
  rcases Watcher.finish_cases s.watcher k with hsame | ⟨work, session, hbusy, hwork, hfinish, hover⟩
  · rw [hsame]
    exact h
  obtain rfl | ⟨kind, ticket, rfl, -⟩ := h.work k work hwork
  · exact absurd rfl hbusy
  -- the update of the worker has ended
  obtain ⟨o, notices, ho, rfl⟩ := hover kind ticket rfl
  obtain ⟨stage, hstage, hout⟩ := Option.bind_eq_some_iff.1 ho
  obtain ⟨u, hu, rfl⟩ := Session.stage?_eq_some hstage
  have hsettled : u.stage = .settled o := by
    rcases hs : u.stage with _ | _ | t | r | o' | o' <;> rw [hs] at hout <;> cases hout
    rfl
  rw [hfinish]
  refine invariant_rest h ⟨rfl, rfl, rfl⟩ notices rfl (Watcher.slot_turnTo _ k .idle) (.inr rfl)
    (fun v hv hf hpath => ?_) fun left hattends => ?_
  · obtain ⟨kind', hwork'⟩ := h.flight v hv hf
    rw [hpath, hwork] at hwork'
    cases hwork'
    rw [h.tells.booked.unique hu hv rfl, Update.inFlight, hsettled] at hf
    cases hf
  · rw [hwork] at hattends
    obtain ⟨content, v, rfl, hv, hcarries⟩ := hattends
    rw [hu] at hv
    cases hv
    rw [hsettled] at hcarries
    exact hcarries

/-! ## Convergence -/

theorem invariant_act (h : s.Invariant paths log) {a : Action}
    (ha : ∀ c, a = .change c → c.path ∈ paths) : ∃ log', (s.act a).Invariant paths log' := by
  cases a with
  | change c => exact ⟨log, invariant_change h (ha c rfl)⟩
  | deliver q => exact ⟨log, invariant_deliver h q⟩
  | look k => exact invariant_look h k
  | finish k => exact ⟨log, invariant_finish h k⟩
  | advance ticket => exact ⟨_, invariant_advance h ticket⟩

theorem invariant_run : ∀ (actions : List Action) {s : Watched} {log : List Change},
    s.Invariant paths log → (∀ c, .change c ∈ actions → c.path ∈ paths) →
    ∃ log', (s.run actions).Invariant paths log'
  | [], s, log, h, _ => ⟨log, h⟩
  | a :: actions, s, log, h, ha => by
    obtain ⟨log', h'⟩ := invariant_act h fun c hc => ha c (hc ▸ List.mem_cons_self)
    exact invariant_run actions h' fun c hc => ha c (List.mem_cons_of_mem _ hc)

/-- What happens to the watcher is a run of its own steps. -/
theorem exists_steps_act (s : Watched) (a : Action) :
    ∃ steps, (s.act a).watcher = s.watcher.play steps := by
  cases a with
  | change c =>
    rw [act]
    split_ifs
    · exact ⟨[.session (s.watcher.session.act c.action)], rfl⟩
    · exact ⟨[], rfl⟩
  | deliver q =>
    rw [act]
    split
    · exact ⟨[], rfl⟩
    rename_i c _
    rcases hposts : s.watcher.filter.posts c.event with e | posts
    · refine ⟨[], ?_⟩
      simp only [Watcher.notify, hposts, bind, Except.bind]
      rfl
    · refine ⟨posts.map fun p => .submit p.1 p.2, ?_⟩
      rw [Watcher.play, List.foldl_map]
      simp [Watcher.notify, hposts, bind, Except.bind, pure, Except.pure, Watcher.act]
  | look key => exact ⟨[.look key], rfl⟩
  | finish key => exact ⟨[.finish key], rfl⟩
  | advance ticket => exact ⟨[.session (s.watcher.session.step ticket)], rfl⟩

theorem exists_steps_run : ∀ (actions : List Action) (s : Watched),
    ∃ steps, (s.run actions).watcher = s.watcher.play steps
  | [], s => ⟨[], rfl⟩
  | a :: actions, s => by
    obtain ⟨steps, hsteps⟩ := exists_steps_act s a
    obtain ⟨more, hmore⟩ := exists_steps_run actions (s.act a)
    refine ⟨steps ++ more, ?_⟩
    rw [Watcher.play, List.foldl_append]
    exact hmore.trans (by rw [hsteps]; rfl)

/-- Where nothing was changed yet, all is in order. -/
theorem invariant_start {w : Watcher} (hidle : w.session.Idle)
    (hshows : w.session.index.tables.Shows (Live.ofChanges log)) (hcoalescer : w.coalescer = {})
    (hwatches : w.Watches paths) : Watched.Invariant { watcher := w } paths log := by
  have hslots : ∀ key, w.slot key = ⟨none, none⟩ := fun key => by rw [Watcher.slot, hcoalescer]; rfl
  have hkeeps : w.session.index.strategy.KeepsPath := hwatches.scan ▸ Strategy.keepsPath_scan
  refine ⟨⟨hwatches, ⟨hidle.booked, hkeeps, by simp [hidle.updates], hshows⟩, by simp, by simp,
    fun key => ?_, fun key work hwork => ?_, by simp [hidle.updates]⟩, by simp⟩
  · rw [hslots]
    simp
  · rw [hslots] at hwork
    cases hwork

/-- When every report has come in and no worker is left, the index has what was left at a place. -/
theorem Invariant.reflects (h : s.Invariant paths log) (hdue : s.due = []) {q : Text}
    (hslot : s.watcher.slot q = ⟨none, none⟩) {left : Option Bytes}
    (hleft : s.last.get? q = some left) : (Live.ofChanges log).Reflects q left := by
  have hnext : s.next q = none := by
    rw [next, dueAt, hdue, hslot]
    rfl
  have hattends := (h.inStep q left hleft).attends hnext
  rw [hslot] at hattends
  exact hattends

/-- A watcher whose index shows some readings and has nothing under way, while files of source
paths are written and deleted: whenever every report has come in and no worker is left, for each
place that was changed, if the last change deleted the file, nothing in the index comes from the
place; if it wrote a text with a module, this is the module that the index has from the place, and
the place is among the definitions of its name. -/
theorem index_converges {w : Watcher} {log : List Change} {paths : Set Text}
    (hidle : w.session.Idle) (hshows : w.session.index.tables.Shows (Live.ofChanges log))
    (hcoalescer : w.coalescer = {}) (hwatches : w.Watches paths) (actions : List Action)
    (hactions : ∀ c, .change c ∈ actions → c.path ∈ paths) :
    let s := Watched.run { watcher := w } actions
    let tables := s.watcher.session.index.tables
    s.due = [] → s.watcher.coalescer.workers = [] → ∀ q left, s.last.get? q = some left →
      (left = none → tables.parsed.get? q = none ∧ (∀ n, q ∉ tables.definitions n)
        ∧ ∀ n m, tables.module? n = some m → m.file ≠ q)
      ∧ ∀ content m, left = some content → Source.readModule (Disk.textOf content) q = some m →
        m.file = q ∧ tables.parsed.get? q = some m ∧ q ∈ tables.definitions m.name := by
  intro s tables hdue hworkers q left hleft
  have hstart := invariant_start hidle hshows hcoalescer hwatches
  obtain ⟨log', hinv⟩ := invariant_run actions hstart hactions
  obtain ⟨steps, hsteps⟩ := exists_steps_run actions { watcher := w }
  have hslot : s.watcher.slot q = ⟨none, none⟩ := by
    have hpending := Watcher.pending_eq_none hcoalescer (hsteps ▸ hworkers) q
    rw [← hsteps] at hpending
    rw [Watcher.slot, hpending, hworkers]
    rfl
  have hreflects := hinv.reflects hdue hslot hleft
  refine ⟨?_, ?_⟩
  · rintro rfl
    exact hinv.tells.shows.of_reflects_none hreflects
  · rintro content m rfl hm
    exact hinv.tells.shows.of_reflects_some hreflects hm

/-- A file is written again while the worker is at its first content, and another one is deleted
before any report of it comes in. -/
theorem index_converges_overtaken :
    let w : Watcher := {
      session := { disk := ⟨[], "/"⟩, index := { root := "/" } }
      filter := ⟨{}, []⟩ }
    let paths : Set Text := {"/a.v".toList, "/b.v".toList}
    let first := Text.Utf8.encode "module m; endmodule"
    let second := Text.Utf8.encode "module n; endmodule"
    let actions := [Action.change (.written "/a.v" first true), .deliver "/a.v", .look "/a.v",
      .advance 1, .change (.written "/b.v" first true), .change (.deleted "/b.v"),
      .change (.written "/a.v" second false), .advance 1, .deliver "/a.v", .advance 1, .advance 1,
      .deliver "/b.v", .look "/b.v", .advance 2, .deliver "/b.v", .finish "/a.v", .look "/a.v",
      .advance 2, .advance 2, .advance 2, .finish "/b.v", .look "/b.v", .look "/b.v", .advance 3,
      .advance 3, .advance 3, .advance 3, .finish "/a.v", .look "/a.v"]
    let s := Watched.run { watcher := w } actions
    w.session.Idle ∧ w.Watches paths ∧ s.due = [] ∧ s.watcher.coalescer.workers = []
      ∧ "/a.v".toList ∈ s.watcher.session.index.tables.definitions "n"
      ∧ s.watcher.session.index.tables.parsed.get? "/b.v" = none := by
  intro w paths first second actions s
  have hidle : w.session.Idle := ⟨rfl, rfl, rfl, rfl⟩
  have hwatches : w.Watches paths := by
    refine ⟨rfl, rfl, ?_, ?_⟩
    · rintro p (rfl | rfl) <;> rfl
    · rintro p (rfl | rfl) q (rfl | rfl) h
      · rfl
      · exact absurd h (by decide +kernel)
      · exact absurd h (by decide +kernel)
      · rfl
  have hshows : w.session.index.tables.Shows (Live.ofChanges []) := Tables.shows_empty _
  have hactions : ∀ c, .change c ∈ actions → c.path ∈ paths := by
    intro c hc
    simp only [actions, List.mem_cons, List.not_mem_nil, or_false, reduceCtorEq, false_or,
      Action.change.injEq] at hc
    rcases hc with rfl | rfl | rfl | rfl
    · exact .inl rfl
    · exact .inr rfl
    · exact .inr rfl
    · exact .inl rfl
  have hdue : s.due = [] := by decide +kernel
  have hworkers : s.watcher.coalescer.workers = [] := by decide +kernel
  have hwritten : s.last.get? "/a.v" = some (some second) := by decide +kernel
  have hdeleted : s.last.get? "/b.v" = some none := by decide +kernel
  obtain ⟨m, hm, hname⟩ : ∃ m, Source.readModule (Disk.textOf second) "/a.v" = some m
      ∧ m.name = "n" := Option.map_eq_some_iff.1 (by decide +kernel)
  have hconverges := index_converges hidle hshows rfl hwatches actions hactions
  rw [show Watched.run { watcher := w } actions = s from rfl] at hconverges
  -- from here on the run itself is not needed
  clear_value s
  have hplaces := hconverges hdue hworkers
  refine ⟨hidle, hwatches, hdue, hworkers, ?_, ((hplaces _ _ hdeleted).1 rfl).1⟩
  rw [← hname]
  exact ((hplaces _ _ hwritten).2 second m rfl hm).2.2

end Watched

end VerilogIndex
