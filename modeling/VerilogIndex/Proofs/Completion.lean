import VerilogIndex.Proofs.Interleaving
import VerilogIndex.Proofs.Live

/-!
# Requests that run to their end

A request that runs alone on an idle session leaves an idle session behind, and what it does to the
tables is told by the disk and the reader alone (`Setting.changes`): a text or a file is read, a
path is removed, or everything is forgotten and the source files are read one after the other.

While at most one update of each path is under way (`Session.Solo`), every ticket is the newest of
its path and every lock is free, so no update is stale and one round ends all of them
(`round_of_ready`). Main statement: `perform_of_idle`.
-/

namespace VerilogIndex

/-- The tables after a change. -/
def Tables.after (t : Tables) : Change → Tables
  | .read path m => (t.apply path m).1
  | .removed path => (t.remove path).2.1
  | .cleared => t.clear

/-- What a reading of a path comes to if nothing has come in between. -/
def Reading.changes (path : Text) : Reading → List Change
  | .found m => [.read path m]
  | .late => []
  | .failed _ => []
  | .noModule => []

/-- What an index reads, and how. -/
structure Setting where
  disk : Disk
  root : Text
  config : Config
  strategy : Strategy

namespace Setting

/-- What comes of a text as the content of a path. -/
def textChanges (w : Setting) (path t : Text) : List Change :=
  match w.strategy.readModule t path with
  | .ok (some m) => [.read path m]
  | _ => []

/-- What comes of the file at a path. -/
def fileChanges (w : Setting) (path : Text) (hangs : Bool) : List Change :=
  match w.disk.text path with
  | .ok t => if hangs then [] else w.textChanges path t
  | .error _ => []

/-- What comes of a request that runs to its end. -/
def changes (w : Setting) : Request → List Change
  | .rescan =>
    match Discovery.discover w.disk w.root w.config with
    | .ok (found, _) => .cleared :: found.files.flatMap fun f => w.fileChanges f false
    | .error _ => [.cleared]
  | .updateFile path hangs => w.fileChanges (w.disk.absolute path) hangs
  | .updateText path t => w.textChanges (w.disk.absolute path) t
  | .remove path => [.removed (w.disk.absolute path)]
  | .write _ _ => []
  | .delete _ => []

/-- What a request makes of the disk. -/
def after (w : Setting) : Request → Setting
  | .write path content => { w with disk := w.disk.putFile (w.disk.absolute path) content }
  | .delete path => { w with disk := w.disk.erase (w.disk.absolute path) }
  | .rescan => w
  | .updateFile _ _ => w
  | .updateText _ _ => w
  | .remove _ => w

end Setting

theorem Reading.changes_ofResult (w : Setting) (path t : Text) :
    (Reading.ofResult (w.strategy.readModule t path)).changes path = w.textChanges path t := by
  rw [Setting.textChanges]
  rcases w.strategy.readModule t path with e | _ | m <;> rfl

/-- The update after the first half of its round. -/
def Update.loaded (d : Disk) (u : Update) : Update :=
  { u with stage :=
    match d.text u.path with
    | .ok t => .loaded t
    | .error _ => .settled .unreadable }

namespace Requests

variable {r : Requests} {path : Text}

/-- With its only request all that is kept for a path goes. -/
theorem leave_of_one (h : (r.pending.get? path).getD 0 ≤ 1) : r.leave path =
    { r with
      tickets := r.tickets.erase path
      pending := r.pending.erase path
      lines := r.lines.erase path } := by
  have h0 : (r.pending.get? path).getD 0 - 1 = 0 := by omega
  simp only [leave, h0]

end Requests

namespace Session

def setting (s : Session) : Setting := ⟨s.disk, s.index.root, s.index.config, s.index.strategy⟩

/-! ## One update for each path -/

/-- At most one update of a path is under way, and it holds the ticket and the lock of the path. -/
structure Solo (s : Session) : Prop where
  booked : s.Booked
  paths : (s.updates.map (·.path)).Nodup
  held : ∀ u ∈ s.updates, u.inFlight = true →
    s.index.requests.tickets.get? u.path = some u.ticket
      ∧ s.index.requests.lines.get? u.path = some [u.ticket]
  free : ∀ p, s.flying p = 0 →
    s.index.requests.tickets.get? p = none ∧ s.index.requests.lines.get? p = none

theorem Idle.solo {s : Session} (h : s.Idle) : s.Solo where
  booked := h.booked
  paths := by simp [h.updates]
  held u hu := by simp [h.updates] at hu
  free p _ := by simp [h.tickets, h.lines]

theorem update?_of_mem {s : Session} (h : s.Booked) {u : Update} (hu : u ∈ s.updates) :
    s.update? u.ticket = some u := by
  rcases hf : s.update? u.ticket with _ | v
  · simpa using List.find?_eq_none.1 hf u hu
  · rw [h.unique hf hu rfl]

theorem updates_moveTo {s : Session} (h : s.Booked) {before rest : List Update} {u : Update}
    (hu : s.updates = before ++ u :: rest) (stage : Stage) :
    (s.moveTo u.ticket stage).updates = before ++ { u with stage } :: rest := by
  have hn := h.tickets_nodup
  have hid : ∀ l : List Update, u.ticket ∉ l.map (·.ticket) →
      (l.map fun v => if v.ticket = u.ticket then { v with stage } else v) = l := by
    intro l hl
    refine (List.map_congr_left fun v hv => ?_).trans (List.map_id l)
    have hne : v.ticket ≠ u.ticket := fun he => hl (he ▸ List.mem_map_of_mem hv)
    rw [if_neg hne, id]
  rw [hu, List.map_append, List.map_cons, List.nodup_middle, List.nodup_cons, List.mem_append,
    not_or] at hn
  rw [moveTo, hu, List.map_append, List.map_cons, if_pos rfl, hid _ hn.1.1, hid _ hn.1.2]

section Solo

variable {s : Session} {u : Update}

/-- Only the updates and the requests matter. -/
theorem Solo.of_same (h : s.Solo) {s' : Session} (hu : s'.updates = s.updates)
    (hr : s'.index.requests = s.index.requests) : s'.Solo where
  booked := h.booked.of_same hu (by rw [hr]) (by rw [hr])
  paths := hu ▸ h.paths
  held u hmem hf := by
    rw [hr]
    exact h.held u (hu ▸ hmem) hf
  free p hp := by
    rw [hr]
    exact h.free p (by rwa [flying, hu] at hp)

theorem Solo.withTables (h : s.Solo) (tables : Tables) (log : List Notice) :
    { s with index := { s.index with tables }, log }.Solo :=
  h.of_same rfl rfl

theorem Solo.isNewest (h : s.Solo) (hu : u ∈ s.updates) (hf : u.inFlight = true) :
    s.index.requests.isNewest u.path u.ticket = true := by
  simp [Requests.isNewest, (h.held u hu hf).1]

theorem Solo.isFirst (h : s.Solo) (hu : u ∈ s.updates) (hf : u.inFlight = true) :
    s.index.requests.isFirst u.path u.ticket = true := by
  simp [Requests.isFirst, (h.held u hu hf).2]

theorem paths_moveTo (s : Session) (ticket : Nat) (stage : Stage) :
    (s.moveTo ticket stage).updates.map (·.path) = s.updates.map (·.path) := by
  simp only [moveTo, List.map_map]
  refine List.map_congr_left fun u _ => ?_
  simp only [Function.comp]
  split_ifs <;> rfl

theorem Solo.moveTo (h : s.Solo) (hu : u ∈ s.updates) (hf : u.inFlight = true) {stage : Stage}
    (hs : stage.outcome? = none) : (s.moveTo u.ticket stage).Solo := by
  have hfly : ∀ v ∈ s.updates, v.ticket = u.ticket → v.inFlight = true := fun v hv ht => by
    rw [h.booked.unique (update?_of_mem h.booked hu) hv ht]
    exact hf
  refine ⟨booked_moveTo h.booked _ stage hs hfly, ?_, fun v hv hvf => ?_, fun p hp => ?_⟩
  · rw [paths_moveTo]
    exact h.paths
  · obtain ⟨w, hw, rfl⟩ := mem_moveTo hv
    split_ifs at hvf ⊢ with ht
    · exact h.held w hw (hfly w hw ht)
    · exact h.held w hw hvf
  · rw [flying_moveTo hs hfly] at hp
    exact h.free p hp

/-- The only update of a path in flight. -/
theorem Solo.flying_eq_one (h : s.Solo) (hu : u ∈ s.updates) (hf : u.inFlight = true) :
    s.flying u.path = 1 := by
  have hpos := flying_pos hu hf
  have hcount : s.flying u.path ≤ (s.updates.map (·.path)).count u.path := by
    rw [flying, List.count, List.countP_map]
    refine List.countP_mono_left fun v _ hv => ?_
    exact (Bool.and_eq_true_iff.1 hv).1
  have := List.nodup_iff_count_le_one.1 h.paths u.path
  omega

theorem Solo.settle (h : s.Solo) (hu : u ∈ s.updates) (hf : u.inFlight = true) (o : Outcome) :
    (s.settle u o).Solo := by
  have hr : (s.settle u o).index.requests = _ :=
    Requests.leave_of_one (h.booked.getD_pending u.path ▸ (h.flying_eq_one hu hf).le)
  refine ⟨booked_settle h.booked hu hf, ?_, fun v hv hvf => ?_, fun p hp => ?_⟩
  · rw [Session.settle, paths_moveTo]
    exact h.paths
  · obtain ⟨w, hw, rfl⟩ := mem_moveTo hv
    split_ifs at hvf ⊢ with ht
    · simp [Update.inFlight, Stage.outcome?] at hvf
    have hne : w.path ≠ u.path := fun he => ht (by rw [List.inj_on_of_nodup_map h.paths hw hu he])
    rw [hr]
    simpa [hne] using h.held w hw hvf
  · rw [hr]
    have hfly := flying_settle h.booked (o := o) hu hf p
    by_cases hpu : p = u.path
    · simp [hpu]
    · simpa [hpu] using h.free p (by rw [hp, if_neg hpu] at hfly; omega)

theorem Solo.request (h : s.Solo) {path : Text} (hp : path ∉ s.updates.map (·.path))
    (hangs : Bool) : (s.request path hangs).2.Solo := by
  have h0 : s.flying path = 0 := List.countP_eq_zero.2 fun u hu => by
    have hne : u.path ≠ path := fun he => hp (he ▸ List.mem_map_of_mem hu)
    simp [hne]
  refine ⟨booked_act h.booked (.request path hangs), ?_, fun u hu hf => ?_, fun p hp' => ?_⟩
  · rw [Session.request, List.map_append]
    refine List.nodup_append.2 ⟨h.paths, by simp, fun a ha b hb => ?_⟩
    rw [show b = path from List.mem_singleton.1 hb]
    exact fun he => hp (he ▸ ha)
  · rcases List.mem_append.1 hu with hu | hu
    · have hne : u.path ≠ path := fun he => hp (he ▸ List.mem_map_of_mem hu)
      simpa [Session.request, Requests.enter, Requests.supersede, hne] using h.held u hu hf
    · rw [List.mem_singleton.1 hu]
      simp [Session.request, Requests.enter, Requests.supersede, (h.free path h0).2]
  · rw [flying_request] at hp'
    have hne : p ≠ path := fun he => by simp [he] at hp'
    simpa [Session.request, Requests.enter, Requests.supersede, hne] using
      h.free p (Nat.eq_zero_of_add_eq_zero_right hp')

end Solo

/-! ## Turns -/

section Turns

variable {s : Session} {u : Update}

theorem moveTo_moveTo (s : Session) (ticket : Nat) (a b : Stage) :
    (s.moveTo ticket a).moveTo ticket b = s.moveTo ticket b := by
  simp only [moveTo, List.map_map]
  congr 1
  refine List.map_congr_left fun v _ => ?_
  simp only [Function.comp]
  split_ifs <;> rfl

theorem settle_moveTo (s : Session) (u : Update) (a : Stage) (o : Outcome) :
    (s.moveTo u.ticket a).settle { u with stage := a } o = s.settle u o :=
  moveTo_moveTo { s with index := { s.index with requests := s.index.requests.leave u.path } } _ a _

theorem settleLeaving_moveTo (h : s.update? u.ticket = some u) (o : Outcome) :
    (s.moveTo u.ticket (.leaving o)).settleLeaving u.ticket = s.settle u o := by
  have hu := update?_moveTo h (.leaving o)
  simp only [settleLeaving, stage?, hu, Option.map_some, step]
  exact settle_moveTo s u _ o

/-- A file that can be read waits for its module to be recorded; any other one ends the update. -/
theorem readTurn_of_ready (h : s.update? u.ticket = some u) (hs : u.stage = .ready) :
    (∃ t, s.disk.text u.path = .ok t ∧ s.readTurn u.ticket = s.moveTo u.ticket (.loaded t))
      ∨ ∃ f, s.disk.text u.path = .error f
        ∧ s.readTurn u.ticket = (s.say [.cannotRead u.path f]).settle u .unreadable := by
  rcases hd : s.disk.text u.path with f | t
  · refine .inr ⟨f, rfl, ?_⟩
    have h' : (s.say [.cannotRead u.path f]).update? u.ticket = some u := h
    simp only [readTurn, stage?, h, Option.map_some, hs, step, load, hd]
    exact settleLeaving_moveTo h' _
  · refine .inl ⟨t, rfl, ?_⟩
    have hu := update?_moveTo h (.loaded t)
    simp only [readTurn, stage?, h, Option.map_some, hs, step, load, hd, settleLeaving, hu]

/-- The newest request of a path records what was read. -/
theorem conclude_of_newest {r : Reading} (hn : s.index.requests.isNewest u.path u.ticket = true) :
    ∃ o log, s.conclude u r = { s with
      index := { s.index with tables := (r.changes u.path).foldl Tables.after s.index.tables }
      log }.moveTo u.ticket (.leaving o) := by
  cases r with
  | late => exact ⟨.timedOut, s.log ++ [.timedOut u.path s.index.config.parseTimeout], rfl⟩
  | failed e => exact ⟨.failed e, s.log, rfl⟩
  | noModule => exact ⟨.noModule, s.log, by simp only [conclude, hn, if_true]; rfl⟩
  | found m => exact ⟨.indexed m, _, by simp only [conclude, hn, if_true]; rfl⟩

theorem conclude_moveTo (s : Session) (u : Update) (a : Stage) (r : Reading) :
    (s.moveTo u.ticket a).conclude { u with stage := a } r = s.conclude u r := by
  cases r with
  | late => exact moveTo_moveTo (s.say _) _ a _
  | failed e => exact moveTo_moveTo s _ a _
  | noModule => exact moveTo_moveTo s _ a _
  | found m =>
    by_cases hn : s.index.requests.isNewest u.path u.ticket = true
    · simp only [conclude, moveTo_index, hn, if_true]
      exact moveTo_moveTo (s.become (s.index.record u.path m)) _ a _
    · simp only [conclude, moveTo_index, hn]
      exact moveTo_moveTo s _ a _

theorem recordTurn_of_loaded (h : s.update? u.ticket = some u) {t : Text} (hs : u.stage = .loaded t)
    (hn : s.index.requests.isNewest u.path u.ticket = true) :
    ∃ o log, s.recordTurn u.ticket = { s with
      index := { s.index with
        tables := (if u.hangs then [] else s.setting.textChanges u.path t).foldl Tables.after
          s.index.tables }
      log }.settle u o := by
  let r := if u.hangs then .late else Reading.ofResult (s.index.strategy.readModule t u.path)
  obtain ⟨o, log, hc⟩ := conclude_of_newest (r := r) hn
  have hr : r.changes u.path = if u.hangs then [] else s.setting.textChanges u.path t := by
    simp only [r]
    split_ifs
    · rfl
    · exact Reading.changes_ofResult s.setting u.path t
  have hparse : s.step u.ticket = s.moveTo u.ticket (.parsed r) := by
    simp only [step, h, hs, parse, r]
  have hconclude : (s.moveTo u.ticket (.parsed r)).step u.ticket = s.conclude u r := by
    simp only [step, update?_moveTo h (.parsed r)]
    exact conclude_moveTo s u _ r
  refine ⟨o, log, ?_⟩
  simp only [recordTurn, stage?, h, Option.map_some, hs]
  rw [hparse, hconclude, hc, ← hr]
  exact settleLeaving_moveTo (s := { s with index := _, log := log }) h o

end Turns

/-! ## Rounds -/

section Rounds

theorem foldl_readTurn : ∀ (todo before : List Update) {s : Session}, s.Solo →
    s.updates = before ++ todo → (∀ u ∈ todo, u.stage = .ready) →
    ((todo.map (·.ticket)).foldl readTurn s).Solo
      ∧ ((todo.map (·.ticket)).foldl readTurn s).setting = s.setting
      ∧ ((todo.map (·.ticket)).foldl readTurn s).index.tables = s.index.tables
      ∧ ((todo.map (·.ticket)).foldl readTurn s).updates = before ++ todo.map (Update.loaded s.disk)
  | [], before, s, h, hu, _ => ⟨h, rfl, rfl, hu⟩
  | u :: todo, before, s, h, hu, hr => by
    have hmem : u ∈ s.updates := by simp [hu]
    have hs : u.stage = .ready := hr u List.mem_cons_self
    have hf : u.inFlight = true := by rw [Update.inFlight, hs]; rfl
    have hstep : (s.readTurn u.ticket).Solo ∧ (s.readTurn u.ticket).setting = s.setting
        ∧ (s.readTurn u.ticket).index.tables = s.index.tables
        ∧ (s.readTurn u.ticket).updates = (before ++ [u.loaded s.disk]) ++ todo := by
      rw [List.append_assoc, List.singleton_append]
      rcases readTurn_of_ready (update?_of_mem h.booked hmem) hs with ⟨t, hd, he⟩ | ⟨f, hd, he⟩
      · rw [he]
        refine ⟨h.moveTo hmem hf rfl, rfl, rfl, ?_⟩
        rw [updates_moveTo h.booked hu, Update.loaded, hd]
      · have h' : (s.say [.cannotRead u.path f]).Solo := h.of_same rfl rfl
        rw [he]
        refine ⟨h'.settle hmem hf _, rfl, rfl, ?_⟩
        rw [Update.loaded, hd]
        exact updates_moveTo h.booked hu _
    have ih := foldl_readTurn todo _ hstep.1 hstep.2.2.2 fun v hv =>
      hr v (List.mem_cons_of_mem _ hv)
    have hdisk : (s.readTurn u.ticket).disk = s.disk := congrArg Setting.disk hstep.2.1
    rw [List.map_cons, List.foldl_cons]
    refine ⟨ih.1, ih.2.1.trans hstep.2.1, ih.2.2.1.trans hstep.2.2.1, ?_⟩
    rw [ih.2.2.2, hdisk, List.append_assoc, List.singleton_append, List.map_cons]

theorem foldl_recordTurn : ∀ (todo before : List Update) {s : Session}, s.Solo →
    s.updates = before ++ todo.map (Update.loaded s.disk) → (∀ u ∈ before, u.inFlight = false) →
    ((todo.map (·.ticket)).foldl recordTurn s).Solo
      ∧ ((todo.map (·.ticket)).foldl recordTurn s).setting = s.setting
      ∧ ((todo.map (·.ticket)).foldl recordTurn s).index.tables =
        (todo.flatMap fun u => s.setting.fileChanges u.path u.hangs).foldl Tables.after
          s.index.tables
      ∧ ((todo.map (·.ticket)).foldl recordTurn s).tickets = s.tickets
      ∧ ∀ u ∈ ((todo.map (·.ticket)).foldl recordTurn s).updates, u.inFlight = false
  | [], before, s, h, hu, hb => by
    rw [List.map_nil, List.append_nil] at hu
    exact ⟨h, rfl, rfl, rfl, hu ▸ hb⟩
  | u :: todo, before, s, h, hu, hb => by
    rw [List.map_cons] at hu
    have hmem : u.loaded s.disk ∈ s.updates := by simp [hu]
    have hfind : s.update? u.ticket = some (u.loaded s.disk) := update?_of_mem h.booked hmem
    have hstep : ∃ v : Update, v.inFlight = false
        ∧ (s.recordTurn u.ticket).Solo ∧ (s.recordTurn u.ticket).setting = s.setting
        ∧ (s.recordTurn u.ticket).index.tables =
          (s.setting.fileChanges u.path u.hangs).foldl Tables.after s.index.tables
        ∧ (s.recordTurn u.ticket).tickets = s.tickets
        ∧ (s.recordTurn u.ticket).updates = (before ++ [v]) ++ todo.map (Update.loaded s.disk) := by
      rcases hd : s.disk.text u.path with f | t
      · have hs : (u.loaded s.disk).stage = .settled .unreadable := by simp only [Update.loaded, hd]
        have he : s.recordTurn u.ticket = s := by
          simp only [recordTurn, stage?, hfind, Option.map_some, hs]
        have hc : s.setting.fileChanges u.path u.hangs = [] := by
          simp only [Setting.fileChanges, setting, hd]
        rw [he, hc]
        exact ⟨u.loaded s.disk, by rw [Update.inFlight, hs]; rfl, h, rfl, rfl, rfl, by simp [hu]⟩
      · have hs : (u.loaded s.disk).stage = .loaded t := by simp only [Update.loaded, hd]
        have hf : (u.loaded s.disk).inFlight = true := by rw [Update.inFlight, hs]; rfl
        have hc : s.setting.fileChanges u.path u.hangs =
            if u.hangs then [] else s.setting.textChanges u.path t := by
          simp only [Setting.fileChanges, setting, hd]
        obtain ⟨o, log, he⟩ := recordTurn_of_loaded hfind hs (h.isNewest hmem hf)
        rw [show s.recordTurn u.ticket = _ from he, hc]
        refine ⟨{ u with stage := .settled o }, rfl, (h.withTables _ log).settle hmem hf o, rfl,
          rfl, tickets_moveTo _ _ _, ?_⟩
        rw [List.append_assoc, List.singleton_append]
        exact updates_moveTo h.booked hu _
    obtain ⟨v, hv, h1, h2, h3, h4, h5⟩ := hstep
    have hdisk : (s.recordTurn u.ticket).disk = s.disk := congrArg Setting.disk h2
    have hb' : ∀ w ∈ before ++ [v], w.inFlight = false := by
      intro w hw
      rcases List.mem_append.1 hw with hw | hw
      · exact hb w hw
      · rwa [List.mem_singleton.1 hw]
    have ih := foldl_recordTurn todo _ h1 (hdisk ▸ h5) hb'
    rw [List.map_cons, List.foldl_cons, List.flatMap_cons, List.foldl_append, ← h3, ← h2]
    exact ⟨ih.1, ih.2.1.trans rfl, ih.2.2.1, ih.2.2.2.1.trans h4, ih.2.2.2.2⟩

/-- One round ends all updates if there is one for each path, and records their modules one after
the other. -/
theorem round_of_ready {s : Session} (h : s.Solo) (hr : ∀ u ∈ s.updates, u.stage = .ready) :
    s.round.Solo ∧ s.round.setting = s.setting
      ∧ s.round.index.tables =
        (s.updates.flatMap fun u => s.setting.fileChanges u.path u.hangs).foldl Tables.after
          s.index.tables
      ∧ s.round.tickets = s.tickets ∧ ∀ u ∈ s.round.updates, u.inFlight = false := by
  obtain ⟨h1, h2, h3, h4⟩ := foldl_readTurn s.updates [] h rfl hr
  rw [List.nil_append] at h4
  rw [round]
  generalize hs : (s.updates.map (·.ticket)).foldl readTurn s = s' at h1 h2 h3 h4
  have hdisk : s'.disk = s.disk := congrArg Setting.disk h2
  have ht : s'.tickets = s.updates.map (·.ticket) := by
    rw [tickets, h4, List.map_map]
    rfl
  obtain ⟨k1, k2, k3, k4, k5⟩ := foldl_recordTurn s.updates [] h1 (by rw [h4, hdisk]; rfl) (by simp)
  simp only [tickets] at ht k4 ⊢
  rw [hs, ht]
  exact ⟨k1, k2.trans h2, by rw [k3, h2, h3], k4.trans ht, k5⟩

end Rounds

/-! ## Requests -/

section Perform

variable {s : Session}

/-- The first request for a path holds its lock at once. -/
theorem issue_of_solo (h : s.Solo) (path : Text) (hp : path ∉ s.updates.map (·.path))
    (hangs : Bool) : (s.issue path hangs).2.Solo ∧ (s.issue path hangs).2.setting = s.setting
      ∧ (s.issue path hangs).2.index.tables = s.index.tables
      ∧ (s.issue path hangs).2.updates =
        s.updates ++ [⟨path, (s.issue path hangs).1, hangs, .ready⟩] := by
  have h' := h.request hp hangs
  let u : Update := { path, ticket := s.index.requests.nextTicket, hangs }
  have hu : (s.request path hangs).2.updates = s.updates ++ u :: [] := rfl
  have hmem : u ∈ (s.request path hangs).2.updates := by simp [hu]
  have he : (s.issue path hangs).2 = (s.request path hangs).2.moveTo u.ticket .ready := by
    have hfind := update?_of_mem h'.booked hmem
    simp only [issue, step, show (s.request path hangs).1 = u.ticket from rfl, hfind, acquire,
      show u.stage = .waiting from rfl, h'.isFirst hmem rfl, h'.isNewest hmem rfl, if_true]
  rw [he]
  exact ⟨h'.moveTo hmem rfl rfl, rfl, rfl, updates_moveTo h'.booked hu _⟩

theorem issueScan_of_solo : ∀ (files : List Text) {s : Session}, s.Solo → files.Nodup →
    (∀ f ∈ files, f ∉ s.updates.map (·.path)) →
    (s.issueScan files).2.Solo ∧ (s.issueScan files).2.setting = s.setting
      ∧ (s.issueScan files).2.index.tables = s.index.tables
      ∧ (s.issueScan files).2.updates =
        s.updates ++ (s.issueScan files).1.map (fun p => ⟨p.1, p.2, false, .ready⟩)
      ∧ (s.issueScan files).1.map (·.1) = files
  | [], s, h, _, _ => ⟨h, rfl, rfl, by simp [issueScan], rfl⟩
  | f :: files, s, h, hn, hf => by
    obtain ⟨h1, h2, h3, h4⟩ := issue_of_solo h f (hf f List.mem_cons_self) false
    have hn' := List.nodup_cons.1 hn
    have hfresh : ∀ g ∈ files, g ∉ (s.issue f false).2.updates.map (·.path) := by
      intro g hg
      rw [h4, List.map_append, List.mem_append, not_or]
      refine ⟨hf g (List.mem_cons_of_mem _ hg), ?_⟩
      rw [List.map_singleton, List.mem_singleton]
      rintro rfl
      exact hn'.1 hg
    obtain ⟨k1, k2, k3, k4, k5⟩ := issueScan_of_solo files h1 hn'.2 hfresh
    refine ⟨k1, k2.trans h2, k3.trans h3, ?_, congrArg (f :: ·) k5⟩
    rw [issueScan, k4, h4, List.append_assoc, List.singleton_append, List.map_cons]

theorem round_of_settled (h : ∀ u ∈ s.updates, u.inFlight = false) : s.round = s := by
  have hstage : ∀ t stage, s.stage? t = some stage → stage.outcome?.isNone = false := by
    intro t stage ht
    obtain ⟨u, hu, rfl⟩ := stage?_eq_some ht
    exact h u (update?_mem hu).1
  have hread : ∀ t, s.readTurn t = s := by
    intro t
    rw [readTurn]
    split
    · rename_i ht
      exact absurd (hstage t _ ht) (by simp [Stage.outcome?])
    · rfl
  have hrecord : ∀ t, s.recordTurn t = s := by
    intro t
    rw [recordTurn]
    split
    · rename_i ht
      exact absurd (hstage t _ ht) (by simp [Stage.outcome?])
    · rename_i ht
      exact absurd (hstage t _ ht) (by simp [Stage.outcome?])
    · rfl
  have hfold : ∀ (f : Session → Nat → Session) (ts : List Nat), (∀ t, f s t = s) →
      ts.foldl f s = s := by
    intro f ts hf
    induction ts with
    | nil => rfl
    | cons t ts ih => rw [List.foldl_cons, hf, ih]
  rw [round, hfold _ _ hread, hfold _ _ hrecord]

/-- Ending a task says something at most. -/
theorem finish_frame (s : Session) (task : Task) : ∃ log, (s.finish task).2 = { s with log } := by
  rcases task with r | ticket | scan
  · exact ⟨s.log, rfl⟩
  · refine ⟨s.log, ?_⟩
    rw [finish]
    split <;> rfl
  · rw [finish]
    split_ifs
    · exact ⟨_, rfl⟩
    · exact ⟨s.log, rfl⟩

/-- If a round ends all updates and the task can end then, that is all. -/
theorem finishAll_of_over {s' : Session} (hr : ∀ u ∈ s.round.updates, u.inFlight = false)
    {task : Task} {r : Reply} (hf : s.round.finish task = (.over r, s')) :
    s.finishAll [task] = ([.over r], s') := by
  have hthrough : through finish [task] s.round = ([.over r], s') := by simp only [through, hf]
  have hr' : ∀ u ∈ s'.updates, u.inFlight = false := by
    obtain ⟨log, hlog⟩ := finish_frame s.round task
    rw [hf] at hlog
    rw [show s' = { s.round with log } from hlog]
    exact hr
  have hzero : s'.unsettled = 0 := List.countP_eq_zero.2 fun u hu => Bool.eq_false_iff.1 (hr' u hu)
  have hagain : finishAll s' [.over r] = ([.over r], s') := by
    rw [finishAll, round_of_settled hr']
    simp only [through, finish, hzero, lt_irrefl, if_false]
  rw [finishAll, hthrough]
  simp only
  split_ifs
  · exact hagain
  · rfl

/-- If a round ends all updates, the task ends with it, and only something is said afterwards. -/
theorem finishAll_of_round (hr : ∀ u ∈ s.round.updates, u.inFlight = false) (task : Task)
    (ht : ∀ log, ∃ r, ({ s.round with log }.finish task).1 = .over r) :
    ∃ r log, s.finishAll [task] = ([.over r], { s.round with log }) := by
  obtain ⟨r, hover⟩ := ht s.round.log
  obtain ⟨log, hlog⟩ := finish_frame s.round task
  exact ⟨r, log, finishAll_of_over hr (Prod.ext hover hlog)⟩

/-- Updates that are all ready for a round run to their end, and so does the task they belong to. -/
theorem finishAll_of_ready {s : Session} (h : s.Solo) (hr : ∀ u ∈ s.updates, u.stage = .ready)
    (task : Task) (ht : ∀ s' : Session, (∀ t ∈ s.tickets, (s'.outcome? t).isSome = true) →
      ∃ r, (s'.finish task).1 = .over r) :
    let after := s.finishAll [task]
    (after.1.head?.bind Task.reply?).isSome = true ∧ after.2.tidy.Idle
      ∧ after.2.tidy.setting = s.setting
      ∧ after.2.tidy.index.tables =
        (s.updates.flatMap fun u => s.setting.fileChanges u.path u.hangs).foldl Tables.after
          s.index.tables := by
  obtain ⟨h1, h2, h3, h4, h5⟩ := round_of_ready h hr
  have hout : ∀ t ∈ s.tickets, (s.round.outcome? t).isSome = true := by
    intro t ht
    rw [← h4] at ht
    obtain ⟨u, hu, rfl⟩ := List.mem_map.1 ht
    have hs := h5 u hu
    rw [Update.inFlight, Option.isNone_eq_false_iff] at hs
    rw [outcome?, stage?, update?_of_mem h1.booked hu]
    exact hs
  obtain ⟨r, log, he⟩ := finishAll_of_round h5 task fun log => ht { s.round with log } hout
  have h1' : ({ s.round with log } : Session).Solo := h1.of_same rfl rfl
  rw [he]
  exact ⟨rfl, h1'.booked.idle_tidy h5 h1'.free, h2, h3⟩

/-- Only the updates and the requests matter. -/
theorem Idle.of_same {s s' : Session} (h : s.Idle) (hu : s'.updates = s.updates)
    (hr : s'.index.requests = s.index.requests) : s'.Idle :=
  ⟨hu.trans h.updates, hr ▸ h.tickets, hr ▸ h.pending, hr ▸ h.lines⟩

/-- Where nothing is under way nothing becomes stale. -/
theorem Idle.outdate {s : Session} (h : s.Idle) (path : Text) :
    s.index.requests.outdate path = s.index.requests := by
  simp [Requests.outdate, h.pending, Table.contains]

theorem Idle.outdateAll {s : Session} (h : s.Idle) :
    s.index.requests.outdateAll = s.index.requests := by
  simp [Requests.outdateAll, h.pending, Table.keys]

theorem setting_beginScan (s : Session) : s.beginScan.2.setting = s.setting := by
  rcases hd : Discovery.discover s.disk s.index.root s.index.config with e | ⟨found, notices⟩ <;>
    simp [beginScan, discover, Index.discover, Index.clear, hd, bind, Except.bind, pure,
      Except.pure, become, say, setting]

/-- The files of a scan are those that are discovered. -/
theorem beginScan_fst (s : Session) : s.beginScan.1 =
    (Discovery.discover s.disk s.index.root s.index.config).map (·.1.files) := by
  rcases hd : Discovery.discover s.disk s.index.root s.index.config with e | ⟨found, notices⟩ <;>
    simp [beginScan, discover, Index.discover, Index.clear, hd, bind, Except.bind, pure,
      Except.pure, Except.map]

/-- What is said of a request that runs alone: it is answered, nothing is under way afterwards, and
the disk and the reader tell what it does to the disk and to the tables. -/
def Performs (s : Session) (r : Request) : Prop :=
  (s.perform r).1.isSome = true ∧ (s.perform r).2.Idle ∧ (s.perform r).2.setting = s.setting.after r
    ∧ (s.perform r).2.index.tables = (s.setting.changes r).foldl Tables.after s.index.tables

theorem performs_updateFile {s : Session} (h : s.Idle) (path : Text) (hangs : Bool) :
    s.Performs (.updateFile path hangs) := by
  obtain ⟨h1, h2, h3, h4⟩ := issue_of_solo h.solo (s.place path) (by simp [h.updates]) hangs
  rw [h.updates, List.nil_append] at h4
  have hready : ∀ u ∈ (s.issue (s.place path) hangs).2.updates, u.stage = .ready := by simp [h4]
  have hf := finishAll_of_ready h1 hready (.updating (s.issue (s.place path) hangs).1)
    fun s' hs' => by
      obtain ⟨o, ho⟩ := Option.isSome_iff_exists.1
        (hs' (s.issue (s.place path) hangs).1 (by simp [tickets, h4]))
      exact ⟨_, by rw [finish, ho]⟩
  rw [h2, h3, h4, List.flatMap_singleton] at hf
  exact hf

theorem performs_updateText {s : Session} (h : s.Idle) (path t : Text) :
    s.Performs (.updateText path t) := by
  have hr : (s.index.updateText (s.place path) t).2.1.requests = s.index.requests :=
    (requests_updateText _ _ _).trans (h.outdate _)
  have hw : s.setting.strategy.readModule t (s.setting.disk.absolute path) =
    s.index.strategy.readModule t (s.place path) := rfl
  refine ⟨rfl, h.of_same rfl hr, ?_, ?_⟩
  · simp only [perform, start, updateText, Index.updateText, become, say]
    split <;> rfl
  · rcases hm : s.index.strategy.readModule t (s.place path) with e | _ | m <;>
      simp only [perform, start, updateText, Index.updateText, become, say, hm, Setting.changes,
        Setting.textChanges, hw] <;> rfl

theorem performs_rescan {s : Session} (h : s.Idle)
    (hn : ∀ found notices, Discovery.discover s.disk s.index.root s.index.config =
      .ok (found, notices) → found.files.Nodup) : s.Performs .rescan := by
  obtain ⟨hu, -, hr, ht, -⟩ := beginScan_frame s
  have hidle : s.beginScan.2.Idle := h.of_same hu (hr.trans h.outdateAll)
  have hset := setting_beginScan s
  have hfst := beginScan_fst s
  rcases hd : Discovery.discover s.disk s.index.root s.index.config with
    e | ⟨⟨files, byList⟩, notices⟩
  · have hp : s.perform .rescan = (some (.noDiscovery e), s.beginScan.2) := by
      rw [hd] at hfst
      rw [perform, start, show s.beginScan = (.error e, s.beginScan.2) from Prod.ext hfst rfl]
    rw [Performs, hp]
    refine ⟨rfl, hidle, hset, ?_⟩
    simp only [Setting.changes, setting, hd]
    exact ht
  rw [hd] at hfst
  have hnodup : files.Nodup := hn _ _ hd
  have hb : s.beginScan = (.ok files, s.beginScan.2) := Prod.ext hfst rfl
  have hc : s.setting.changes .rescan =
      .cleared :: files.flatMap fun f => s.setting.fileChanges f false := by
    simp only [Setting.changes, setting, hd]
  rcases files with _ | ⟨f, files⟩
  · have hp : s.perform .rescan = (some (.count 0), s.beginScan.2) := by
      rw [perform, start, hb]
    rw [Performs, hp, hc]
    exact ⟨rfl, hidle, hset, ht⟩
  · obtain ⟨h1, h2, h3, h4, h5⟩ := issueScan_of_solo (f :: files) hidle.solo hnodup
      (by simp [hidle.updates])
    have hp : s.perform .rescan =
        let asked := s.beginScan.2.issueScan (f :: files)
        let after := asked.2.finishAll [.scanning asked.1]
        (after.1.head?.bind Task.reply?, after.2.tidy) := by
      rw [perform, start, hb]
    generalize s.beginScan.2.issueScan (f :: files) = asked at h1 h2 h3 h4 h5 hp
    rw [hidle.updates, List.nil_append] at h4
    have hready : ∀ u ∈ asked.2.updates, u.stage = .ready := by
      rw [h4]
      exact List.forall_mem_map.2 fun _ _ => rfl
    have hf := finishAll_of_ready h1 hready (.scanning asked.1) fun s' hs' => by
      have hover : s'.isOver asked.1 = true := List.all_eq_true.2 fun p hp => hs' p.2 (by
        simp only [tickets, h4, List.map_map]
        exact List.mem_map_of_mem hp)
      exact ⟨_, by rw [finish, if_pos hover]⟩
    rw [h2, hset, h3, ht, h4, List.flatMap_map] at hf
    rw [Performs, hp, hc, ← h5, List.flatMap_map]
    exact hf

/-- On an idle session every request runs to its end, provided that no file is discovered twice. -/
theorem perform_of_idle {s : Session} (h : s.Idle) (r : Request)
    (hn : ∀ found notices, Discovery.discover s.disk s.index.root s.index.config =
      .ok (found, notices) → found.files.Nodup) : s.Performs r := by
  cases r with
  | rescan => exact performs_rescan h hn
  | updateFile path hangs => exact performs_updateFile h path hangs
  | updateText path t => exact performs_updateText h path t
  | remove path =>
    have hr : (s.index.remove (s.place path)).2.1.requests = s.index.requests := h.outdate _
    exact ⟨rfl, h.of_same rfl hr, rfl, rfl⟩
  | write path content => exact ⟨rfl, h.of_same rfl rfl, rfl, rfl⟩
  | delete path => exact ⟨rfl, h.of_same rfl rfl, rfl, rfl⟩

end Perform

end Session

end VerilogIndex
