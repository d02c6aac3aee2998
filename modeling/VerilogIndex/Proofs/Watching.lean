import VerilogIndex.Proofs.Coalescing
import VerilogIndex.Proofs.Refresh

/-!
# Files that change under a watcher

Files are written and deleted while a watcher is at work. Each change is reported, and the reports
of a place come in in the order of its changes; apart from that, changes, reports, workers and
updates take their turns in any order (`Watched.act`).

Of a place that was changed the following stays true (`Watched.InStep`). If there is a report of it
that no worker has taken, the last one tells whether the file is there. If there is none, the index
has what the last change left, or the worker is at an update that carries it. Here this is shown for
the steps of updates, for changes and for reports.
-/

namespace VerilogIndex

open Text.Utf8 (Bytes)

/-! ## Changes of files -/

inductive FileChange where
  /-- The file is reported to be new, or to have another content. -/
  | written (path : Text) (content : Bytes) (isNew : Bool)
  | deleted (path : Text)
  deriving DecidableEq, Repr

namespace FileChange

def path : FileChange → Text
  | .written p _ _ => p
  | .deleted p => p

/-- What is at the path afterwards. -/
def content? : FileChange → Option Bytes
  | .written _ content _ => some content
  | .deleted _ => none

def event : FileChange → FileEvent
  | .written p _ true => .created p
  | .written p _ false => .modified p
  | .deleted p => .deleted p

def kind : FileChange → EventKind
  | .written _ _ true => .created
  | .written _ _ false => .changed
  | .deleted _ => .deleted

def action : FileChange → Session.Action
  | .written p content _ => .write p content
  | .deleted p => .delete p

/-- A file is written where one can be, and deleted where one is. -/
def isPossible (d : Disk) : FileChange → Bool
  | .written p _ _ => d.canWrite (d.absolute p)
  | .deleted p => d.isFile (d.absolute p)

variable (c : FileChange)

theorem parts_event : c.event.parts = [(c.kind, c.path)] := by
  rcases c with ⟨p, content, _ | _⟩ | p <;> rfl

theorem kind_ne_rescan : c.kind ≠ .rescan := by
  rcases c with ⟨p, content, _ | _⟩ | p <;> simp [kind]

theorem kind_eq_deleted_iff : c.kind = .deleted ↔ c.content? = none := by
  rcases c with ⟨p, content, _ | _⟩ | p <;> simp [kind, content?]

end FileChange

/-! ## Runs -/

/-- A watcher and what happens on its disk. -/
structure Watched where
  watcher : Watcher
  /-- The changes whose reports have not come in, oldest first. -/
  due : List FileChange := []
  /-- What the last change of a place left there. -/
  last : Table (Option Bytes) := []

namespace Watched

/-- Something that happens at once. -/
inductive Action where
  | change (c : FileChange)
  /-- The first report of a place that is due comes in. -/
  | deliver (q : Text)
  /-- The worker of a key looks for its next event. -/
  | look (key : Text)
  /-- The worker of a key notices that its update is over. -/
  | finish (key : Text)
  /-- An update goes to its next stage. -/
  | advance (ticket : Nat)

def place (s : Watched) (p : Text) : Text := s.watcher.session.place p

/-- The change is one of the place. -/
def isAt (s : Watched) (q : Text) (c : FileChange) : Bool := s.place c.path == q

/-- A file is changed, and the report of it is on its way. -/
def changed (s : Watched) (c : FileChange) : Watched where
  watcher := { s.watcher with session := s.watcher.session.act c.action }
  due := s.due ++ [c]
  last := s.last.put (s.place c.path) c.content?

def act (s : Watched) : Action → Watched
  | .change c => if c.isPossible s.watcher.session.disk then s.changed c else s
  | .deliver q =>
    match s.due.find? (s.isAt q) with
    | none => s
    | some c =>
      match s.watcher.notify c.event with
      | .ok watcher => { s with watcher, due := s.due.eraseP (s.isAt q) }
      | .error _ => s
  | .look key => { s with watcher := s.watcher.look key }
  | .finish key => { s with watcher := s.watcher.finish key }
  | .advance ticket =>
    { s with watcher := { s.watcher with session := s.watcher.session.step ticket } }

def run (s : Watched) (actions : List Action) : Watched := actions.foldl act s

end Watched

/-! ## What stays true -/

/-- The watched paths are seen from an absolute folder, all of them are those of source files, and
those that lead to one file are one place. -/
structure Watcher.Watches (w : Watcher) (paths : Set Text) : Prop where
  here : Path.isAbsolute w.session.disk.here = true
  scan : w.session.index.strategy = .scan
  source : ∀ p ∈ paths, w.filter.classify p = .ok (some .source)
  apart : ∀ p ∈ paths, ∀ q ∈ paths,
    Path.components (w.session.place p) = Path.components (w.session.place q) →
      w.session.place p = w.session.place q

theorem Watcher.Watches.of_same {w w' : Watcher} {paths : Set Text} (h : w.Watches paths)
    (hhere : w'.session.disk.here = w.session.disk.here)
    (hscan : w'.session.index.strategy = w.session.index.strategy)
    (hfilter : w'.filter = w.filter) :
    w'.Watches paths where
  here := hhere ▸ h.here
  scan := hscan ▸ h.scan
  source := hfilter ▸ h.source
  apart := by
    have hplace : w'.session.place = w.session.place := by
      funext p
      simp only [Session.place, Disk.absolute, hhere]
    rw [hplace]
    exact h.apart

namespace Watched

variable {s s' : Watched} {paths : Set Text} {log : List Change}

/-- The workers are idle or at updates that nothing makes stale, and no update is without one. -/
structure Orderly (s : Watched) (paths : Set Text) (log : List Change) : Prop where
  watches : s.watcher.Watches paths
  tells : s.watcher.session.Tells log
  due : ∀ c ∈ s.due, c.path ∈ paths
  last : ∀ q left, s.last.get? q = some left → ∃ p ∈ paths, s.place p = q
  pending : ∀ key, (s.watcher.slot key).pending ≠ some .rescan
  work : ∀ key work, (s.watcher.slot key).work = some work → work = .idle
    ∨ ∃ kind ticket, work = .updating kind ticket ∧ s.watcher.session.Runs ticket key
  flight : ∀ u ∈ s.watcher.session.updates, u.inFlight = true →
    ∃ kind, (s.watcher.slot u.path).work = some (.updating kind u.ticket)

/-- The changes of a place whose reports are due. -/
def dueAt (s : Watched) (q : Text) : List FileChange := s.due.filter (s.isAt q)

/-- The last event of a place that no worker has taken. -/
def next (s : Watched) (q : Text) : Option EventKind :=
  ((s.dueAt q).getLast?.map (·.kind)).or (s.watcher.slot q).pending

/-- The disk has what the last change of a place left there, and the index has it, unless there is
an event from which a worker will learn of it. -/
structure InStep (s : Watched) (L : Live) (q : Text) (left : Option Bytes) : Prop where
  bytes : ∀ content, left = some content → s.watcher.session.disk.bytes q = .ok content
  next : ∀ kind, s.next q = some kind → (kind = .deleted ↔ left = none)
  attends : s.next q = none → s.watcher.session.Attends L q left (s.watcher.slot q).work

structure Invariant (s : Watched) (paths : Set Text) (log : List Change) : Prop
    extends s.Orderly paths log where
  inStep : ∀ q left, s.last.get? q = some left → s.InStep (Live.ofChanges log) q left

theorem place_of_same (hhere : s'.watcher.session.disk.here = s.watcher.session.disk.here) :
    s'.place = s.place := by
  funext p
  simp only [place, Session.place, Disk.absolute, hhere]

theorem dueAt_of_same (hhere : s'.watcher.session.disk.here = s.watcher.session.disk.here)
    (hdue : s'.due = s.due) (q : Text) : s'.dueAt q = s.dueAt q := by
  have hat : s'.isAt q = s.isAt q := by
    funext c
    simp only [isAt, place_of_same hhere]
  rw [dueAt, dueAt, hdue, hat]

/-- A place of which nothing is touched stays in step. -/
theorem InStep.of_same {L L' : Live} {q : Text} {left : Option Bytes} (h : s.InStep L q left)
    (hbytes : ∀ content, s.watcher.session.disk.bytes q = .ok content →
      s'.watcher.session.disk.bytes q = .ok content)
    (hdue : s'.dueAt q = s.dueAt q) (hslot : s'.watcher.slot q = s.watcher.slot q)
    (hu : ∀ kind ticket u, (s.watcher.slot q).work = some (.updating kind ticket) →
      s.watcher.session.update? ticket = some u → s'.watcher.session.update? ticket = some u)
    (hL : ∀ m, (q, m) ∈ L' ↔ (q, m) ∈ L) : s'.InStep L' q left := by
  have hnext : s'.next q = s.next q := by rw [Watched.next, Watched.next, hdue, hslot]
  refine ⟨fun content hleft => hbytes content (h.bytes content hleft), ?_, fun hnone => ?_⟩
  · rw [hnext]
    exact h.next
  · rw [hslot]
    exact (h.attends (hnext ▸ hnone)).of_same hu hL

/-! ### Updates -/

/-- A change of the tables by an update is one of the place whose worker is at the update. -/
theorem Orderly.work_of_concerns (h : s.Orderly paths log) {ticket : Nat} {q : Text} {c : Change}
    (hc : c ∈ s.watcher.session.changesOf (.advance ticket)) (hq : c.concerns q = true) :
    ∃ kind, (s.watcher.slot q).work = some (.updating kind ticket) := by
  obtain ⟨u, m, hu, hs, rfl⟩ := Session.exists_of_mem_changesOf_advance hc
  obtain ⟨hmem, rfl⟩ := Session.update?_mem hu
  obtain rfl : u.path = q := by simpa [Change.concerns] using hq
  exact h.flight u hmem (by rw [Update.inFlight, hs]; rfl)

theorem invariant_advance (h : s.Invariant paths log) (ticket : Nat) :
    (s.act (.advance ticket)).Invariant paths
      (log ++ s.watcher.session.changesOf (.advance ticket)) := by
  have hdisk := Session.disk_step s.watcher.session ticket
  have hhere : (s.act (.advance ticket)).watcher.session.disk.here =
      s.watcher.session.disk.here := congrArg Disk.here hdisk
  have hscan := Session.strategy_act s.watcher.session (.advance ticket)
  have hbooked := h.tells.booked
  refine ⟨⟨h.watches.of_same hhere hscan rfl, Session.tells_act h.tells (.advance ticket), h.due,
    ?_, h.pending, fun key work hwork => ?_, fun v hv hf => ?_⟩, fun q left hleft => ?_⟩
  · rw [place_of_same hhere]
    exact h.last
  · refine (h.work key work hwork).imp_right ?_
    rintro ⟨kind, t, hup, hruns⟩
    exact ⟨kind, t, hup, hruns.step hbooked ticket⟩
  · obtain ⟨u, hu, hfu, hpath, hticket⟩ := Session.inFlight_of_step hbooked hv hf
    rw [← hpath, ← hticket]
    exact h.flight u hu hfu
  · have hin := h.inStep q left hleft
    have hbytes : ∀ content, s.watcher.session.disk.bytes q = .ok content →
        (s.act (.advance ticket)).watcher.session.disk.bytes q = .ok content := fun content hb =>
      (congrArg (·.bytes q) hdisk).trans hb
    by_cases hwork : ∃ kind, (s.watcher.slot q).work = some (.updating kind ticket)
    · -- the update of the place itself
      obtain ⟨kind, hwork⟩ := hwork
      have hnext : (s.act (.advance ticket)).next q = s.next q := by
        rw [next, next, dueAt_of_same hhere rfl]
        rfl
      refine ⟨fun content hc => hbytes content (hin.bytes content hc), ?_, fun hnone => ?_⟩
      · rw [hnext]
        exact hin.next
      · have hattends := hin.attends (hnext ▸ hnone)
        obtain hidle | ⟨kind', t, heq, hruns⟩ := h.work q _ hwork
        · cases hidle
        cases heq
        rw [hwork] at hattends
        obtain ⟨content, u, rfl, hu, hcarries⟩ := hattends
        obtain ⟨v, hv, hcarries'⟩ := Session.carries_step h.watches.scan hruns
          (hin.bytes content rfl) hu hcarries
        show Session.Attends _ _ q _ (s.watcher.slot q).work
        rw [hwork]
        exact ⟨content, v, rfl, hv, hcarries'⟩
    · refine hin.of_same hbytes (dueAt_of_same hhere rfl q) rfl (fun kind t u hw hu => ?_)
        fun m => ?_
      · have hne : t ≠ ticket := fun he => hwork ⟨kind, by rw [hw, he]⟩
        obtain ⟨stage, hstage, hsame⟩ := Session.update?_step hu ticket
        rw [hsame hne] at hstage
        exact hstage
      · refine Live.mem_ofChanges_append fun c hc => Bool.eq_false_iff.2 fun hq => hwork ?_
        exact h.work_of_concerns hc hq

/-! ### Changes of files -/

/-- A change leaves its content at its place, and the other places as they are. -/
theorem bytes_change (hw : s.watcher.Watches paths) {c : FileChange}
    (hc : c.isPossible s.watcher.session.disk = true) :
    (∀ content, c.content? = some content →
      (s.watcher.session.act c.action).disk.bytes (s.place c.path) = .ok content)
    ∧ ∀ p ∈ paths, c.path ∈ paths → s.place p ≠ s.place c.path → ∀ content,
      s.watcher.session.disk.bytes (s.place p) = .ok content →
        (s.watcher.session.act c.action).disk.bytes (s.place p) = .ok content := by
  have hne : ∀ p ∈ paths, c.path ∈ paths → s.place p ≠ s.place c.path →
      Path.components (s.place p) ≠ Path.components (s.place c.path) :=
    fun p hp hcp hne he => hne (hw.apart p hp c.path hcp he)
  cases c with
  | written p b isNew =>
    refine ⟨?_, fun q hq hp hqp content hb => ?_⟩
    · rintro content ⟨⟩
      exact Disk.bytes_putFile hw.here hc
    · exact Disk.bytes_putFile_of_ne hw.here hc (hne q hq hp hqp) hb
  | deleted p =>
    exact ⟨nofun, fun q hq hp hqp content hb =>
      Disk.bytes_erase_of_ne hw.here hc (hne q hq hp hqp) hb⟩

theorem act_action_frame (s : Session) (c : FileChange) : (s.act c.action).index = s.index
    ∧ (s.act c.action).updates = s.updates ∧ (s.act c.action).disk.here = s.disk.here
    ∧ s.changesOf c.action = [] := by
  cases c <;> exact ⟨rfl, rfl, rfl, rfl⟩

theorem dueAt_changed (s : Watched) (c : FileChange) (q : Text) :
    (s.changed c).dueAt q = if s.place c.path = q then s.dueAt q ++ [c] else s.dueAt q := by
  have hhere := (act_action_frame s.watcher.session c).2.2.1
  have hat : (s.changed c).isAt q = s.isAt q := by
    funext d
    simp only [isAt, (place_of_same hhere : (s.changed c).place = s.place)]
  have hdue : (s.changed c).due = s.due ++ [c] := rfl
  rw [dueAt, dueAt, hat, hdue, List.filter_append]
  by_cases hq : s.place c.path = q
  · rw [if_pos hq, List.filter_cons_of_pos (by simp [isAt, hq]), List.filter_nil]
  · rw [if_neg hq, List.filter_cons_of_neg (by simp [isAt, hq]), List.filter_nil, List.append_nil]

theorem orderly_changed (h : s.Orderly paths log) {c : FileChange} (hc : c.path ∈ paths) :
    (s.changed c).Orderly paths log := by
  obtain ⟨hindex, hupdates, hhere, hchanges⟩ := act_action_frame s.watcher.session c
  have htells := Session.tells_act h.tells c.action
  rw [hchanges, List.append_nil] at htells
  refine ⟨h.watches.of_same hhere (congrArg Index.strategy hindex) rfl, htells, fun d hd => ?_,
    fun q left hleft => ?_, h.pending, fun key work hwork => ?_, fun u hu => ?_⟩
  · rcases List.mem_append.1 hd with hd | hd
    · exact h.due d hd
    · rw [List.mem_singleton.1 hd]
      exact hc
  · rw [(place_of_same hhere : (s.changed c).place = s.place)]
    rw [changed, Table.get?_put] at hleft
    split_ifs at hleft with hq
    · exact ⟨c.path, hc, hq.symm⟩
    · exact h.last q left hleft
  · refine (h.work key work hwork).imp_right ?_
    rintro ⟨kind, t, hup, hruns⟩
    exact ⟨kind, t, hup, hruns.of_same hupdates hindex⟩
  · exact h.flight u (hupdates ▸ hu)

theorem invariant_change (h : s.Invariant paths log) {c : FileChange} (hc : c.path ∈ paths) :
    (s.act (.change c)).Invariant paths log := by
  rw [act]
  split_ifs with hpossible
  swap
  · exact h
  obtain ⟨-, hupdates, -, -⟩ := act_action_frame s.watcher.session c
  obtain ⟨hown, hothers⟩ := bytes_change h.watches hpossible
  refine ⟨orderly_changed h.toOrderly hc, fun q left hleft => ?_⟩
  rw [changed, Table.get?_put] at hleft
  split_ifs at hleft with hq
  · cases hleft
    have hnext : (s.changed c).next q = some c.kind := by
      rw [next, dueAt_changed, if_pos hq.symm, List.getLast?_concat]
      rfl
    refine ⟨fun content hcontent => ?_, fun kind hkind => ?_, fun hnone => ?_⟩
    · rw [hq]
      exact hown content hcontent
    · rw [hnext] at hkind
      cases hkind
      exact c.kind_eq_deleted_iff
    · rw [hnext] at hnone
      cases hnone
  · obtain ⟨p, hp, rfl⟩ := h.last q left hleft
    refine (h.inStep _ left hleft).of_same (hothers p hp hc hq)
      (by rw [dueAt_changed, if_neg (Ne.symm hq)]) rfl (fun _ t u _ hu => ?_) fun _ => Iff.rfl
    exact (congrArg (List.find? _) hupdates).trans hu

/-! ### Reports -/

theorem notify_of_source {w : Watcher} {c : FileChange}
    (hc : w.filter.classify c.path = .ok (some .source)) :
    w.notify c.event = .ok (w.submit c.kind c.path) := by
  simp [Watcher.notify, EventFilter.posts, EventFilter.post, c.parts_event, hc, bind, Except.bind,
    pure, Except.pure]

/-- A report of a place comes in. -/
def delivered (s : Watched) (q : Text) (c : FileChange) : Watched :=
  { s with watcher := s.watcher.submit c.kind c.path, due := s.due.eraseP (s.isAt q) }

theorem dueAt_delivered {q : Text} {c : FileChange} (hfind : s.due.find? (s.isAt q) = some c) :
    s.dueAt q = c :: (s.delivered q c).dueAt q
      ∧ ∀ k, k ≠ q → (s.delivered q c).dueAt k = s.dueAt k := by
  obtain ⟨hat, before, after, hdue, hbefore⟩ := List.find?_eq_some_iff_append.1 hfind
  have hnone : ∀ d ∈ before, ¬ s.isAt q d = true := fun d hd => by simpa using hbefore d hd
  have herase : s.due.eraseP (s.isAt q) = before ++ after := by
    rw [hdue, List.eraseP_append_right _ hnone, List.eraseP_cons_of_pos hat]
  have hdelivered : ∀ k, (s.delivered q c).dueAt k =
      before.filter (s.isAt k) ++ after.filter (s.isAt k) := by
    intro k
    rw [← List.filter_append, ← herase]
    rfl
  refine ⟨?_, fun k hk => ?_⟩
  · rw [hdelivered, dueAt, hdue, List.filter_append, List.filter_eq_nil_iff.2 hnone,
      List.filter_cons_of_pos hat]
    rfl
  · have hck : ¬ s.isAt k c = true := fun h => hk (by
      rw [isAt, beq_iff_eq] at h hat
      rw [← h, hat])
    rw [hdelivered, dueAt, hdue, List.filter_append, List.filter_cons_of_neg hck]

theorem invariant_delivered (h : s.Invariant paths log) {q : Text} {c : FileChange}
    (hfind : s.due.find? (s.isAt q) = some c) : (s.delivered q c).Invariant paths log := by
  have hat : s.place c.path = q := by simpa [isAt] using List.find?_some hfind
  have hslot : ∀ key, (s.delivered q c).watcher.slot key = if key = q then
      ⟨some c.kind, some ((s.watcher.slot key).work.getD .idle)⟩ else s.watcher.slot key := by
    intro key
    have hkey : s.watcher.keyOf c.kind c.path = q := by
      rw [Watcher.keyOf, if_neg c.kind_ne_rescan]
      exact hat
    rw [← hkey]
    exact Watcher.slot_submit s.watcher c.kind c.path key
  obtain ⟨hsame, hothers⟩ := dueAt_delivered hfind
  refine ⟨⟨h.watches.of_same rfl rfl rfl, h.tells, fun d hd => ?_, h.last, fun key => ?_,
    fun key work hwork => ?_, fun u hu hf => ?_⟩, fun k left hleft => ?_⟩
  · exact h.due d (List.mem_of_mem_eraseP hd)
  · rw [hslot]
    split_ifs
    · simpa using c.kind_ne_rescan
    · exact h.pending key
  · rw [hslot] at hwork
    split_ifs at hwork
    · rcases hold : (s.watcher.slot key).work with _ | old
      · rw [hold] at hwork
        cases hwork
        exact .inl rfl
      · rw [hold] at hwork
        cases hwork
        exact h.work key old hold
    · exact h.work key work hwork
  · obtain ⟨kind, hwork⟩ := h.flight u hu hf
    refine ⟨kind, ?_⟩
    rw [hslot]
    split_ifs
    · simp [hwork]
    · exact hwork
  · have hin := h.inStep k left hleft
    by_cases hk : k = q
    · -- the event that comes in takes the place of the report
      subst hk
      have hnext : (s.delivered k c).next k = s.next k ∧ s.next k ≠ none := by
        rw [next, next, hsame, hslot, if_pos rfl]
        rcases (s.delivered k c).dueAt k with _ | ⟨d, ds⟩
        · simp
        · rw [List.getLast?_cons_cons, List.getLast?_eq_some_getLast (List.cons_ne_nil d ds)]
          simp
      refine ⟨hin.bytes, ?_, fun hnone => ?_⟩
      · rw [hnext.1]
        exact hin.next
      · rw [hnext.1] at hnone
        exact absurd hnone hnext.2
    · exact hin.of_same (fun _ hb => hb) (hothers k hk) (by rw [hslot, if_neg hk])
        (fun _ _ _ _ hu => hu) fun _ => Iff.rfl

theorem invariant_deliver (h : s.Invariant paths log) (q : Text) :
    (s.act (.deliver q)).Invariant paths log := by
  rcases hfind : s.due.find? (s.isAt q) with _ | c
  · simpa only [act, hfind] using h
  · have hsource := h.watches.source c.path (h.due c (List.mem_of_find?_eq_some hfind))
    have hact : s.act (.deliver q) = s.delivered q c := by
      simp only [act, hfind, notify_of_source hsource]
      rfl
    rw [hact]
    exact invariant_delivered h hfind

end Watched

end VerilogIndex
