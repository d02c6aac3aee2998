import VerilogIndex.Proofs.Files
import VerilogIndex.Proofs.History
import VerilogIndex.Watch.Coalescer

/-!
# Updates that bring a file into the index

An update that nothing makes stale (`Session.Runs`) reads its file at some moment. If the file has
the same content from then on, the update carries this content through its stages
(`Stage.Carries`), and when it has ended the readings of the index have the module of it
(`Live.Reflects`). Main statement: a step of such an update keeps that (`carries_step`).
-/

namespace VerilogIndex

open Text.Utf8 (Bytes)

/-! ## Steps of updates -/

namespace Session

theorem updates_step (s : Session) (ticket : Nat) : (s.step ticket).updates = s.updates
    ∨ ∃ u stage, s.update? ticket = some u ∧ u.inFlight = true
      ∧ (s.step ticket).updates = (s.moveTo ticket stage).updates := by
  rcases step_cases s ticket with he | ⟨u, hu, hf, ⟨stage, log, -, -, -, he⟩ | ⟨m, -, -, he⟩ |
    ⟨o, -, he⟩⟩
  · exact .inl (by rw [he])
  · exact .inr ⟨u, stage, hu, hf, by rw [he]; rfl⟩
  · exact .inr ⟨u, .leaving (.indexed m), hu, hf, by rw [he]; rfl⟩
  · refine .inr ⟨u, .settled o, hu, hf, ?_⟩
    rw [he, settle, (update?_mem hu).2]
    rfl

theorem disk_step (s : Session) (ticket : Nat) : (s.step ticket).disk = s.disk := by
  rcases step_cases s ticket with he | ⟨u, -, -, ⟨stage, log, -, -, -, he⟩ | ⟨m, -, -, he⟩ |
    ⟨o, -, he⟩⟩ <;> rw [he] <;> rfl

/-- A step changes one update, and of that one the stage. -/
theorem update?_step {s : Session} {t : Nat} {u : Update} (h : s.update? t = some u)
    (ticket : Nat) : ∃ stage, (s.step ticket).update? t = some { u with stage }
      ∧ (t ≠ ticket → stage = u.stage) := by
  rcases updates_step s ticket with he | ⟨v, stage, -, -, he⟩
  · refine ⟨u.stage, ?_, fun _ => rfl⟩
    rw [update?, he]
    exact h
  · have hfind : (s.step ticket).update? t =
        some (if u.ticket = ticket then { u with stage } else u) := by
      rw [update?, he, ← update?, update?_moveTo_eq, h, Option.map_some]
    by_cases ht : t = ticket
    · exact ⟨stage, by rw [hfind, if_pos ((update?_mem h).2.trans ht)], fun hne => absurd ht hne⟩
    · refine ⟨u.stage, ?_, fun _ => rfl⟩
      rw [hfind, if_neg (by rw [(update?_mem h).2]; exact ht)]

/-- An update that is in flight after a step was so before. -/
theorem inFlight_of_step {s : Session} (hb : s.Booked) {ticket : Nat} {v : Update}
    (hv : v ∈ (s.step ticket).updates) (hf : v.inFlight = true) :
    ∃ u ∈ s.updates, u.inFlight = true ∧ u.path = v.path ∧ u.ticket = v.ticket := by
  rcases updates_step s ticket with he | ⟨w, stage, hw, hfw, he⟩
  · exact ⟨v, he ▸ hv, hf, rfl, rfl⟩
  · rw [he] at hv
    obtain ⟨u, hu, rfl⟩ := mem_moveTo hv
    split_ifs at hf ⊢ with ht
    · refine ⟨u, hu, ?_, rfl, rfl⟩
      rw [hb.unique hw hu ht]
      exact hfw
    · exact ⟨u, hu, hf, rfl, rfl⟩

/-- An update of the path that nothing has made stale, and that can be read in time. -/
structure Runs (s : Session) (ticket : Nat) (path : Text) : Prop where
  follows : s.Follows ticket path false
  exists_update : ∃ u, s.update? ticket = some u ∧ u.hangs = false

theorem Runs.of_same {s s' : Session} {ticket : Nat} {path : Text} (h : s.Runs ticket path)
    (hu : s'.updates = s.updates) (hindex : s'.index = s.index) : s'.Runs ticket path := by
  obtain ⟨u, hfind, hhangs⟩ := h.exists_update
  refine ⟨h.follows.of_same s' hu (by rw [hindex]) (by rw [hindex]), u, ?_, hhangs⟩
  rw [update?, hu]
  exact hfind

theorem Runs.step {s : Session} {ticket : Nat} {path : Text} (h : s.Runs ticket path)
    (hb : s.Booked) (t : Nat) : (s.step t).Runs ticket path := by
  obtain ⟨u, hu, hhangs⟩ := h.exists_update
  obtain ⟨stage, hstage, -⟩ := update?_step hu t
  exact ⟨h.follows.step hb t, _, hstage, hhangs⟩

theorem Runs.act {s : Session} {ticket : Nat} {path : Text} (h : s.Runs ticket path)
    (hb : s.Booked) {a : Action} (ha : a.concerns path = false)
    (hu : ∀ t u, s.update? t = some u → (s.act a).update? t = some u) :
    (s.act a).Runs ticket path := by
  obtain ⟨u, hfind, hhangs⟩ := h.exists_update
  have hfollows := follows_act h.follows hb a
  rw [ha, Bool.or_false] at hfollows
  exact ⟨hfollows, u, hu ticket u hfind, hhangs⟩

theorem update?_request {s : Session} (hb : s.Booked) (path : Text) (hangs : Bool) :
    (s.request path hangs).2.update? (s.request path hangs).1 =
        some { path, ticket := s.index.requests.nextTicket, hangs }
      ∧ ∀ t u, s.update? t = some u → (s.request path hangs).2.update? t = some u := by
  simp only [update?, request, List.find?_append]
  refine ⟨?_, fun t u hu => by rw [hu]; rfl⟩
  rw [List.find?_eq_none.2 fun u hu => ?_]
  · simp
  · have := hb.tickets_lt u hu
    simp only [beq_iff_eq]
    omega

theorem runs_request {s : Session} (hb : s.Booked) (path : Text) :
    (s.request path false).2.Runs (s.request path false).1 path :=
  ⟨follows_request hb path false, _, (update?_request hb path false).1, rfl⟩

theorem Runs.isNewest {s : Session} {ticket : Nat} {path : Text} (h : s.Runs ticket path)
    {u : Update} (hu : s.update? ticket = some u) (hf : u.inFlight = true) :
    s.index.requests.isNewest u.path u.ticket = true := by
  obtain ⟨hmem, ht⟩ := update?_mem hu
  rw [h.follows.path_eq u hmem ht, ht]
  exact (h.follows.isNewest_iff hu hf).2 rfl

end Session

/-! ## What an index has of a place -/

namespace Live

theorem mem_ofChanges_append {q : Text} {m : Module} : ∀ {cs : List Change} {log : List Change},
    (∀ c ∈ cs, c.concerns q = false) → ((q, m) ∈ ofChanges (log ++ cs) ↔ (q, m) ∈ ofChanges log)
  | [], log, _ => by rw [List.append_nil]
  | c :: cs, log, h => by
    obtain ⟨hc, hcs⟩ := List.forall_mem_cons.1 h
    have hnew : (q, m) ∉ ofChanges [c] := by
      cases c with
      | read p m' =>
        rintro hmem
        obtain ⟨rfl, -⟩ : q = p ∧ m = m' := by simpa [ofChanges] using hmem
        simp [Change.concerns] at hc
      | removed p => simp [ofChanges]
      | cleared => simp [ofChanges]
    rw [← List.singleton_append, ← List.append_assoc, mem_ofChanges_append hcs, ofChanges_append]
    simp [hc, hnew]

/-- The readings have what was left at a place: none if nothing was, and the module of its text if
it has one. -/
def Reflects (L : Live) (q : Text) : Option Bytes → Prop
  | none => ∀ m, (q, m) ∉ L
  | some content => ∀ m, Source.readModule (Disk.textOf content) q = some m → (q, m) ∈ L

theorem Reflects.of_mem_iff {L L' : Live} {q : Text} {left : Option Bytes} (h : L.Reflects q left)
    (hmem : ∀ m, (q, m) ∈ L' ↔ (q, m) ∈ L) : L'.Reflects q left := by
  cases left with
  | none => exact fun m hm => h m ((hmem m).1 hm)
  | some content => exact fun m hm => (hmem m).2 (h m hm)

end Live

namespace Tables

variable {t : Tables} {L : Live} {q : Text}

theorem Shows.of_reflects_none (h : t.Shows L) (hq : L.Reflects q none) :
    t.parsed.get? q = none ∧ (∀ n, q ∉ t.definitions n)
      ∧ ∀ n m, t.module? n = some m → m.file ≠ q := by
  refine ⟨h.parsed_none q hq, fun n hmem => ?_, fun n m hm hfile => ?_⟩
  · rw [definitions_of_resolves h.toResolves h.toDates, List.mem_map] at hmem
    obtain ⟨⟨p, m⟩, he, rfl⟩ := hmem
    exact hq m (Live.mem_named.1 he).1
  · rw [module?, h.module, Option.map_eq_some_iff] at hm
    obtain ⟨⟨p, m'⟩, he, rfl⟩ := hm
    have hmem := (Live.mem_of_winner he).1
    obtain rfl : p = q := (h.proper.own _ hmem).symm.trans hfile
    exact hq m' hmem

theorem Shows.of_reflects_some (h : t.Shows L) {content : Bytes} (hq : L.Reflects q (some content))
    {m : Module} (hm : Source.readModule (Disk.textOf content) q = some m) :
    m.file = q ∧ t.parsed.get? q = some m ∧ q ∈ t.definitions m.name := by
  have hmem := hq m hm
  refine ⟨h.proper.own _ hmem, h.parsed _ hmem, ?_⟩
  rw [definitions_of_resolves h.toResolves h.toDates]
  exact List.mem_map.2 ⟨(q, m), Live.mem_named.2 ⟨hmem, rfl⟩, rfl⟩

end Tables

/-- An update of the place at this stage will bring the content into the readings, or has done so.
-/
def Stage.Carries (content : Bytes) (q : Text) (L : Live) : Stage → Prop
  | .waiting => True
  | .ready => True
  | .loaded t => t = Disk.textOf content
  | .parsed r => r = .ofResult (.ok (Source.readModule (Disk.textOf content) q))
  | .leaving _ => L.Reflects q (some content)
  | .settled _ => L.Reflects q (some content)

theorem Stage.Carries.of_mem_iff {content : Bytes} {q : Text} {L L' : Live} {stage : Stage}
    (h : stage.Carries content q L) (hmem : ∀ m, (q, m) ∈ L' ↔ (q, m) ∈ L) :
    stage.Carries content q L' := by
  cases stage with
  | waiting => trivial
  | ready => trivial
  | loaded t => exact h
  | parsed r => exact h
  | leaving o => exact fun m hm => (hmem m).2 (h m hm)
  | settled o => exact fun m hm => (hmem m).2 (h m hm)

namespace Session

/-- The step of an update that carries the content of its file keeps it so. -/
theorem carries_step {s : Session} {log : List Change} (hscan : s.index.strategy = .scan)
    {ticket : Nat} {q : Text} (hr : s.Runs ticket q) {content : Bytes}
    (hbytes : s.disk.bytes q = .ok content) {u : Update} (hu : s.update? ticket = some u)
    (hc : u.stage.Carries content q (Live.ofChanges log)) :
    ∃ v, (s.step ticket).update? ticket = some v ∧ v.stage.Carries content q
      (Live.ofChanges (log ++ s.changesOf (.advance ticket))) := by
  obtain ⟨hmem, rfl⟩ := update?_mem hu
  obtain rfl : u.path = q := hr.follows.path_eq u hmem rfl
  have hhangs : u.hangs = false := by
    obtain ⟨v, hv, hhangs⟩ := hr.exists_update
    rw [hu] at hv
    cases hv
    exact hhangs
  have hmove : ∀ {s' : Session} {stage : Stage}, s.step u.ticket = s'.moveTo u.ticket stage →
      s'.updates = s.updates →
      stage.Carries content u.path (Live.ofChanges (log ++ s.changesOf (.advance u.ticket))) →
      ∃ v, (s.step u.ticket).update? u.ticket = some v ∧ v.stage.Carries content u.path
        (Live.ofChanges (log ++ s.changesOf (.advance u.ticket))) := by
    intro s' stage hstep hupdates hcarries
    have hu' : s'.update? u.ticket = some u := by
      rw [update?, hupdates]
      exact hu
    exact ⟨{ u with stage }, by rw [hstep, update?_moveTo hu'], hcarries⟩
  -- only a step that concludes the update changes the tables
  have hsame : (∀ r, u.stage ≠ .parsed r) → s.changesOf (.advance u.ticket) = [] := fun hno =>
    changesOf_advance_nil fun v r hv hs => by
      rw [hu] at hv
      cases hv
      exact hno r hs
  rcases hs : u.stage with _ | _ | t | r | o | o <;> rw [hs] at hc
  · have hnewest := hr.isNewest hu (by rw [Update.inFlight, hs]; rfl)
    by_cases hfirst : s.index.requests.isFirst u.path u.ticket = true
    · have hstep : s.step u.ticket = s.moveTo u.ticket .ready := by
        simp only [step, hu, hs, acquire, hfirst, hnewest, if_true]
      exact hmove hstep rfl trivial
    · have hstep : s.step u.ticket = s := by simp [step, hu, hs, acquire, hfirst]
      exact ⟨u, by rw [hstep, hu], by rw [hs]; trivial⟩
  · have hstep : s.step u.ticket = s.moveTo u.ticket (.loaded (Disk.textOf content)) := by
      simp only [step, hu, hs, load, Disk.text_of_bytes hbytes]
    exact hmove hstep rfl rfl
  · have hstep : s.step u.ticket = s.moveTo u.ticket
        (.parsed (.ofResult (.ok (Source.readModule (Disk.textOf content) u.path)))) := by
      simp only [step, hu, hs, parse, hhangs, hscan, show t = Disk.textOf content from hc]
      rfl
    exact hmove hstep rfl rfl
  · have hnewest := hr.isNewest hu (by rw [Update.inFlight, hs]; rfl)
    have hchanges := changesOf_advance hu hs
    rw [if_pos hnewest] at hchanges
    rcases hm : Source.readModule (Disk.textOf content) u.path with _ | m
    · obtain rfl : r = .noModule := hc.trans (by rw [hm]; rfl)
      have hstep : s.step u.ticket = s.moveTo u.ticket (.leaving .noModule) := by
        simp only [step, hu, hs, conclude, hnewest, if_true]
      refine hmove hstep rfl fun m hm' => ?_
      rw [hm] at hm'
      cases hm'
    · obtain rfl : r = .found m := hc.trans (by rw [hm]; rfl)
      have hstep : s.step u.ticket =
          (s.become (s.index.record u.path m)).moveTo u.ticket (.leaving (.indexed m)) := by
        simp only [step, hu, hs, conclude, hnewest, if_true]
      refine hmove hstep rfl fun m' hm' => ?_
      rw [hm] at hm'
      cases hm'
      rw [hchanges, Reading.changes, Live.ofChanges_append_read]
      simp
  · have hstep : s.step u.ticket = s.settle u o := by simp only [step, hu, hs]
    refine hmove hstep rfl ?_
    rw [hsame (by simp [hs]), List.append_nil]
    exact hc
  · have hstep : s.step u.ticket = s := by simp only [step, hu, hs]
    refine ⟨u, by rw [hstep, hu], ?_⟩
    rw [hsame (by simp [hs]), List.append_nil, hs]
    exact hc

/-- The readings have what was left at a place, or the worker is at an update that carries it. -/
def Attends (s : Session) (L : Live) (q : Text) (left : Option Bytes) : Option Work → Prop
  | some (.updating _ ticket) =>
    ∃ content u, left = some content ∧ s.update? ticket = some u ∧ u.stage.Carries content q L
  | _ => L.Reflects q left

theorem Attends.of_same {s s' : Session} {L L' : Live} {q : Text} {left : Option Bytes}
    {work : Option Work} (h : s.Attends L q left work)
    (hu : ∀ kind ticket u, work = some (.updating kind ticket) → s.update? ticket = some u →
      s'.update? ticket = some u)
    (hL : ∀ m, (q, m) ∈ L' ↔ (q, m) ∈ L) : s'.Attends L' q left work := by
  rcases work with _ | _ | ⟨kind, ticket⟩ | files | scan
  · exact Live.Reflects.of_mem_iff h hL
  · exact Live.Reflects.of_mem_iff h hL
  · obtain ⟨content, u, hleft, hfind, hc⟩ := h
    exact ⟨content, u, hleft, hu kind ticket u rfl hfind, hc.of_mem_iff hL⟩
  · exact Live.Reflects.of_mem_iff h hL
  · exact Live.Reflects.of_mem_iff h hL

end Session

end VerilogIndex
