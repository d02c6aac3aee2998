import VerilogIndex.Proofs.Failures

/-!
# What is kept for requests

A path has a number of requests, a newest ticket and a line for its lock as long as an update of it
is in flight, and no longer. The line is the list of the tickets of these updates in the order of
their requests, and an update past the lock is the first in line (`Session.Lined`). An update takes
up the lock only when it is first, and what ends is always the first, so the line loses its head
(`queue_settle`).

Main statement: in every session that can be reached the number of requests of a path is that of
its updates in flight, which is what was requested less what has ended; the three tables have the
same paths; one update of a path at most is past its lock; and nothing is left when no update is in
flight (`requests_exact`).
-/

namespace VerilogIndex

/-- The update is past the lock of its path and has not given it back. -/
def Update.holdsLock (u : Update) : Bool :=
  match u.stage with
  | .waiting => false
  | .settled _ => false
  | _ => true

theorem Update.inFlight_of_holdsLock {u : Update} (h : u.holdsLock = true) : u.inFlight = true := by
  unfold holdsLock at h
  unfold inFlight
  split at h
  · cases h
  · cases h
  · rename_i hs
    cases hstage : u.stage <;> first | rfl | exact absurd hstage (hs _)

/-- The next step ends the update. -/
def Stage.isLeaving : Stage → Bool
  | .leaving _ => true
  | _ => false

namespace Requests

variable (r : Requests) (path p : Text)

theorem lines_outdate : (r.outdate path).lines = r.lines := by
  unfold outdate
  split_ifs <;> rfl

theorem lines_outdateAll : r.outdateAll.lines = r.lines := by
  have hfold : ∀ (ks : List Text) (r : Requests), (ks.foldl supersede r).lines = r.lines := by
    intro ks
    induction ks with
    | nil => exact fun _ => rfl
    | cons k ks ih => exact fun r => ih (r.supersede k)
  exact hfold _ r

/-- Only paths with requests get a ticket when they are made stale. -/
theorem tickets_outdate_eq_none (h : r.tickets.get? p = none ↔ r.pending.get? p = none) :
    (r.outdate path).tickets.get? p = none ↔ r.pending.get? p = none := by
  by_cases hp : p = path
  · subst hp
    by_cases hc : r.pending.contains p = true
    · have hsome : r.pending.get? p ≠ none := by
        intro hn
        simp [Table.contains, hn] at hc
      simp [r.tickets_outdate p hc, hsome]
    · rwa [outdate, if_neg hc]
  · rwa [r.tickets_outdate_of_ne path p hp]

theorem tickets_outdateAll_eq_none (h : r.tickets.get? p = none ↔ r.pending.get? p = none) :
    r.outdateAll.tickets.get? p = none ↔ r.pending.get? p = none := by
  by_cases hc : r.pending.contains p = true
  · obtain ⟨k, -, hk⟩ := r.tickets_outdateAll p hc
    have hsome : r.pending.get? p ≠ none := by
      intro hn
      simp [Table.contains, hn] at hc
    simp [hk, hsome]
  · have hkeep : r.outdateAll.tickets.get? p = r.tickets.get? p :=
      (foldl_supersede p _ r).2.2.2 fun hmem => hc (Table.contains_iff.2 hmem)
    rwa [hkeep]

/-- What a request that leaves takes along: its place in line, and the ticket with the last one. -/
theorem lines_leave : (r.leave path).lines.get? p =
    if p = path then (if (r.pending.get? path).getD 0 ≤ 1 then none
      else some ((r.lines.get? path).getD []).tail) else r.lines.get? p := by
  rcases hn : (r.pending.get? path).getD 0 - 1 with _ | k
  · simp only [leave, hn, Table.get?_erase]
    rw [if_pos (show (r.pending.get? path).getD 0 ≤ 1 by omega)]
  · simp only [leave, hn, Table.get?_put]
    rw [if_neg (show ¬ (r.pending.get? path).getD 0 ≤ 1 by omega)]

theorem tickets_leave : (r.leave path).tickets.get? p =
    if p = path ∧ (r.pending.get? path).getD 0 ≤ 1 then none else r.tickets.get? p := by
  rcases hn : (r.pending.get? path).getD 0 - 1 with _ | k
  · have hle : (r.pending.get? path).getD 0 ≤ 1 := by omega
    simp [leave, hn, hle]
  · have hgt : ¬ (r.pending.get? path).getD 0 ≤ 1 := by omega
    simp [leave, hn, hgt]

end Requests

namespace Session

/-! ## The line of a path -/

/-- The tickets of the updates of a path in flight, oldest first. -/
def queue (s : Session) (path : Text) : List Nat :=
  (s.updates.filter fun u => u.path == path && u.inFlight).map (·.ticket)

theorem length_queue (s : Session) (path : Text) : (s.queue path).length = s.flying path := by
  simp [queue, flying, List.countP_eq_length_filter]

theorem Booked.nodup_queue {s : Session} (h : s.Booked) (path : Text) : (s.queue path).Nodup :=
  h.tickets_nodup.sublist (List.filter_sublist.map _)

theorem queue_request (s : Session) (path : Text) (hangs : Bool) (p : Text) :
    (s.request path hangs).2.queue p =
      s.queue p ++ if p = path then [s.index.requests.nextTicket] else [] := by
  simp only [queue, request, List.filter_append, List.map_append]
  by_cases hp : p = path
  · simp [hp, Update.inFlight, Stage.outcome?]
  · simp [hp, Ne.symm hp]

theorem queue_moveTo {s : Session} {ticket : Nat} {stage : Stage} (hs : stage.outcome? = none)
    (hu : ∀ u ∈ s.updates, u.ticket = ticket → u.inFlight = true) (path : Text) :
    (s.moveTo ticket stage).queue path = s.queue path := by
  simp only [queue, moveTo, List.filter_map, List.map_map]
  have hfilter : s.updates.filter ((fun u => u.path == path && u.inFlight) ∘
      fun u => if u.ticket = ticket then { u with stage } else u) =
        s.updates.filter fun u => u.path == path && u.inFlight := by
    refine List.filter_congr fun u hmem => ?_
    simp only [Function.comp]
    split_ifs with ht
    · simp [Update.inFlight, hs, show u.stage.outcome?.isNone = true from hu u hmem ht]
    · rfl
  rw [hfilter]
  refine List.map_congr_left fun u _ => ?_
  simp only [Function.comp]
  split_ifs <;> rfl

/-- An update that ends goes out of the line. -/
theorem queue_settle_eq_filter (s : Session) (u : Update) (o : Outcome) (path : Text) :
    (s.settle u o).queue path = (s.queue path).filter (· != u.ticket) := by
  simp only [queue, settle, moveTo, List.filter_map, List.map_map, List.filter_filter]
  have hfilter : s.updates.filter ((fun v => v.path == path && v.inFlight) ∘
      fun v => if v.ticket = u.ticket then { v with stage := .settled o } else v) =
        s.updates.filter fun v => ((· != u.ticket) ∘ fun v : Update => v.ticket) v
          && (v.path == path && v.inFlight) := by
    refine List.filter_congr fun v _ => ?_
    simp only [Function.comp]
    split_ifs with ht
    · simp [ht, Update.inFlight, Stage.outcome?]
    · simp [ht]
  rw [hfilter]
  refine List.map_congr_left fun v _ => ?_
  simp only [Function.comp]
  split_ifs <;> rfl

/-- What is kept for a path is what its updates in flight need: a ticket, a number and a line with
the update past the lock in front. -/
structure Lined (s : Session) : Prop where
  booked : s.Booked
  tickets : ∀ p, s.index.requests.tickets.get? p = none ↔ s.index.requests.pending.get? p = none
  lines : ∀ p, s.index.requests.lines.get? p =
    if s.flying p = 0 then none else some (s.queue p)
  first : ∀ u ∈ s.updates, u.holdsLock = true → (s.queue u.path).head? = some u.ticket

theorem Idle.lined {s : Session} (h : s.Idle) : s.Lined where
  booked := h.booked
  tickets p := by simp [h.tickets, h.pending]
  lines p := by simp [h.lines, flying, h.updates]
  first u hu := by simp [h.updates] at hu

section Lined

variable {s : Session}

theorem Lined.getD_lines (h : s.Lined) (p : Text) :
    (s.index.requests.lines.get? p).getD [] = s.queue p := by
  rw [h.lines]
  split_ifs with h0
  · rw [← length_queue, List.length_eq_zero_iff] at h0
    simp [h0]
  · rfl

theorem Lined.pending_eq_none (h : s.Lined) (p : Text) :
    s.index.requests.pending.get? p = none ↔ s.flying p = 0 := by
  rw [h.booked.pending]
  split_ifs with h0 <;> simp [h0]

/-- Which tickets are the newest does not matter, only for which paths there are some. -/
theorem Lined.of_same (h : s.Lined) {s' : Session} (hb : s'.Booked) (hu : s'.updates = s.updates)
    (hp : s'.index.requests.pending = s.index.requests.pending)
    (hl : s'.index.requests.lines = s.index.requests.lines)
    (ht : ∀ p, s'.index.requests.tickets.get? p = none ↔ s.index.requests.pending.get? p = none) :
    s'.Lined := by
  have hqueue : s'.queue = s.queue := by funext p; simp [queue, hu]
  have hfly : s'.flying = s.flying := by funext p; simp [flying, hu]
  refine ⟨hb, fun p => ?_, fun p => ?_, fun u hmem hh => ?_⟩
  · rw [hp]
    exact ht p
  · rw [hl, hqueue, hfly]
    exact h.lines p
  · rw [hqueue]
    exact h.first u (hu ▸ hmem) hh

theorem Lined.request (h : s.Lined) (path : Text) (hangs : Bool) :
    (s.request path hangs).2.Lined where
  booked := booked_act h.booked (.request path hangs)
  tickets p := by
    by_cases hp : p = path
    · simp [Session.request, Requests.enter, Requests.supersede, hp]
    · simpa [Session.request, Requests.enter, Requests.supersede, hp] using h.tickets p
  lines p := by
    rw [flying_request, queue_request]
    simp only [Session.request, Requests.enter, Table.get?_put, h.getD_lines]
    by_cases hp : p = path
    · simp [hp]
    · simpa [hp] using h.lines p
  first u hu hh := by
    rw [queue_request]
    rcases List.mem_append.1 hu with hu | hu
    · rw [List.head?_append, h.first u hu hh]
      rfl
    · rw [List.mem_singleton.1 hu] at hh
      cases hh

/-- The first in line ends, and all that follow it move up. -/
theorem queue_settle (h : s.Lined) {u : Update} {o : Outcome} (hu : u ∈ s.updates)
    (hh : u.holdsLock = true) (p : Text) :
    (s.settle u o).queue p = if p = u.path then (s.queue p).tail else s.queue p := by
  have hnodup := h.booked.nodup_queue p
  rw [queue_settle_eq_filter]
  split_ifs with hp
  · subst hp
    obtain ⟨rest, hrest⟩ := List.head?_eq_some_iff.1 (h.first u hu hh)
    rw [hrest, List.nodup_cons] at hnodup
    rw [hrest, List.filter_cons_of_neg (by simp), List.tail_cons, List.filter_eq_self]
    intro t ht
    rw [bne_iff_ne]
    rintro rfl
    exact hnodup.1 ht
  · refine List.filter_eq_self.2 fun t ht => ?_
    rw [bne_iff_ne]
    rintro rfl
    obtain ⟨v, hv, hvt⟩ := List.mem_map.1 ht
    obtain ⟨hmem, hvp⟩ := List.mem_filter.1 hv
    rw [List.inj_on_of_nodup_map h.booked.tickets_nodup hmem hu hvt] at hvp
    simp [Ne.symm hp] at hvp

theorem Lined.settle (h : s.Lined) {u : Update} {o : Outcome} (hu : u ∈ s.updates)
    (hh : u.holdsLock = true) : (s.settle u o).Lined := by
  have hf := Update.inFlight_of_holdsLock hh
  have hpos := flying_pos hu hf
  have hr : (s.settle u o).index.requests = s.index.requests.leave u.path := rfl
  have hfly := flying_settle h.booked (o := o) hu hf
  refine ⟨booked_settle h.booked hu hf, fun p => ?_, fun p => ?_, fun v hv hvh => ?_⟩
  · rw [hr, Requests.tickets_leave, Requests.pending_leave, h.booked.getD_pending]
    by_cases hp : p = u.path
    · subst hp
      by_cases hle : s.flying u.path ≤ 1
      · simp [hle]
      · have hsome : s.index.requests.pending.get? u.path ≠ none := by
          rw [ne_eq, h.pending_eq_none]
          omega
        simp [hle, h.tickets, hsome]
    · simp [hp, h.tickets]
  · have hflyp := hfly p
    rw [hr, Requests.lines_leave, queue_settle h hu hh, h.booked.getD_pending]
    by_cases hp : p = u.path
    · subst hp
      rw [if_pos rfl] at hflyp
      rw [if_pos rfl, if_pos rfl, h.getD_lines]
      exact if_congr (by omega) rfl rfl
    · rw [if_neg hp, Nat.add_zero] at hflyp
      rw [if_neg hp, if_neg hp, hflyp]
      exact h.lines p
  · obtain ⟨w, hw, rfl⟩ := mem_moveTo hv
    split_ifs at hvh ⊢ with ht
    · cases hvh
    -- another update of the path past its lock would be first as well
    · have hne : w.path ≠ u.path := by
        intro hp
        have h1 := h.first w hw hvh
        rw [hp, h.first u hu hh] at h1
        exact ht (Option.some.inj h1).symm
      rw [queue_settle h hu hh, if_neg hne]
      exact h.first w hw hvh

/-- An update comes past its lock in a step only if it is the first in line. -/
theorem isFirst_of_holdsLock {u : Update} (hs : u.holdsLock = false)
    (hn : ({ u with stage := s.nextStage u } : Update).holdsLock = true) :
    s.index.requests.isFirst u.path u.ticket = true := by
  unfold nextStage at hn
  unfold Update.holdsLock at hs
  rcases hstage : u.stage with _ | _ | t | r | o | o
  · by_contra hfirst
    simp [Update.holdsLock, hstage, hfirst] at hn
  · simp [hstage] at hs
  · simp [hstage] at hs
  · simp [hstage] at hs
  · simp [hstage] at hs
  · simp [Update.holdsLock, hstage] at hn

theorem Lined.moveTo (h : s.Lined) {u : Update} (hu : s.update? u.ticket = some u)
    (hf : u.inFlight = true) {stage : Stage} (hs : stage.outcome? = none)
    (hfirst : ({ u with stage } : Update).holdsLock = true →
      (s.queue u.path).head? = some u.ticket) : (s.moveTo u.ticket stage).Lined := by
  have hfly : ∀ v ∈ s.updates, v.ticket = u.ticket → v.inFlight = true := fun v hv ht => by
    rw [h.booked.unique hu hv ht]
    exact hf
  refine ⟨booked_moveTo h.booked _ stage hs hfly, h.tickets, fun p => ?_, fun v hv hh => ?_⟩
  · rw [queue_moveTo hs hfly, flying_moveTo hs hfly]
    exact h.lines p
  · rw [queue_moveTo hs hfly]
    obtain ⟨w, hw, rfl⟩ := mem_moveTo hv
    split_ifs at hh ⊢ with ht
    · obtain rfl := h.booked.unique hu hw ht
      exact hfirst hh
    · exact h.first w hw hh

theorem Lined.step (h : s.Lined) (ticket : Nat) : (s.step ticket).Lined := by
  have hsame : ∀ s' : Session, s'.updates = s.updates → s'.index.requests = s.index.requests →
      s'.Lined := fun s' hu hr =>
    h.of_same (h.booked.of_same hu (by rw [hr]) (by rw [hr])) hu (by rw [hr]) (by rw [hr])
      (by rw [hr]; exact h.tickets)
  rcases step_cases s ticket with he | ⟨u, hu, hf, hc⟩
  · rwa [he]
  obtain ⟨hmem, rfl⟩ := update?_mem hu
  -- wherever the step takes the update, it is first in line once it is past the lock
  have hfirst : ({ u with stage := s.nextStage u } : Update).holdsLock = true →
      (s.queue u.path).head? = some u.ticket := by
    intro hn
    by_cases hold : u.holdsLock = true
    · exact h.first u hmem hold
    · have := isFirst_of_holdsLock (Bool.eq_false_iff.2 hold) hn
      simpa [Requests.isFirst, h.getD_lines] using this
  have hstage : ∀ (s' : Session) (stage : Stage), s'.updates = s.updates →
      s.step u.ticket = s'.moveTo u.ticket stage → stage = s.nextStage u := by
    intro s' stage hupd he
    have h1 := update?_step_self hu
    have hfound : s'.update? u.ticket = some u := by
      rw [update?, hupd]
      exact hu
    rw [he, update?_moveTo hfound] at h1
    exact congrArg Update.stage (Option.some.inj h1)
  rcases hc with ⟨stage, log, hs, -, -, he⟩ | ⟨m, -, -, he⟩ | ⟨o, hleaving, he⟩
  · obtain rfl := hstage { s with log } stage rfl he
    rw [he]
    exact (hsame { s with log } rfl rfl).moveTo hu hf hs hfirst
  · have hnext := hstage (s.become _) _ rfl he
    rw [he]
    exact (hsame (s.become (s.index.record u.path m)) rfl rfl).moveTo hu hf rfl
      fun hh => hfirst (hnext ▸ hh)
  · rw [he]
    exact h.settle hmem (by rw [Update.holdsLock, hleaving])

theorem Lined.act (h : s.Lined) (a : Action) : (s.act a).Lined := by
  have hb := booked_act h.booked a
  cases a with
  | request path hangs => exact h.request path hangs
  | advance ticket => exact h.step ticket
  | updateText path t =>
    have hr : (s.act (.updateText path t)).index.requests = s.index.requests.outdate path :=
      requests_updateText s.index path t
    exact h.of_same hb rfl (by rw [hr, Requests.pending_outdate])
      (by rw [hr, Requests.lines_outdate])
      fun p => by rw [hr]; exact Requests.tickets_outdate_eq_none _ path p (h.tickets p)
  | remove path =>
    exact h.of_same hb rfl (Requests.pending_outdate _ path) (Requests.lines_outdate _ path)
      fun p => Requests.tickets_outdate_eq_none _ path p (h.tickets p)
  | scan =>
    obtain ⟨hu, -, hr, -, -⟩ := beginScan_frame s
    exact h.of_same hb hu (by rw [Session.act, hr, Requests.pending_outdateAll])
      (by rw [Session.act, hr, Requests.lines_outdateAll])
      fun p => by rw [Session.act, hr]; exact Requests.tickets_outdateAll_eq_none _ p (h.tickets p)
  | write path content => exact h.of_same hb rfl rfl rfl h.tickets
  | delete path => exact h.of_same hb rfl rfl rfl h.tickets
  | tidy =>
    have hqueue : ∀ p, s.tidy.queue p = s.queue p := fun p => by
      simp only [queue, tidy, List.filter_filter]
      congr 1
      refine List.filter_congr fun u _ => ?_
      simp only [Update.inFlight, Bool.and_assoc, Bool.and_self]
    refine ⟨hb, h.tickets, fun p => ?_, fun u hu hh => ?_⟩
    · rw [Session.act, hqueue, ← length_queue, hqueue, length_queue]
      exact h.lines p
    · rw [Session.act, hqueue]
      exact h.first u (List.mem_filter.1 hu).1 hh

/-- When every update has ended, nothing is kept for any path. -/
theorem Lined.idle_tidy (h : s.Lined) (hnone : ∀ u ∈ s.updates, u.inFlight = false) :
    s.tidy.Idle := by
  refine h.booked.idle_tidy hnone fun p hp => ⟨?_, ?_⟩
  · exact (h.tickets p).2 ((h.pending_eq_none p).2 hp)
  · exact (h.lines p).trans (if_pos hp)

theorem lasting_lined : Lasting Lined where
  act h a := h.act a
  say h _ := h.of_same (h.booked.of_same rfl rfl le_rfl) rfl rfl rfl h.tickets

end Lined

/-! ## Requests and ends along a run -/

/-- The action requests an update of the path. -/
def Action.requests (path : Text) : Action → Bool
  | .request p _ => p == path
  | _ => false

/-- The action ends an update of the path. -/
def ends (s : Session) (path : Text) : Action → Bool
  | .advance ticket => (s.update? ticket).any fun u => u.path == path && u.stage.isLeaving
  | _ => false

/-- The number of updates of the path that a run ends. -/
def ended (s : Session) (path : Text) : List Action → Nat
  | [] => 0
  | a :: as => (if s.ends path a then 1 else 0) + (s.act a).ended path as

theorem flying_step {s : Session} (h : s.Booked) (ticket : Nat) (path : Text) :
    (s.step ticket).flying path + (if s.ends path (.advance ticket) then 1 else 0) =
      s.flying path := by
  rcases hu : s.update? ticket with _ | u
  · simp [step, ends, hu]
  obtain ⟨hmem, rfl⟩ := update?_mem hu
  have hnext := update?_step_self hu
  have hends : s.ends path (.advance u.ticket) = (u.path == path && u.stage.isLeaving) := by
    simp [ends, hu]
  rw [hends]
  rcases step_cases s u.ticket with he | ⟨v, hv, hf, hc⟩
  · -- a step always ends an update that is about to end
    rw [he] at hnext ⊢
    rw [hu] at hnext
    have hstage : u.stage = s.nextStage u := congrArg Update.stage (Option.some.inj hnext)
    cases hs : u.stage <;> simp [nextStage, hs, Stage.isLeaving] at hstage ⊢
  rw [hu] at hv
  cases hv
  have hfly : ∀ w ∈ s.updates, w.ticket = u.ticket → w.inFlight = true := fun w hw ht => by
    rw [h.unique hu hw ht]
    exact hf
  rcases hc with ⟨stage, log, hs, -, -, he⟩ | ⟨m, hm, -, he⟩ | ⟨o, ho, he⟩
  · -- an update that stays in flight was not about to end
    have hopen : u.stage.isLeaving = false := by
      have hfound : Session.update? { s with log } u.ticket = some u := hu
      rw [he, update?_moveTo hfound] at hnext
      have hstage : stage = s.nextStage u := congrArg Update.stage (Option.some.inj hnext)
      rw [hstage] at hs
      cases ho : u.stage <;> simp [nextStage, ho, Stage.outcome?, Stage.isLeaving] at hs ⊢
    rw [he, flying_moveTo (s := { s with log }) hs hfly, hopen, Bool.and_false]
    rfl
  · have hopen : u.stage.isLeaving = false := by rw [hm]; rfl
    rw [he, flying_moveTo (s := s.become _) rfl hfly, hopen, Bool.and_false]
    rfl
  · rw [he, ho, ← flying_settle h (o := o) hmem hf path]
    by_cases hp : path = u.path
    · simp [hp, Stage.isLeaving]
    · simp [hp, Ne.symm hp]

theorem flying_act {s : Session} (h : s.Booked) (a : Action) (path : Text) :
    (s.act a).flying path + (if s.ends path a then 1 else 0) =
      s.flying path + (if a.requests path then 1 else 0) := by
  cases a with
  | request p hangs =>
    rw [act, flying_request]
    by_cases hp : path = p
    · simp [ends, Action.requests, hp]
    · simp [ends, Action.requests, hp, Ne.symm hp]
  | advance ticket => exact flying_step h ticket path
  | scan =>
    have hu := (beginScan_frame s).1
    simp [act, ends, Action.requests, flying, hu]
  | tidy =>
    simp [act, ends, Action.requests, flying_tidy]
  | updateText p t => rfl
  | remove p => rfl
  | write p content => rfl
  | delete p => rfl

theorem flying_run : ∀ (actions : List Action) {s : Session}, s.Booked → ∀ path,
    (s.run actions).flying path + s.ended path actions =
      s.flying path + actions.countP (Action.requests path)
  | [], s, _, path => rfl
  | a :: as, s, h, path => by
    have hact := flying_act h a path
    have ih := flying_run as (booked_act h a) path
    rw [List.countP_cons, ended]
    show ((s.act a).run as).flying path + _ = _
    omega

/-! ## Exact books -/

/-- The number of updates of a path that are past its lock. -/
def holders (s : Session) (path : Text) : Nat :=
  s.updates.countP fun u => u.path == path && u.holdsLock

theorem Lined.holders_le_one {s : Session} (h : s.Lined) (path : Text) : s.holders path ≤ 1 := by
  have hsame : ∀ u ∈ s.updates.filter (fun u => u.path == path && u.holdsLock),
      some u.ticket = (s.queue path).head? := by
    intro u hu
    obtain ⟨hmem, hp⟩ := List.mem_filter.1 hu
    rw [Bool.and_eq_true, beq_iff_eq] at hp
    rw [← hp.1, h.first u hmem hp.2]
  have hnodup : ((s.updates.filter fun u => u.path == path && u.holdsLock).map (·.ticket)).Nodup :=
    h.booked.tickets_nodup.sublist (List.filter_sublist.map _)
  rw [holders, List.countP_eq_length_filter]
  generalize s.updates.filter (fun u => u.path == path && u.holdsLock) = l at hsame hnodup ⊢
  rcases l with _ | ⟨u, _ | ⟨v, l⟩⟩
  · simp
  · simp
  · have huv : u.ticket = v.ticket := Option.some.inj
      ((hsame u (by simp)).trans (hsame v (by simp)).symm)
    simp [huv] at hnodup

/-- In every session that comes of one where nothing is under way: the number of requests kept for
a path is that of its updates in flight, and no number is kept if there are none; tickets are kept
for the same paths, and lines for no other; one update of a path at most is past its lock; and the
tables are empty if no update is in flight. Along a run from the start, what is in flight is what
was requested and has not ended. -/
theorem requests_exact {s₀ : Session} (h₀ : s₀.Idle) :
    (∀ s, Reachable s₀ s →
      (∀ p, s.index.requests.pending.get? p = if s.flying p = 0 then none else some (s.flying p))
      ∧ (∀ p, p ∈ s.index.requests.tickets.keys ↔ p ∈ s.index.requests.pending.keys)
      ∧ (∀ p ∈ s.index.requests.lines.keys, p ∈ s.index.requests.pending.keys)
      ∧ (∀ p, s.holders p ≤ 1)
      ∧ ((∀ u ∈ s.updates, u.inFlight = false) → s.index.requests.tickets = []
        ∧ s.index.requests.pending = [] ∧ s.index.requests.lines = []))
    ∧ ∀ (actions : List Action) (p : Text),
      (s₀.run actions).flying p + s₀.ended p actions = actions.countP (Action.requests p) := by
  refine ⟨fun s hs => ?_, fun actions p => ?_⟩
  · have h := hs.keeps lasting_lined h₀.lined
    have hkeys : ∀ {α : Type} (t : Table α) (p : Text), p ∈ t.keys ↔ t.get? p ≠ none :=
      fun t p => Table.mem_keys_iff.trans Option.ne_none_iff_exists'.symm
    refine ⟨h.booked.pending, fun p => ?_, fun p hp => ?_, h.holders_le_one, fun hnone => ?_⟩
    · rw [hkeys, hkeys, ne_eq, ne_eq, h.tickets]
    · rw [hkeys, h.lines] at hp
      rw [hkeys, ne_eq, h.pending_eq_none]
      intro h0
      simp [h0] at hp
    · have hidle := h.idle_tidy hnone
      exact ⟨hidle.tickets, hidle.pending, hidle.lines⟩
  · have hrun := flying_run actions h₀.booked p
    have hzero : s₀.flying p = 0 := by simp [flying, h₀.updates]
    omega

/-- Two updates of a file overlap while its text is given, it is removed and everything is scanned:
the second one waits for the lock until the first has ended. -/
theorem requests_exact_overlapping :
    let s₀ : Session := { disk := ⟨[("a".toList, .file (some []))], "/"⟩, index := { root := "/" } }
    let before := [Action.request "/a" false, .advance 1, .request "/a" false, .updateText "/a" "x",
      .advance 2, .remove "/a", .scan, .remove "/b"]
    let after := [Action.advance 1, .advance 1, .advance 1, .advance 1]
    let s := s₀.run before
    let s' := s₀.run (before ++ after)
    s₀.Idle ∧ Reachable s₀ s ∧ Reachable s₀ s'
      ∧ s.index.requests = ⟨[("/a".toList, 5)], [("/a".toList, 2)], [("/a".toList, [1, 2])], 6⟩
      ∧ s.flying "/a" = 2 ∧ s.holders "/a" ≤ 1
      ∧ s'.index.requests = ⟨[("/a".toList, 5)], [("/a".toList, 1)], [("/a".toList, [2])], 6⟩
      ∧ s'.flying "/a" + s₀.ended "/a" (before ++ after) = 2
      ∧ s₀.ended "/a" (before ++ after) = 1 := by
  intro s₀ before after s s'
  have hidle : s₀.Idle := ⟨rfl, rfl, rfl, rfl⟩
  have hs : Reachable s₀ s := reachable_run .start _
  have hs' : Reachable s₀ s' := reachable_run .start _
  obtain ⟨hexact, hrun⟩ := requests_exact hidle
  obtain ⟨-, -, -, hholders, -⟩ := hexact s hs
  exact ⟨hidle, hs, hs', by decide +kernel, by decide +kernel, hholders "/a", by decide +kernel,
    hrun (before ++ after) "/a", by decide +kernel⟩

end Session

end VerilogIndex
