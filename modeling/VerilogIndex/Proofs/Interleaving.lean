import VerilogIndex.Proofs.Tables
import VerilogIndex.Session.Batch

/-!
# Interleavings of updates

An update under way goes from stage to stage while other updates, texts, removals and scans come in
between, in any order (`Session.run`). What a step can do is said once (`step_cases`).

The number of requests kept for a path is that of its updates in flight (`Session.Booked`), so what
is kept for a path goes with its last update only. Therefore the newest ticket of a path stays what
it is as long as an update of the path is in flight and nothing concerns the path, and whatever
concerns the path raises it above every ticket given out before (`Session.Follows`). Main
statement: an update in flight holds the newest ticket of its path if and only if nothing has
concerned its path since its request, so it records its module then and only then
(`newest_request_wins`).
-/

namespace VerilogIndex

/-! ## Requests -/

namespace Requests

variable (r : Requests) (path p : Text)

theorem tickets_supersede :
    (r.supersede path).tickets.get? p =
      if p = path then some r.nextTicket else r.tickets.get? p := by
  simp [supersede]

theorem tickets_outdate (hp : r.pending.contains path = true) :
    (r.outdate path).tickets.get? path = some r.nextTicket := by
  rw [outdate, if_pos hp, tickets_supersede, if_pos rfl]

theorem tickets_outdate_of_ne (hp : p ≠ path) :
    (r.outdate path).tickets.get? p = r.tickets.get? p := by
  rw [outdate]
  split_ifs
  · rw [tickets_supersede, if_neg hp]
  · rfl

theorem pending_outdate : (r.outdate path).pending = r.pending := by
  rw [outdate]
  split_ifs <;> rfl

theorem nextTicket_outdate : r.nextTicket ≤ (r.outdate path).nextTicket := by
  rw [outdate]
  split_ifs
  · exact Nat.le_succ _
  · exact le_rfl

/-- Tickets given out to paths one after the other are newer than all tickets before. -/
theorem foldl_supersede (ks : List Text) : ∀ r : Requests,
    (ks.foldl supersede r).pending = r.pending
      ∧ r.nextTicket ≤ (ks.foldl supersede r).nextTicket
      ∧ (p ∈ ks → ∃ k, r.nextTicket ≤ k ∧ (ks.foldl supersede r).tickets.get? p = some k)
      ∧ (p ∉ ks → (ks.foldl supersede r).tickets.get? p = r.tickets.get? p) := by
  induction ks with
  | nil => simp
  | cons q ks ih =>
    intro r
    obtain ⟨h1, h2, h3, h4⟩ := ih (r.supersede q)
    have hn : (r.supersede q).nextTicket = r.nextTicket + 1 := rfl
    rw [List.foldl_cons]
    refine ⟨h1, by omega, fun hp => ?_, fun hp => ?_⟩
    · by_cases hk : p ∈ ks
      · obtain ⟨k, hk1, hk2⟩ := h3 hk
        exact ⟨k, by omega, hk2⟩
      · have hpq : p = q := (List.mem_cons.1 hp).resolve_right hk
        exact ⟨r.nextTicket, le_rfl, by rw [h4 hk, tickets_supersede, if_pos hpq]⟩
    · rw [List.mem_cons, not_or] at hp
      rw [h4 hp.2, tickets_supersede, if_neg hp.1]

theorem pending_outdateAll : r.outdateAll.pending = r.pending := (foldl_supersede [] _ r).1

theorem nextTicket_outdateAll : r.nextTicket ≤ r.outdateAll.nextTicket :=
  (foldl_supersede [] _ r).2.1

theorem tickets_outdateAll (hp : r.pending.contains p = true) :
    ∃ k, r.nextTicket ≤ k ∧ r.outdateAll.tickets.get? p = some k :=
  (foldl_supersede p _ r).2.2.1 (Table.contains_iff.1 hp)

theorem pending_leave : (r.leave path).pending.get? p =
    if p = path then (if (r.pending.get? path).getD 0 ≤ 1 then none
      else some ((r.pending.get? path).getD 0 - 1)) else r.pending.get? p := by
  rcases hn : (r.pending.get? path).getD 0 - 1 with _ | k
  · simp only [leave, hn, Table.get?_erase]
    rw [if_pos (show (r.pending.get? path).getD 0 ≤ 1 by omega)]
  · simp only [leave, hn, Table.get?_put]
    rw [if_neg (show ¬ (r.pending.get? path).getD 0 ≤ 1 by omega)]

theorem nextTicket_leave : (r.leave path).nextTicket = r.nextTicket := by
  rw [leave]
  split <;> rfl

theorem tickets_leave_of_ne (hp : p ≠ path) :
    (r.leave path).tickets.get? p = r.tickets.get? p := by
  rw [leave]
  split
  · simp [hp]
  · rfl

/-- The ticket of a path stays while it has another request. -/
theorem tickets_leave_of_two (h : 2 ≤ (r.pending.get? path).getD 0) :
    (r.leave path).tickets = r.tickets := by
  rw [leave]
  split
  · omega
  · rfl

end Requests

/-! ## Steps -/

/-- The update has been requested and has not ended. -/
def Update.inFlight (u : Update) : Bool := u.stage.outcome?.isNone

namespace Session

/-- Something that happens to a session at once. Paths are those of the index. -/
inductive Action where
  | request (path : Text) (hangs : Bool)
  /-- An update goes to its next stage. -/
  | advance (ticket : Nat)
  | updateText (path t : Text)
  | remove (path : Text)
  /-- A scan forgets all modules and finds the files to request. -/
  | scan
  | write (path : Text) (content : Text.Utf8.Bytes)
  | delete (path : Text)
  | tidy
  deriving Repr

/-- The action makes earlier requests for the path stale. -/
def Action.concerns (path : Text) : Action → Bool
  | .request p _ => p == path
  | .updateText p _ => p == path
  | .remove p => p == path
  | .scan => true
  | .advance _ => false
  | .write _ _ => false
  | .delete _ => false
  | .tidy => false

def act (s : Session) : Action → Session
  | .request path hangs => (s.request path hangs).2
  | .advance ticket => s.step ticket
  | .updateText path t => s.become (s.index.updateText path t).2
  | .remove path => s.become (s.index.remove path).2
  | .scan => s.beginScan.2
  | .write path content => s.write path content
  | .delete path => s.delete path
  | .tidy => s.tidy

def run (s : Session) (actions : List Action) : Session := actions.foldl act s

theorem update?_mem {s : Session} {ticket : Nat} {u : Update} (h : s.update? ticket = some u) :
    u ∈ s.updates ∧ u.ticket = ticket :=
  ⟨List.mem_of_find?_eq_some h, by simpa using List.find?_some h⟩

/-- What a step does: nothing; or it takes an update in flight to another stage in flight, without
touching the index; or it records the module of an update that holds the newest ticket; or it ends
an update. -/
theorem step_cases (s : Session) (ticket : Nat) :
    s.step ticket = s ∨ ∃ u, s.update? ticket = some u ∧ u.inFlight = true ∧
      ((∃ stage log, stage.outcome? = none
          ∧ (∀ m, stage ≠ .leaving (.indexed m))
          ∧ (∀ m, stage = .parsed (.found m) →
              ∃ t, s.index.strategy.readModule t u.path = .ok (some m))
          ∧ s.step ticket = { s with log }.moveTo ticket stage)
        ∨ (∃ m, u.stage = .parsed (.found m)
          ∧ s.index.requests.isNewest u.path ticket = true
          ∧ s.step ticket =
            (s.become (s.index.record u.path m)).moveTo ticket (.leaving (.indexed m)))
        ∨ ∃ o, u.stage = .leaving o ∧ s.step ticket = s.settle u o) := by
  rcases hu : s.update? ticket with _ | u
  · exact .inl (by simp only [step, hu])
  obtain ⟨-, rfl⟩ := update?_mem hu
  rcases hs : u.stage with _ | _ | t | reading | o | o
  · by_cases hf : s.index.requests.isFirst u.path u.ticket = true
    · refine .inr ⟨u, rfl, by simp [Update.inFlight, hs, Stage.outcome?], .inl
        ⟨if s.index.requests.isNewest u.path u.ticket then .ready else .leaving .stale, s.log,
          ?_, ?_, ?_, by simp only [step, hu, hs, acquire, hf, if_true]⟩⟩
      · split_ifs <;> rfl
      · split_ifs <;> simp
      · split_ifs <;> simp
    · exact .inl (by simp [step, hu, hs, acquire, hf])
  · refine .inr ⟨u, rfl, by simp [Update.inFlight, hs, Stage.outcome?], .inl ?_⟩
    rcases hd : s.disk.text u.path with f | t
    · exact ⟨.leaving .unreadable, s.log ++ [.cannotRead u.path f], rfl, by simp, by simp,
        by simp only [step, hu, hs, load, hd, say]⟩
    · exact ⟨.loaded t, s.log, rfl, by simp, by simp, by simp only [step, hu, hs, load, hd]⟩
  · refine .inr ⟨u, rfl, by simp [Update.inFlight, hs, Stage.outcome?], .inl
      ⟨.parsed (if u.hangs then .late else .ofResult (s.index.strategy.readModule t u.path)), s.log,
        rfl, by simp, fun m hm => ⟨t, ?_⟩, by simp only [step, hu, hs, parse]⟩⟩
    rcases hr : s.index.strategy.readModule t u.path with e | _ | m' <;>
      cases hh : u.hangs <;> simp_all [Reading.ofResult]
  · have hfly : u.inFlight = true := by simp [Update.inFlight, hs, Stage.outcome?]
    rcases reading with _ | e | _ | m
    · exact .inr ⟨u, rfl, hfly, .inl ⟨.leaving .timedOut, _, rfl, by simp, by simp,
        by simp only [step, hu, hs, conclude, say]; rfl⟩⟩
    · exact .inr ⟨u, rfl, hfly, .inl ⟨.leaving (.failed e), s.log, rfl, by simp, by simp,
        by simp only [step, hu, hs, conclude]⟩⟩
    · refine .inr ⟨u, rfl, hfly, .inl ⟨.leaving
        (if s.index.requests.isNewest u.path u.ticket then .noModule else .stale), s.log, rfl, ?_,
        by simp, by simp only [step, hu, hs, conclude]⟩⟩
      split_ifs <;> simp
    · by_cases hn : s.index.requests.isNewest u.path u.ticket = true
      · exact .inr ⟨u, rfl, hfly, .inr (.inl ⟨m, hs, hn,
          by simp only [step, hu, hs, conclude, hn, if_true]⟩)⟩
      · exact .inr ⟨u, rfl, hfly, .inl ⟨.leaving .stale, s.log, rfl, by simp, by simp,
          by simp [step, hu, hs, conclude, hn]⟩⟩
  · exact .inr ⟨u, rfl, by simp [Update.inFlight, hs, Stage.outcome?],
      .inr (.inr ⟨o, hs, by simp only [step, hu, hs]⟩)⟩
  · exact .inl (by simp only [step, hu, hs])

/-! ## Updates in flight -/

/-- The number of updates of a path in flight. -/
def flying (s : Session) (path : Text) : Nat :=
  s.updates.countP fun u => u.path == path && u.inFlight

@[simp] theorem moveTo_index (s : Session) (ticket : Nat) (stage : Stage) :
    (s.moveTo ticket stage).index = s.index := rfl

theorem mem_moveTo {s : Session} {ticket : Nat} {stage : Stage} {v : Update}
    (h : v ∈ (s.moveTo ticket stage).updates) :
    ∃ u ∈ s.updates, v = if u.ticket = ticket then { u with stage } else u := by
  obtain ⟨u, hu, rfl⟩ := List.mem_map.1 h
  exact ⟨u, hu, rfl⟩

theorem tickets_moveTo (s : Session) (ticket : Nat) (stage : Stage) :
    (s.moveTo ticket stage).updates.map (·.ticket) = s.updates.map (·.ticket) := by
  simp only [moveTo, List.map_map]
  refine List.map_congr_left fun u _ => ?_
  simp only [Function.comp]
  split_ifs <;> rfl

/-- An update in flight that goes to a stage in flight leaves the numbers alone. -/
theorem flying_moveTo {s : Session} {ticket : Nat} {stage : Stage} (hs : stage.outcome? = none)
    (hu : ∀ u ∈ s.updates, u.ticket = ticket → u.inFlight = true) (path : Text) :
    (s.moveTo ticket stage).flying path = s.flying path := by
  simp only [flying, moveTo, List.countP_map]
  refine List.countP_congr fun u hmem => ?_
  simp only [Function.comp]
  split_ifs with ht
  · simp [Update.inFlight, hs, show u.stage.outcome?.isNone = true from hu u hmem ht]
  · rfl

/-- An update in flight that ends is one less for its path. -/
theorem countP_settle {P : Update → Bool} {u : Update} {stage : Stage} :
    ∀ {l : List Update}, (l.map (·.ticket)).Nodup → u ∈ l → P u = true →
      P { u with stage } = false →
      (l.map fun v => if v.ticket = u.ticket then { v with stage } else v).countP P + 1 = l.countP P
  | v :: l, hn, hu, h1, h2 => by
    have hnd : v.ticket ∉ l.map (·.ticket) ∧ (l.map (·.ticket)).Nodup := by simpa using hn
    rcases List.mem_cons.1 hu with rfl | hmem
    · have hid : (l.map fun v => if v.ticket = u.ticket then { v with stage } else v) = l := by
        refine (List.map_congr_left fun w hw => ?_).trans (List.map_id l)
        have hne : w.ticket ≠ u.ticket := fun h => hnd.1 (h ▸ List.mem_map_of_mem hw)
        rw [if_neg hne, id]
      rw [List.map_cons, if_pos rfl, hid, List.countP_cons_of_neg (by simp [h2]),
        List.countP_cons_of_pos h1]
    · have hne : v.ticket ≠ u.ticket := fun h => hnd.1 (h ▸ List.mem_map_of_mem hmem)
      have ih := countP_settle hnd.2 hmem h1 h2
      rw [List.map_cons, if_neg hne, List.countP_cons, List.countP_cons]
      omega

/-! ## What is kept for a path -/

/-- Tickets are given out once, and the number of requests kept for a path is that of its updates
in flight. -/
structure Booked (s : Session) : Prop where
  tickets_lt : ∀ u ∈ s.updates, u.ticket < s.index.requests.nextTicket
  tickets_nodup : (s.updates.map (·.ticket)).Nodup
  pending : ∀ p, s.index.requests.pending.get? p =
    if s.flying p = 0 then none else some (s.flying p)

/-- Nothing is under way. -/
structure Idle (s : Session) : Prop where
  updates : s.updates = []
  tickets : s.index.requests.tickets = []
  pending : s.index.requests.pending = []
  lines : s.index.requests.lines = []

theorem Idle.booked {s : Session} (h : s.Idle) : s.Booked where
  tickets_lt u hu := by simp [h.updates] at hu
  tickets_nodup := by simp [h.updates]
  pending p := by simp [flying, h.updates, h.pending]

section Frames

variable (s : Session) (x : Index) (path t : Text)

theorem requests_updateText : (x.updateText path t).2.1.requests = x.requests.outdate path := by
  simp only [Index.updateText]
  split <;> rfl

theorem strategy_updateText : (x.updateText path t).2.1.strategy = x.strategy := by
  simp only [Index.updateText]
  split <;> rfl

/-- The first part of a scan forgets the modules, makes all requests stale and leaves the updates
alone. -/
theorem beginScan_frame : s.beginScan.2.updates = s.updates ∧ s.beginScan.2.disk = s.disk
    ∧ s.beginScan.2.index.requests = s.index.requests.outdateAll
    ∧ s.beginScan.2.index.tables = s.index.tables.clear
    ∧ s.beginScan.2.index.strategy = s.index.strategy := by
  rcases hd : Discovery.discover s.disk s.index.root s.index.config with e | ⟨found, notices⟩ <;>
    simp [beginScan, discover, Index.discover, Index.clear, hd, bind, Except.bind, pure,
      Except.pure, become, say]

end Frames

/-- Only updates, the numbers of requests and the next ticket matter. -/
theorem Booked.of_same {s s' : Session} (h : s.Booked) (hu : s'.updates = s.updates)
    (hp : s'.index.requests.pending = s.index.requests.pending)
    (hn : s.index.requests.nextTicket ≤ s'.index.requests.nextTicket) : s'.Booked where
  tickets_lt u hmem := (h.tickets_lt u (hu ▸ hmem)).trans_le hn
  tickets_nodup := hu ▸ h.tickets_nodup
  pending p := by
    rw [hp, h.pending, flying, flying, hu]

theorem Booked.unique {s : Session} (h : s.Booked) {ticket : Nat} {u v : Update}
    (hu : s.update? ticket = some u) (hv : v ∈ s.updates) (ht : v.ticket = ticket) : v = u := by
  obtain ⟨hmem, rfl⟩ := update?_mem hu
  exact List.inj_on_of_nodup_map h.tickets_nodup hv hmem ht

theorem Booked.getD_pending {s : Session} (h : s.Booked) (p : Text) :
    (s.index.requests.pending.get? p).getD 0 = s.flying p := by
  rw [h.pending]
  split_ifs with h0 <;> simp [h0]

theorem flying_pos {s : Session} {u : Update} (hu : u ∈ s.updates) (hf : u.inFlight = true) :
    0 < s.flying u.path :=
  List.countP_pos_iff.2 ⟨u, hu, by simp [hf]⟩

theorem Booked.contains_pending {s : Session} (h : s.Booked) {u : Update} (hu : u ∈ s.updates)
    (hf : u.inFlight = true) : s.index.requests.pending.contains u.path = true := by
  have := flying_pos hu hf
  rw [Table.contains, h.pending, if_neg (by omega)]
  rfl

/-- An update that ends is one less for its path and the same for the others. -/
theorem flying_settle {s : Session} (h : s.Booked) {u : Update} {o : Outcome}
    (hu : u ∈ s.updates) (hf : u.inFlight = true) (p : Text) :
    (s.settle u o).flying p + (if p = u.path then 1 else 0) = s.flying p := by
  by_cases hp : p = u.path
  · subst hp
    rw [if_pos rfl]
    exact countP_settle h.tickets_nodup hu (by simp [hf])
      (by simp [Update.inFlight, Stage.outcome?])
  · rw [if_neg hp, Nat.add_zero]
    simp only [flying, settle, moveTo, List.countP_map]
    refine List.countP_congr fun v hv => ?_
    simp only [Function.comp]
    split_ifs with ht
    · rw [List.inj_on_of_nodup_map h.tickets_nodup hv hu ht]
      simp [Ne.symm hp]
    · rfl

theorem booked_settle {s : Session} (h : s.Booked) {u : Update} {o : Outcome}
    (hu : u ∈ s.updates) (hf : u.inFlight = true) : (s.settle u o).Booked where
  tickets_lt v hv := by
    obtain ⟨w, hw, rfl⟩ := mem_moveTo hv
    have := h.tickets_lt w hw
    simp only [settle, moveTo_index, Requests.nextTicket_leave]
    split_ifs <;> exact this
  tickets_nodup := by
    rw [settle, tickets_moveTo]
    exact h.tickets_nodup
  pending p := by
    have hfly := flying_settle h (o := o) hu hf p
    have hr : (s.settle u o).index.requests = s.index.requests.leave u.path := rfl
    rw [hr, Requests.pending_leave, h.getD_pending, h.pending, ← hfly]
    by_cases hp : p = u.path
    · subst hp
      rw [if_pos rfl] at hfly
      rw [if_pos rfl, ← hfly, Nat.add_sub_cancel]
      exact if_congr (by omega) rfl rfl
    · simp only [if_neg hp, Nat.add_zero]

/-- A move to a stage in flight keeps the numbers. -/
theorem booked_moveTo {s : Session} (h : s.Booked) (ticket : Nat) (stage : Stage)
    (hs : stage.outcome? = none) (hf : ∀ u ∈ s.updates, u.ticket = ticket → u.inFlight = true) :
    (s.moveTo ticket stage).Booked where
  tickets_lt v hv := by
    obtain ⟨w, hw, rfl⟩ := mem_moveTo hv
    have := h.tickets_lt w hw
    split_ifs <;> exact this
  tickets_nodup := by
    rw [tickets_moveTo]
    exact h.tickets_nodup
  pending p := by
    rw [moveTo_index, h.pending, flying_moveTo hs hf]

theorem booked_step {s : Session} (h : s.Booked) (ticket : Nat) : (s.step ticket).Booked := by
  rcases step_cases s ticket with he | ⟨u, hu, hf, hc⟩
  · rwa [he]
  have hfly : ∀ v ∈ s.updates, v.ticket = ticket → v.inFlight = true := fun v hv ht => by
    rw [h.unique hu hv ht]
    exact hf
  rcases hc with ⟨stage, log, hs, -, -, he⟩ | ⟨m, -, -, he⟩ | ⟨o, -, he⟩
  · rw [he]
    exact booked_moveTo (s := { s with log }) (h.of_same rfl rfl le_rfl) ticket stage hs hfly
  · rw [he]
    exact booked_moveTo (s := s.become _) (h.of_same rfl rfl le_rfl) ticket
      (.leaving (.indexed m)) rfl
      hfly
  · rw [he]
    exact booked_settle h (update?_mem hu).1 hf

theorem flying_request (s : Session) (path : Text) (hangs : Bool) (p : Text) :
    (s.request path hangs).2.flying p = s.flying p + if p = path then 1 else 0 := by
  simp only [flying, request, List.countP_append, List.countP_singleton]
  by_cases hp : p = path
  · simp [hp, Update.inFlight, Stage.outcome?]
  · simp [hp, Ne.symm hp]

theorem flying_tidy (s : Session) (p : Text) : s.tidy.flying p = s.flying p := by
  simp only [flying, tidy, List.countP_filter]
  refine List.countP_congr fun u _ => ?_
  simp only [Update.inFlight, Bool.and_assoc, Bool.and_self]

/-- When every update has ended, tidying leaves nothing under way, if tickets and lines are kept for
no path without updates in flight. -/
theorem Booked.idle_tidy {s : Session} (h : s.Booked) (hnone : ∀ u ∈ s.updates, u.inFlight = false)
    (hfree : ∀ p, s.flying p = 0 →
      s.index.requests.tickets.get? p = none ∧ s.index.requests.lines.get? p = none) :
    s.tidy.Idle := by
  have hfly : ∀ p, s.flying p = 0 := fun p => List.countP_eq_zero.2 fun u hu => by
    simp [hnone u hu]
  refine ⟨List.filter_eq_nil_iff.2 fun u hu => Bool.eq_false_iff.1 (hnone u hu),
    Table.eq_nil_of_get?_none fun p => (hfree p (hfly p)).1,
    Table.eq_nil_of_get?_none fun p => ?_, Table.eq_nil_of_get?_none fun p => (hfree p (hfly p)).2⟩
  rw [tidy, h.pending, hfly, if_pos rfl]

theorem booked_act {s : Session} (h : s.Booked) (a : Action) : (s.act a).Booked := by
  cases a with
  | request path hangs =>
    refine ⟨fun u hu => ?_, ?_, fun p => ?_⟩
    · rcases List.mem_append.1 hu with hu | hu
      · exact (h.tickets_lt u hu).trans (Nat.lt_succ_self _)
      · rw [List.mem_singleton.1 hu]
        exact Nat.lt_succ_self _
    · simp only [act, request, List.map_append, List.nodup_append]
      refine ⟨h.tickets_nodup, by simp, ?_⟩
      rintro a ha b hb rfl
      obtain ⟨u, hu, rfl⟩ := List.mem_map.1 ha
      have := h.tickets_lt u hu
      simp only [List.map_cons, List.map_nil, List.mem_singleton] at hb
      omega
    · rw [act, flying_request]
      simp only [request, Requests.enter, Table.get?_put, h.getD_pending]
      by_cases hp : p = path
      · subst hp
        simp
      · simp [hp, h.pending]
  | advance ticket => exact booked_step h ticket
  | updateText path t =>
    have hr := requests_updateText s.index path t
    exact h.of_same rfl (by rw [act, become, say, hr, Requests.pending_outdate])
      (by rw [act, become, say, hr]; exact Requests.nextTicket_outdate _ _)
  | remove path =>
    exact h.of_same rfl (Requests.pending_outdate _ path) (Requests.nextTicket_outdate _ path)
  | scan =>
    obtain ⟨hu, -, hr, -, -⟩ := beginScan_frame s
    exact h.of_same hu (by rw [act, hr, Requests.pending_outdateAll])
      (by rw [act, hr]; exact Requests.nextTicket_outdateAll _)
  | write path content => exact h.of_same rfl rfl le_rfl
  | delete path => exact h.of_same rfl rfl le_rfl
  | tidy =>
    refine ⟨fun u hu => h.tickets_lt u (List.mem_filter.1 hu).1,
      h.tickets_nodup.sublist (List.filter_sublist.map _), fun p => ?_⟩
    rw [act, flying_tidy]
    exact h.pending p

theorem booked_run {s : Session} (h : s.Booked) (actions : List Action) :
    (s.run actions).Booked := by
  induction actions generalizing s with
  | nil => exact h
  | cons a as ih => exact ih (booked_act h a)

/-! ## Stale and newest tickets -/

/-- What is known of an update since its request: while it is in flight, its ticket is the newest
of its path unless something has concerned the path, and then there is a newer one. -/
structure Follows (s : Session) (ticket : Nat) (path : Text) (concerned : Bool) : Prop where
  ticket_lt : ticket < s.index.requests.nextTicket
  path_eq : ∀ u ∈ s.updates, u.ticket = ticket → u.path = path
  newest : ∀ u ∈ s.updates, u.ticket = ticket → u.inFlight = true →
    ∃ k, s.index.requests.tickets.get? path = some k ∧ ticket ≤ k ∧ (k = ticket ↔ concerned = false)

theorem follows_request {s : Session} (h : s.Booked) (path : Text) (hangs : Bool) :
    (s.request path hangs).2.Follows (s.request path hangs).1 path false where
  ticket_lt := Nat.lt_succ_self _
  path_eq u hu ht := by
    rcases List.mem_append.1 hu with hu | hu
    · exact absurd ht (h.tickets_lt u hu).ne
    · rw [List.mem_singleton.1 hu]
  newest u hu ht _ := by
    refine ⟨s.index.requests.nextTicket, ?_, le_rfl, by simp [request]⟩
    exact (Requests.tickets_supersede _ path path).trans (if_pos rfl)

section Follows

variable {s : Session} {ticket : Nat} {path : Text} {c : Bool}

/-- What leaves the updates and the newest ticket of the path alone does not matter. -/
theorem Follows.of_same (h : s.Follows ticket path c) (s' : Session)
    (hu : s'.updates = s.updates)
    (ht : s'.index.requests.tickets.get? path = s.index.requests.tickets.get? path)
    (hn : s.index.requests.nextTicket ≤ s'.index.requests.nextTicket) :
    s'.Follows ticket path c where
  ticket_lt := h.ticket_lt.trans_le hn
  path_eq u hmem := h.path_eq u (hu ▸ hmem)
  newest u hmem he hf := by
    rw [ht]
    exact h.newest u (hu ▸ hmem) he hf

/-- A ticket given out later makes the update stale. -/
theorem Follows.of_newer {s' : Session} (h : s.Follows ticket path c)
    (hu : s'.updates = s.updates)
    (ht : ∀ u ∈ s.updates, u.path = path → u.inFlight = true →
      ∃ k, s.index.requests.nextTicket ≤ k ∧ s'.index.requests.tickets.get? path = some k)
    (hn : s.index.requests.nextTicket ≤ s'.index.requests.nextTicket) :
    s'.Follows ticket path true where
  ticket_lt := h.ticket_lt.trans_le hn
  path_eq u hmem := h.path_eq u (hu ▸ hmem)
  newest u hmem he hf := by
    obtain ⟨k, hk, hget⟩ := ht u (hu ▸ hmem) (h.path_eq u (hu ▸ hmem) he) hf
    have := h.ticket_lt
    exact ⟨k, hget, by omega, by simp; omega⟩

/-- A move to another stage in flight leaves all tickets alone. -/
theorem Follows.moveTo (h : s.Follows ticket path c) (hb : s.Booked) {t : Nat} {u : Update}
    {stage : Stage} (hu : s.update? t = some u) (hf : u.inFlight = true) :
    (s.moveTo t stage).Follows ticket path c where
  ticket_lt := h.ticket_lt
  path_eq v hv ht := by
    obtain ⟨w, hw, rfl⟩ := mem_moveTo hv
    split_ifs at ht ⊢ <;> exact h.path_eq w hw ht
  newest v hv ht hfv := by
    obtain ⟨w, hw, rfl⟩ := mem_moveTo hv
    split_ifs at ht hfv with hwt
    · exact h.newest w hw ht (by rw [hb.unique hu hw hwt]; exact hf)
    · exact h.newest w hw ht hfv

/-- An update that ends takes the ticket of its path along only if it was the last in flight. -/
theorem Follows.settle (h : s.Follows ticket path c) (hb : s.Booked) {u : Update} {o : Outcome}
    (hu : u ∈ s.updates) (hf : u.inFlight = true) : (s.settle u o).Follows ticket path c where
  ticket_lt := by
    simp only [Session.settle, moveTo_index, Requests.nextTicket_leave]
    exact h.ticket_lt
  path_eq v hv ht := by
    obtain ⟨w, hw, rfl⟩ := mem_moveTo hv
    split_ifs at ht ⊢ <;> exact h.path_eq w hw ht
  newest v hv ht hfv := by
    obtain ⟨w, hw, rfl⟩ := mem_moveTo hv
    split_ifs at ht hfv with hwt
    · simp [Update.inFlight, Stage.outcome?] at hfv
    obtain ⟨k, hk⟩ := h.newest w hw ht hfv
    have hwp := h.path_eq w hw ht
    refine ⟨k, ?_, hk.2⟩
    simp only [Session.settle, moveTo_index]
    by_cases hp : path = u.path
    · rw [Requests.tickets_leave_of_two, hk.1]
      have hfly := flying_settle hb (o := o) hu hf u.path
      rw [if_neg hwt] at hv
      have hpos : 0 < (s.settle u o).flying w.path := flying_pos hv hfv
      rw [hb.getD_pending]
      rw [hwp, hp] at hpos
      rw [if_pos rfl] at hfly
      omega
    · rw [Requests.tickets_leave_of_ne _ _ _ hp, hk.1]

theorem Follows.step (h : s.Follows ticket path c) (hb : s.Booked) (t : Nat) :
    (s.step t).Follows ticket path c := by
  rcases step_cases s t with he | ⟨u, hu, hf, ⟨stage, log, -, -, -, he⟩ | ⟨m, -, -, he⟩ |
    ⟨o, -, he⟩⟩
  · rwa [he]
  · rw [he]
    exact (h.of_same { s with log } rfl rfl le_rfl).moveTo (hb.of_same rfl rfl le_rfl) hu hf
  · rw [he]
    exact (h.of_same (s.become (s.index.record u.path m)) rfl rfl le_rfl).moveTo
      (hb.of_same rfl rfl le_rfl) hu hf
  · rw [he]
    exact h.settle hb (update?_mem hu).1 hf

theorem Follows.append (h : s.Follows ticket path c) {v : Update} (hv : ticket ≠ v.ticket) :
    { s with updates := s.updates ++ [v] }.Follows ticket path c where
  ticket_lt := h.ticket_lt
  path_eq u hu ht := by
    rcases List.mem_append.1 hu with hu | hu
    · exact h.path_eq u hu ht
    · exact absurd (ht.symm.trans (congrArg _ (List.mem_singleton.1 hu))) hv
  newest u hu ht := by
    rcases List.mem_append.1 hu with hu | hu
    · exact h.newest u hu ht
    · exact absurd (ht.symm.trans (congrArg _ (List.mem_singleton.1 hu))) hv

/-- A new ticket for some path is newer than the update's if it is the same path. -/
theorem Follows.supersede (h : s.Follows ticket path c) (q : Text) (s' : Session)
    (hu : s'.updates = s.updates)
    (hq : ∀ u ∈ s.updates, u.path = q → u.inFlight = true →
      s'.index.requests.tickets.get? q = some s.index.requests.nextTicket)
    (hne : path ≠ q → s'.index.requests.tickets.get? path = s.index.requests.tickets.get? path)
    (hn : s.index.requests.nextTicket ≤ s'.index.requests.nextTicket) :
    s'.Follows ticket path (c || q == path) := by
  by_cases hp : q = path
  · subst hp
    rw [beq_self_eq_true, Bool.or_true]
    exact h.of_newer hu (fun u hmem hup hf => ⟨_, le_rfl, hq u hmem hup hf⟩) hn
  · rw [beq_false_of_ne hp, Bool.or_false]
    exact h.of_same s' hu (hne (Ne.symm hp)) hn

theorem follows_act (h : s.Follows ticket path c) (hb : s.Booked) (a : Action) :
    (s.act a).Follows ticket path (c || a.concerns path) := by
  cases a with
  | request q hangs =>
    have hs := h.supersede q { s with
      index := { s.index with requests := s.index.requests.enter q } } rfl
      (fun _ _ _ _ => (Requests.tickets_supersede _ q q).trans (if_pos rfl))
      (fun hp => (Requests.tickets_supersede _ q path).trans (if_neg hp)) (Nat.le_succ _)
    exact hs.append (v := { path := q, ticket := s.index.requests.nextTicket, hangs })
      h.ticket_lt.ne
  | advance t =>
    rw [Action.concerns, Bool.or_false]
    exact h.step hb t
  | updateText q t =>
    have hr := requests_updateText s.index q t
    refine h.supersede q (s.act (.updateText q t)) rfl (fun u hu hp hf => ?_) (fun hp => ?_) ?_
    · rw [act, become, say, hr]
      exact Requests.tickets_outdate _ q (hp ▸ hb.contains_pending hu hf)
    · rw [act, become, say, hr]
      exact Requests.tickets_outdate_of_ne _ q path hp
    · rw [act, become, say, hr]
      exact Requests.nextTicket_outdate _ q
  | remove q =>
    exact h.supersede q (s.act (.remove q)) rfl
      (fun u hu hp hf => Requests.tickets_outdate _ q (hp ▸ hb.contains_pending hu hf))
      (fun hp => Requests.tickets_outdate_of_ne _ q path hp) (Requests.nextTicket_outdate _ q)
  | scan =>
    obtain ⟨hu, -, hr, -, -⟩ := beginScan_frame s
    rw [Action.concerns, Bool.or_true]
    refine h.of_newer hu (fun u hmem hp hf => ?_) ?_
    · rw [act, hr]
      exact Requests.tickets_outdateAll _ path (hp ▸ hb.contains_pending hmem hf)
    · rw [act, hr]
      exact Requests.nextTicket_outdateAll _
  | write q content =>
    rw [Action.concerns, Bool.or_false]
    exact h.of_same (s.write q content) rfl rfl le_rfl
  | delete q =>
    rw [Action.concerns, Bool.or_false]
    exact h.of_same (s.delete q) rfl rfl le_rfl
  | tidy =>
    rw [Action.concerns, Bool.or_false]
    exact ⟨h.ticket_lt, fun u hu => h.path_eq u (List.mem_filter.1 hu).1,
      fun u hu => h.newest u (List.mem_filter.1 hu).1⟩

theorem follows_run (h : s.Follows ticket path c) (hb : s.Booked) (actions : List Action) :
    (s.run actions).Follows ticket path (c || actions.any (Action.concerns path)) := by
  induction actions generalizing s c with
  | nil => rwa [List.any_nil, Bool.or_false]
  | cons a as ih =>
    have := ih (follows_act h hb a) (booked_act hb a)
    rwa [Bool.or_assoc, ← List.any_cons] at this

/-- The ticket check of an update in flight tells whether something has concerned its path. -/
theorem Follows.isNewest_iff (h : s.Follows ticket path c) {u : Update}
    (hu : s.update? ticket = some u) (hf : u.inFlight = true) :
    s.index.requests.isNewest path ticket = true ↔ c = false := by
  obtain ⟨k, hget, -, hk⟩ := h.newest u (update?_mem hu).1 (update?_mem hu).2 hf
  rw [Requests.isNewest, hget, ← hk]
  simp

end Follows

/-! ## The newest request wins -/

theorem update?_moveTo_eq (s : Session) (ticket : Nat) (stage : Stage) (t : Nat) :
    (s.moveTo ticket stage).update? t =
      (s.update? t).map fun u => if u.ticket = ticket then { u with stage } else u := by
  have hcomp : (fun v : Update => v.ticket == t) ∘
      (fun v => if v.ticket = ticket then { v with stage } else v) = fun v => v.ticket == t := by
    funext v
    simp only [Function.comp]
    split_ifs <;> rfl
  rw [update?, moveTo, List.find?_map, hcomp, update?]

theorem update?_moveTo {s : Session} {ticket : Nat} {u : Update} (h : s.update? ticket = some u)
    (stage : Stage) : (s.moveTo ticket stage).update? ticket = some { u with stage } := by
  rw [update?_moveTo_eq, h, Option.map_some, if_pos (update?_mem h).2]

theorem stage?_eq_some {s : Session} {ticket : Nat} {stage : Stage}
    (h : s.stage? ticket = some stage) : ∃ u, s.update? ticket = some u ∧ u.stage = stage :=
  Option.map_eq_some_iff.1 h

/-- The tables change in a step only when it records the module of the newest request. -/
theorem tables_step {s : Session} {ticket : Nat}
    (h : ∀ u m, s.update? ticket = some u → u.stage = .parsed (.found m) →
      s.index.requests.isNewest u.path ticket = false) :
    (s.step ticket).index.tables = s.index.tables := by
  rcases step_cases s ticket with he | ⟨u, hu, -, ⟨stage, log, -, -, -, he⟩ | ⟨m, hs, hn, he⟩ |
    ⟨o, -, he⟩⟩
  · rw [he]
  · rw [he]
    rfl
  · rw [h u m hu hs] at hn
    cases hn
  · rw [he]
    rfl

/-- For every run before and after a request: while the update is in flight, its ticket is the
newest one of its path if and only if nothing has concerned the path since the request. If so, the
step after the module was read records it; in any other case the update's next step leaves the
tables as they are. -/
theorem newest_request_wins {s₀ : Session} (h₀ : s₀.Idle) (before between : List Action)
    (path : Text) (hangs : Bool) :
    let asked := (s₀.run before).request path hangs
    let s := asked.2.run between
    (∀ stage, s.stage? asked.1 = some stage → stage.outcome? = none →
      (s.index.requests.isNewest path asked.1 = true ↔ ∀ a ∈ between, a.concerns path = false))
    ∧ (∀ m, s.stage? asked.1 = some (.parsed (.found m)) →
      (∀ a ∈ between, a.concerns path = false) →
      (s.step asked.1).index.tables = (s.index.tables.apply path m).1
        ∧ (s.step asked.1).stage? asked.1 = some (.leaving (.indexed m)))
    ∧ ((∃ a ∈ between, a.concerns path = true)
        ∨ (∀ m, s.stage? asked.1 ≠ some (.parsed (.found m))) →
      (s.step asked.1).index.tables = s.index.tables) := by
  intro asked s
  have hb := booked_run h₀.booked before
  have hF := follows_run (follows_request hb path hangs) (booked_act hb (.request path hangs))
    between
  rw [Bool.false_or] at hF
  have hc : between.any (Action.concerns path) = false ↔
      ∀ a ∈ between, a.concerns path = false := by
    simp
  have hnewest : ∀ u, s.update? asked.1 = some u → u.inFlight = true →
      (s.index.requests.isNewest path asked.1 = true ↔ ∀ a ∈ between, a.concerns path = false) :=
    fun u hu hf => (hF.isNewest_iff hu hf).trans hc
  refine ⟨fun stage hs ho => ?_, fun m hs hq => ?_, fun hno => ?_⟩
  · obtain ⟨u, hu, rfl⟩ := stage?_eq_some hs
    exact hnewest u hu (by rw [Update.inFlight, ho]; rfl)
  · obtain ⟨u, hu, hus⟩ := stage?_eq_some hs
    obtain ⟨hmem, ht⟩ := update?_mem hu
    have hn := (hnewest u hu (by rw [Update.inFlight, hus]; rfl)).2 hq
    have hp : u.path = path := hF.path_eq u hmem ht
    have hstep : s.step asked.1 =
        (s.become (s.index.record path m)).moveTo asked.1 (.leaving (.indexed m)) := by
      simp only [step, hu, hus, conclude, hp, ht, hn, if_true]
    rw [hstep]
    refine ⟨rfl, ?_⟩
    have hu' : (s.become (s.index.record path m)).update? asked.1 = some u := hu
    rw [stage?, update?_moveTo hu' _, Option.map_some]
  · refine tables_step fun u m hu hus => ?_
    obtain ⟨hmem, ht⟩ := update?_mem hu
    rcases hno with ⟨a, ha, hac⟩ | hno
    · rw [Bool.eq_false_iff, hF.path_eq u hmem ht]
      intro hn
      have := (hnewest u hu (by rw [Update.inFlight, hus]; rfl)).1 hn a ha
      rw [hac] at this
      cases this
    · exact absurd (by rw [stage?, hu, Option.map_some, hus]) (hno m)

/-- Of two requests for one file that overlap, the older one records nothing, although its module
is there. -/
theorem older_request_is_stale :
    let s₀ : Session := { disk := ⟨[("a".toList, .file (some []))], "/"⟩, index := {
      root := "/"
      strategy := ⟨fun _ p => .ok (some { name := "m", file := p, location := ⟨p, 0, 0, 0⟩ })⟩ } }
    let between := [Action.advance 1, .advance 1, .advance 1, .request "/a" false]
    let s := ((s₀.run []).request "/a" false).2.run between
    s₀.Idle ∧ (∃ m, s.stage? 1 = some (.parsed (.found m)))
      ∧ (s.step 1).index.tables = s.index.tables := by
  intro s₀ between s
  have hidle : s₀.Idle := ⟨rfl, rfl, rfl, rfl⟩
  have hconcerns : ∃ a ∈ between, a.concerns "/a" = true :=
    ⟨.request "/a" false, by simp [between], rfl⟩
  obtain ⟨-, -, hstale⟩ := newest_request_wins hidle [] between "/a" false
  have hs : s = ((s₀.run []).request "/a" false).2.run between := rfl
  have hticket : 1 = ((s₀.run []).request "/a" false).1 := rfl
  refine ⟨hidle, ⟨_, by rfl⟩, ?_⟩
  rw [hs, hticket]
  exact hstale (.inl hconcerns)

end Session

end VerilogIndex
