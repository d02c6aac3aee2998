import VerilogIndex.Proofs.Reachable
import VerilogIndex.Proofs.Refresh

/-!
# Updates that fail

An update fails if its file cannot be read, if its text takes too long, makes the reader fail or
has no module, or if there is a newer request for its path. From then on it can only end as that
failure allows (`Session.Doomed`), whatever comes in between, so none of its steps touches the
tables; and its last step gives back what is kept for it. Main statement:
`failed_update_keeps_tables`.
-/

namespace VerilogIndex

/-- What an update fails for. -/
inductive Failure where
  | unreadable
  | late
  | raised (e : Elaboration.Error)
  | noModule
  /-- There is a newer request for the path. -/
  | superseded
  deriving DecidableEq, Repr

/-- An update that fails so may end like this. An update that found no module is stale if there is
a newer request when it ends, and one that is superseded may fail for another reason first. -/
def Failure.Admits : Failure → Outcome → Prop
  | .unreadable, o => o = .unreadable
  | .late, o => o = .timedOut
  | .raised e, o => o = .failed e
  | .noModule, o => o = .noModule ∨ o = .stale
  | .superseded, o => o ≠ .noModule ∧ ∀ m, o ≠ .indexed m

theorem Failure.Admits.result {f : Failure} {o : Outcome} (h : f.Admits o) (m : Module) :
    o.result ≠ .ok (some m) := by
  rintro hm
  obtain rfl : o = .indexed m := by
    cases o <;> simp_all [Outcome.result]
  cases f <;> simp [Admits] at h

/-- The reading can only lead to outcomes that the failure admits. -/
def Reading.Dooms (f : Failure) : Reading → Prop
  | .late => f.Admits .timedOut
  | .failed e => f.Admits (.failed e)
  | .noModule => f.Admits .noModule ∧ f.Admits .stale
  | .found _ => False

/-- The failure has shown in this stage. -/
def Stage.Dooms (f : Failure) : Stage → Prop
  | .waiting => False
  | .ready => False
  | .loaded _ => False
  | .parsed r => r.Dooms f
  | .leaving o => f.Admits o
  | .settled o => f.Admits o

/-- No outcome is fixed yet. -/
def Stage.isOpen : Stage → Bool
  | .leaving _ => false
  | .settled _ => false
  | _ => true

/-- The steps that are left for an update that holds its lock. -/
def Stage.left : Stage → Nat
  | .waiting => 5
  | .ready => 4
  | .loaded _ => 3
  | .parsed _ => 2
  | .leaving _ => 1
  | .settled _ => 0

namespace Session

/-- The next stage of the update fails. -/
inductive Fails (s : Session) (u : Update) : Failure → Prop
  | unreadable {f : Disk.Failure} (hs : u.stage = .ready) (hd : s.disk.text u.path = .error f) :
    Fails s u .unreadable
  | late {t : Text} (hs : u.stage = .loaded t) (hh : u.hangs = true) : Fails s u .late
  | raised {t : Text} {e : Elaboration.Error} (hs : u.stage = .loaded t) (hh : u.hangs = false)
    (hr : s.index.strategy.readModule t u.path = .error e) : Fails s u (.raised e)
  | noModule {t : Text} (hs : u.stage = .loaded t) (hh : u.hangs = false)
    (hr : s.index.strategy.readModule t u.path = .ok none) : Fails s u .noModule
  | superseded (hs : u.stage.isOpen = true)
    (hn : s.index.requests.isNewest u.path u.ticket = false) : Fails s u .superseded

/-! ## One step -/

/-- The stage after the next one of its steps. -/
def nextStage (s : Session) (u : Update) : Stage :=
  let newest := s.index.requests.isNewest u.path u.ticket
  match u.stage with
  | .waiting =>
    if s.index.requests.isFirst u.path u.ticket then
      if newest then .ready else .leaving .stale
    else .waiting
  | .ready =>
    match s.disk.text u.path with
    | .ok t => .loaded t
    | .error _ => .leaving .unreadable
  | .loaded t =>
    .parsed (if u.hangs then .late else .ofResult (s.index.strategy.readModule t u.path))
  | .parsed .late => .leaving .timedOut
  | .parsed (.failed e) => .leaving (.failed e)
  | .parsed .noModule => .leaving (if newest then .noModule else .stale)
  | .parsed (.found m) => .leaving (if newest then .indexed m else .stale)
  | .leaving o => .settled o
  | .settled o => .settled o

theorem update?_step_self {s : Session} {u : Update} (hu : s.update? u.ticket = some u) :
    (s.step u.ticket).update? u.ticket = some { u with stage := s.nextStage u } := by
  have hmove : ∀ (s' : Session) (stage : Stage), s'.updates = s.updates →
      (s'.moveTo u.ticket stage).update? u.ticket = some { u with stage } := fun s' stage hs =>
    update?_moveTo (by rw [update?, hs]; exact hu) stage
  have hsame : ∀ stage, u.stage = stage → s.update? u.ticket = some { u with stage } := by
    rintro _ rfl
    exact hu
  simp only [step, hu, nextStage]
  rcases hs : u.stage with _ | _ | t | reading | o | o
  · by_cases hf : s.index.requests.isFirst u.path u.ticket = true
    · simp only [acquire, if_pos hf]
      exact hmove s _ rfl
    · simp only [acquire, if_neg hf]
      exact hsame _ hs
  · rcases hd : s.disk.text u.path with e | t <;> simp only [load, hd]
    · exact hmove (s.say _) _ rfl
    · exact hmove s _ rfl
  · exact hmove s _ rfl
  · rcases reading with _ | e | _ | m
    · exact hmove (s.say _) _ rfl
    · exact hmove s _ rfl
    · exact hmove s _ rfl
    · by_cases hn : s.index.requests.isNewest u.path u.ticket = true
      · simp only [conclude, if_pos hn]
        exact hmove (s.become _) _ rfl
      · simp only [conclude, if_neg hn]
        exact hmove s _ rfl
  · exact hmove { s with index := { s.index with requests := s.index.requests.leave u.path } } _ rfl
  · exact hsame _ hs

section NextStage

variable {s : Session} {u : Update} {f : Failure}

/-- A failure that has shown stays. -/
theorem dooms_nextStage (h : u.stage.Dooms f) : (s.nextStage u).Dooms f := by
  simp only [nextStage]
  rcases hs : u.stage with _ | _ | t | (_ | e | _ | m) | o | o <;> rw [hs] at h
  · exact h.elim
  · exact h.elim
  · exact h.elim
  · exact h
  · exact h
  · dsimp only
    split_ifs
    · exact h.1
    · exact h.2
  · exact h.elim
  · exact h
  · exact h

/-- A failure shows in the step that fails, or the update is superseded. -/
theorem Fails.dooms_nextStage (h : s.Fails u f) (hf : f ≠ .superseded) :
    (s.nextStage u).Dooms f := by
  simp only [nextStage]
  cases h with
  | unreadable hs hd => simp only [hs, hd]; rfl
  | late hs hh => simp only [hs, hh]; rfl
  | raised hs hh hr => simp only [hs, hh, hr]; rfl
  | noModule hs hh hr => simp only [hs, hh, hr]; exact ⟨.inl rfl, .inr rfl⟩
  | superseded => exact absurd rfl hf

/-- A superseded update goes on, or ends with an outcome of a superseded one. -/
theorem superseded_nextStage (hs : u.stage.isOpen = true)
    (hn : s.index.requests.isNewest u.path u.ticket = false) :
    (s.nextStage u).isOpen = true ∨ (s.nextStage u).Dooms .superseded := by
  have hdooms : ∀ o, o ≠ .noModule → (∀ m, o ≠ .indexed m) →
      (Stage.leaving o).isOpen = true ∨ (Stage.leaving o).Dooms .superseded :=
    fun o h1 h2 => .inr ⟨h1, h2⟩
  simp only [nextStage, hn]
  rcases hstage : u.stage with _ | _ | t | (_ | e | _ | m) | o | o
  · by_cases hf : s.index.requests.isFirst u.path u.ticket = true
    · rw [if_pos hf]
      exact hdooms .stale (by simp) (by simp)
    · rw [if_neg hf]
      exact .inl rfl
  · rcases s.disk.text u.path with e | t
    · exact hdooms .unreadable (by simp) (by simp)
    · exact .inl rfl
  · exact .inl rfl
  · exact hdooms .timedOut (by simp) (by simp)
  · exact hdooms (.failed e) (by simp) (by simp)
  · exact hdooms .stale (by simp) (by simp)
  · exact hdooms .stale (by simp) (by simp)
  · rw [hstage] at hs
    cases hs
  · rw [hstage] at hs
    cases hs

/-- An update that holds its lock comes nearer to its end. -/
theorem left_nextStage (hs : u.stage ≠ .waiting) : (s.nextStage u).left ≤ u.stage.left - 1 := by
  simp only [nextStage]
  rcases hstage : u.stage with _ | _ | t | (_ | e | _ | m) | o | o
  case ready => rcases s.disk.text u.path with e | t <;> simp [Stage.left]
  all_goals first | exact absurd hstage hs | exact le_rfl

theorem left_lt_five {stage : Stage} : stage.left < 5 ↔ stage ≠ .waiting := by
  cases stage <;> simp [Stage.left]

end NextStage

/-- Four steps end an update that holds its lock. -/
theorem settled_of_steps : ∀ (n : Nat) {s : Session} {u : Update}, s.update? u.ticket = some u →
    u.stage ≠ .waiting → u.stage.left ≤ n →
    ∃ o, (s.run (List.replicate n (.advance u.ticket))).stage? u.ticket = some (.settled o)
  | 0, s, u, hu, _, hn => by
    rw [List.replicate_zero, run, List.foldl_nil, stage?, hu]
    rcases hs : u.stage with _ | _ | _ | _ | _ | o <;> rw [hs] at hn <;>
      simp only [Stage.left] at hn
    · omega
    · omega
    · omega
    · omega
    · omega
    · exact ⟨o, by rw [Option.map_some, hs]⟩
  | n + 1, s, u, hu, hw, hn => by
    have hleft : (s.nextStage u).left ≤ u.stage.left - 1 := left_nextStage hw
    have hfive := left_lt_five.2 hw
    exact settled_of_steps n (u := { u with stage := s.nextStage u }) (update?_step_self hu)
      (left_lt_five.1 (show (s.nextStage u).left < 5 by omega))
      (show (s.nextStage u).left ≤ n by omega)

/-! ## Whatever comes in between -/

/-- Actions other than its own steps leave an update alone, or forget it when it has ended. -/
theorem update?_act {s : Session} (hb : s.Booked) {ticket : Nat}
    (ht : ticket < s.index.requests.nextTicket) {a : Action}
    (ha : ∀ t, a = .advance t → t ≠ ticket) {u : Update} (hu : (s.act a).update? ticket = some u) :
    s.update? ticket = some u := by
  have hsame : (s.act a).updates = s.updates → s.update? ticket = some u := fun h => by
    rw [update?, h] at hu
    exact hu
  cases a with
  | request path hangs =>
    simp only [act, update?, request, List.find?_append] at hu
    rcases hfind : s.updates.find? (fun v => v.ticket == ticket) with _ | v
    · rw [hfind] at hu
      simp [ht.ne'] at hu
    · rw [hfind] at hu
      rw [update?, hfind]
      exact hu
  | advance t =>
    have hne := ha t rfl
    rcases hold : s.update? ticket with _ | v
    · rcases updates_step s t with he | ⟨w, stage, -, -, he⟩
      · exact absurd (hsame he) (by simp [hold])
      · rw [act, update?, he, ← update?, update?_moveTo_eq, hold] at hu
        cases hu
    · obtain ⟨stage, hstage, hkeep⟩ := update?_step hold t
      rw [act, hstage, hkeep hne.symm] at hu
      exact hu
  | updateText path t => exact hsame rfl
  | remove path => exact hsame rfl
  | scan => exact hsame (beginScan_frame s).1
  | write path content => exact hsame rfl
  | delete path => exact hsame rfl
  | tidy =>
    obtain ⟨hmem, rfl⟩ := update?_mem hu
    exact update?_of_mem hb (List.mem_filter.1 hmem).1

/-- The update of the path can only end as the failure allows: the failure has shown, or the update
goes on and there is a newer request. -/
structure Doomed (s : Session) (ticket : Nat) (path : Text) (concerned : Bool) (f : Failure) :
    Prop where
  booked : s.Booked
  follows : s.Follows ticket path concerned
  stage : ∀ u, s.update? ticket = some u → u.stage.Dooms f
    ∨ f = .superseded ∧ u.stage.isOpen = true ∧ concerned = true

section Doomed

variable {s : Session} {ticket : Nat} {path : Text} {c : Bool} {f : Failure}

theorem inFlight_of_isOpen {u : Update} (h : u.stage.isOpen = true) : u.inFlight = true := by
  rw [Update.inFlight]
  rcases hs : u.stage with _ | _ | _ | _ | _ | _ <;> first | rfl | (rw [hs] at h; cases h)

theorem Follows.stale {u : Update} (h : s.Follows ticket path true)
    (hu : s.update? ticket = some u) (hs : u.stage.isOpen = true) :
    s.index.requests.isNewest u.path ticket = false := by
  rw [Bool.eq_false_iff, ne_eq, h.path_eq u (update?_mem hu).1 (update?_mem hu).2,
    h.isNewest_iff hu (inFlight_of_isOpen hs)]
  simp

theorem Doomed.tables_step (h : s.Doomed ticket path c f) :
    (s.step ticket).index.tables = s.index.tables := by
  refine Session.tables_step fun u m hu hs => ?_
  rcases h.stage u hu with hd | ⟨-, hopen, rfl⟩
  · rw [hs] at hd
    exact hd.elim
  · exact h.follows.stale hu hopen

theorem Doomed.step_self (h : s.Doomed ticket path c f) :
    (s.step ticket).Doomed ticket path c f where
  booked := booked_step h.booked ticket
  follows := h.follows.step h.booked ticket
  stage v hv := by
    rcases hu : s.update? ticket with _ | u
    · simp only [step, hu] at hv
      cases hv
    obtain ⟨-, rfl⟩ := update?_mem hu
    rw [update?_step_self hu] at hv
    cases hv
    rcases h.stage u hu with hd | ⟨rfl, hopen, rfl⟩
    · exact .inl (dooms_nextStage hd)
    · rcases superseded_nextStage hopen (h.follows.stale hu hopen) with ho | hd
      · exact .inr ⟨rfl, ho, rfl⟩
      · exact .inl hd

theorem Doomed.act (h : s.Doomed ticket path c f) (a : Action) :
    ∃ c, (s.act a).Doomed ticket path c f := by
  by_cases ha : a = .advance ticket
  · subst ha
    exact ⟨c, h.step_self⟩
  · refine ⟨_, booked_act h.booked a, follows_act h.follows h.booked a, fun u hu => ?_⟩
    have hold := update?_act h.booked h.follows.ticket_lt
      (fun t hat htt => ha (hat.trans (congrArg _ htt))) hu
    rcases h.stage u hold with hd | ⟨hf, hopen, rfl⟩
    · exact .inl hd
    · exact .inr ⟨hf, hopen, Bool.true_or _⟩

theorem Doomed.run (h : s.Doomed ticket path c f) (actions : List Action) :
    ∃ c, (s.run actions).Doomed ticket path c f := by
  induction actions generalizing s c with
  | nil => exact ⟨c, h⟩
  | cons a as ih =>
    obtain ⟨c', h'⟩ := h.act a
    exact ih h'

end Doomed

/-! ## Failed updates -/

/-- Requests are counted, and every update is followed since its request. -/
structure Tracked (s : Session) : Prop where
  booked : s.Booked
  follows : ∀ u ∈ s.updates, ∃ c, s.Follows u.ticket u.path c

/-- An update after an action was there before, or was requested by it. -/
theorem mem_act {s : Session} {a : Action} {v : Update} (hv : v ∈ (s.act a).updates) :
    (∃ u ∈ s.updates, u.ticket = v.ticket ∧ u.path = v.path)
      ∨ ∃ hangs, a = .request v.path hangs ∧ v.ticket = (s.request v.path hangs).1 := by
  have hsame : (s.act a).updates = s.updates → ∃ u ∈ s.updates, u.ticket = v.ticket
    ∧ u.path = v.path := fun h => ⟨v, h ▸ hv, rfl, rfl⟩
  cases a with
  | request path hangs =>
    rcases List.mem_append.1 hv with hv | hv
    · exact .inl ⟨v, hv, rfl, rfl⟩
    · rw [List.mem_singleton.1 hv]
      exact .inr ⟨hangs, rfl, rfl⟩
  | advance t =>
    rcases updates_step s t with he | ⟨w, stage, -, -, he⟩
    · exact .inl (hsame he)
    · rw [act, he] at hv
      obtain ⟨u, hu, rfl⟩ := mem_moveTo hv
      refine .inl ⟨u, hu, ?_⟩
      split_ifs <;> exact ⟨rfl, rfl⟩
  | updateText path t => exact .inl (hsame rfl)
  | remove path => exact .inl (hsame rfl)
  | scan => exact .inl (hsame (beginScan_frame s).1)
  | write path content => exact .inl (hsame rfl)
  | delete path => exact .inl (hsame rfl)
  | tidy => exact .inl ⟨v, (List.mem_filter.1 hv).1, rfl, rfl⟩

theorem Idle.tracked {s : Session} (h : s.Idle) : s.Tracked where
  booked := h.booked
  follows u hu := by simp [h.updates] at hu

theorem lasting_tracked : Lasting Tracked where
  act {s} h a := by
    refine ⟨booked_act h.booked a, fun v hv => ?_⟩
    rcases mem_act hv with ⟨u, hu, ht, hp⟩ | ⟨hangs, rfl, ht⟩
    · obtain ⟨c, hc⟩ := h.follows u hu
      exact ⟨_, ht ▸ hp ▸ follows_act hc h.booked a⟩
    · exact ⟨false, ht ▸ follows_request h.booked v.path hangs⟩
  say {s} h notices := by
    refine ⟨h.booked.of_same rfl rfl le_rfl, fun u hu => ?_⟩
    obtain ⟨c, hc⟩ := h.follows u hu
    exact ⟨c, hc.of_same _ rfl rfl le_rfl⟩

/-- The step that fails keeps the tables, and from then on the update is doomed. -/
theorem Tracked.doomed_of_fails {s : Session} (h : s.Tracked) {u : Update} (hu : u ∈ s.updates)
    {f : Failure} (hf : s.Fails u f) : (s.step u.ticket).index.tables = s.index.tables
      ∧ ∃ c, (s.step u.ticket).Doomed u.ticket u.path c f := by
  obtain ⟨c, hc⟩ := h.follows u hu
  have hfind := update?_of_mem h.booked hu
  by_cases hsup : f = .superseded
  · subst hsup
    cases hf with
    | superseded hs hn =>
      have hstale := hc.isNewest_iff hfind (inFlight_of_isOpen hs)
      rw [hn] at hstale
      obtain rfl : c = true := by simpa using hstale
      have hd : s.Doomed u.ticket u.path true .superseded := ⟨h.booked, hc, fun v hv => by
        rw [hfind] at hv
        cases hv
        exact .inr ⟨rfl, hs, rfl⟩⟩
      exact ⟨hd.tables_step, true, hd.step_self⟩
  · refine ⟨Session.tables_step fun v m hv hs => ?_, c, booked_step h.booked _,
      hc.step h.booked _, fun v hv => ?_⟩
    · rw [hfind] at hv
      cases hv
      cases hf <;> simp_all
    · rw [update?_step_self hfind] at hv
      cases hv
      exact .inl (hf.dooms_nextStage hsup)

/-- The number of requests kept for a path. -/
def pendingOf (s : Session) (path : Text) : Nat := (s.index.requests.pending.get? path).getD 0

/-- The update has failed: its steps leave the tables alone, it can only end as the failure allows,
four steps end it if it holds its lock, and the last of them gives back what is kept for it,
once. -/
structure HasFailed (s : Session) (u : Update) (f : Failure) : Prop where
  tables : (s.step u.ticket).index.tables = s.index.tables
  outcome : ∀ o, s.stage? u.ticket = some (.leaving o) ∨ s.stage? u.ticket = some (.settled o) →
    f.Admits o ∧ ∀ m, o.result ≠ .ok (some m)
  ends : ∀ stage, s.stage? u.ticket = some stage → stage ≠ .waiting →
    ∃ o, (s.run (List.replicate 4 (.advance u.ticket))).stage? u.ticket = some (.settled o)
  gives_back : ∀ o, s.stage? u.ticket = some (.leaving o) →
    (s.step u.ticket).stage? u.ticket = some (.settled o)
      ∧ ∀ p, (s.step u.ticket).pendingOf p + (if p = u.path then 1 else 0) = s.pendingOf p
  stays : ∀ o, s.stage? u.ticket = some (.settled o) → s.step u.ticket = s

theorem Doomed.hasFailed {s : Session} {u : Update} {c : Bool} {f : Failure}
    (h : s.Doomed u.ticket u.path c f) : s.HasFailed u f where
  tables := h.tables_step
  outcome o ho := by
    have hadmits : f.Admits o := by
      rcases ho with ho | ho
      all_goals
        obtain ⟨v, hv, hs⟩ := stage?_eq_some ho
        rcases h.stage v hv with hd | ⟨-, hopen, -⟩
        · rw [hs] at hd
          exact hd
        · rw [hs] at hopen
          cases hopen
    exact ⟨hadmits, hadmits.result⟩
  ends stage hstage hw := by
    obtain ⟨v, hv, rfl⟩ := stage?_eq_some hstage
    have ht := (update?_mem hv).2
    rw [← ht] at hv ⊢
    have := left_lt_five.2 hw
    exact settled_of_steps 4 hv hw (by omega)
  gives_back o ho := by
    obtain ⟨v, hv, hs⟩ := stage?_eq_some ho
    obtain ⟨hmem, ht⟩ := update?_mem hv
    have hp := h.follows.path_eq v hmem ht
    have hstep : s.step u.ticket = s.settle v o := by simp only [step, hv, hs]
    have hfly : v.inFlight = true := by rw [Update.inFlight, hs]; rfl
    refine ⟨?_, fun p => ?_⟩
    · rw [← ht] at hv ⊢
      rw [stage?, update?_step_self hv, Option.map_some, nextStage, hs]
    · rw [pendingOf, pendingOf, (booked_step h.booked _).getD_pending, h.booked.getD_pending, hstep,
        ← hp]
      exact flying_settle h.booked hmem hfly p
  stays o ho := by
    obtain ⟨v, hv, hs⟩ := stage?_eq_some ho
    simp only [step, hv, hs]

/-- In every session that can be reached: a text that has no module, or that makes the reader fail,
leaves the tables as they are, and so does an update of a file when it fails, whatever happens to
the index from then on. -/
theorem failed_update_keeps_tables {s₀ s : Session} (h₀ : s₀.Idle) (hs : Reachable s₀ s) :
    (∀ path t, (∀ m, s.index.strategy.readModule t (s.place path) ≠ .ok (some m)) →
      (s.updateText path t).1 = s.index.strategy.readModule t (s.place path)
        ∧ (s.updateText path t).2.index.tables = s.index.tables)
    ∧ ∀ u ∈ s.updates, ∀ f, s.Fails u f →
      (s.step u.ticket).index.tables = s.index.tables
        ∧ ∀ actions, ((s.step u.ticket).run actions).HasFailed u f := by
  refine ⟨fun path t hno => ?_, fun u hu f hf => ?_⟩
  · rcases hr : s.index.strategy.readModule t (s.place path) with e | _ | m
    · simp only [updateText, Index.updateText, hr, true_and]
      rfl
    · simp only [updateText, Index.updateText, hr, true_and]
      rfl
    · exact absurd hr (hno m)
  · obtain ⟨htables, c, hd⟩ := (hs.keeps lasting_tracked h₀.tracked).doomed_of_fails hu hf
    refine ⟨htables, fun actions => ?_⟩
    obtain ⟨c', hd'⟩ := hd.run actions
    exact hd'.hasFailed

/-- A file whose module took a name over is read again while the reader fails on its text. -/
theorem failed_update_keeps_shadowing :
    let s₀ : Session := { disk := ⟨[("b".toList, .file (some []))], "/"⟩, index := {
      root := "/"
      strategy := ⟨fun t p => if t = [] then .error .notInstalled
        else .ok (some { name := "m", file := p, location := ⟨p, 0, 0, 0⟩ })⟩ } }
    let s := s₀.run [.updateText "/a" "m", .updateText "/b" "m", .request "/b" false, .advance 1,
      .advance 1]
    let u : Update := { path := "/b", ticket := 1, stage := .loaded [] }
    s₀.Idle ∧ Reachable s₀ s ∧ u ∈ s.updates ∧ s.Fails u (.raised .notInstalled)
      ∧ s.index.tables.definers = [("m".toList, ["/a".toList, "/b".toList])]
      ∧ (s.step u.ticket).index.tables = s.index.tables
      ∧ ((s.step u.ticket).run [.advance 1]).stage? 1 = some (.leaving (.failed .notInstalled))
      ∧ ((s.step u.ticket).run [.advance 1]).HasFailed u (.raised .notInstalled) := by
  intro s₀ s u
  have hidle : s₀.Idle := ⟨rfl, rfl, rfl, rfl⟩
  have hs : Reachable s₀ s := reachable_run .start _
  have hu : u ∈ s.updates := by decide +kernel
  have hf : s.Fails u (.raised .notInstalled) := .raised rfl rfl rfl
  obtain ⟨htables, hfailed⟩ := (failed_update_keeps_tables hidle hs).2 u hu _ hf
  exact ⟨hidle, hs, hu, hf, by decide +kernel, htables, by decide +kernel, hfailed [.advance 1]⟩

end Session

end VerilogIndex
