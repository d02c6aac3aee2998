import VerilogIndex.Proofs.Failures

/-!
# The steps of a scan

The updates of a scan may take their steps in any order. A step that concludes an update makes the
changes that the file of the update comes to, whatever steps come before it (`tables_steps`), and
once all updates have ended every file that comes to a change has been concluded (`mem_concluded`).
So the tables are settled by the order in which the updates are concluded. Main statement: if that
is the order of their requests, the files are recorded one after the other (`tables_of_order`).

Updates that ended before the scan do not matter for any of this: a session goes through the same
steps with them and without (`step_behind`, `round_behind`).
-/

namespace VerilogIndex

/-- What the stage of an update holds is what its file has. -/
def Update.Faithful (w : Setting) (u : Update) : Prop :=
  match u.stage with
  | .loaded t => w.disk.text u.path = .ok t
  | .parsed r => r.changes u.path = w.fileChanges u.path u.hangs
  | _ => True

namespace Session

/-! ## One step -/

section Step

variable {s : Session}

theorem tickets_step (s : Session) (ticket : Nat) : (s.step ticket).tickets = s.tickets := by
  rcases updates_step s ticket with he | ⟨u, stage, -, -, he⟩
  · rw [tickets, he, tickets]
  · rw [tickets, he]
    exact tickets_moveTo s ticket stage

theorem nextTicket_step (s : Session) (ticket : Nat) :
    (s.step ticket).index.requests.nextTicket = s.index.requests.nextTicket := by
  rcases step_cases s ticket with he | ⟨u, -, -, ⟨stage, log, -, -, -, he⟩ | ⟨m, -, -, he⟩ |
    ⟨o, -, he⟩⟩ <;> rw [he]
  · rfl
  · rfl
  · exact Requests.nextTicket_leave _ _

theorem setting_step (s : Session) (ticket : Nat) : (s.step ticket).setting = s.setting := by
  rcases step_cases s ticket with he | ⟨u, -, -, ⟨stage, log, -, -, -, he⟩ | ⟨m, -, -, he⟩ |
    ⟨o, -, he⟩⟩ <;> rw [he] <;> rfl

/-- A step takes the update of its ticket to the next stage and leaves all others alone. -/
theorem updates_step_eq (h : s.Booked) (ticket : Nat) : (s.step ticket).updates =
    s.updates.map fun u => if u.ticket = ticket then { u with stage := s.nextStage u } else u := by
  have hself : ∀ u ∈ s.updates, (s.step u.ticket).update? u.ticket =
      some { u with stage := s.nextStage u } := fun u hu => update?_step_self (update?_of_mem h hu)
  rcases updates_step s ticket with he | ⟨u, stage, hu, -, he⟩
  · refine he.trans ((List.map_id _).symm.trans (List.map_congr_left fun u hu => ?_))
    split_ifs with ht
    · subst ht
      have hu' := hself u hu
      rw [update?, he, ← update?, update?_of_mem h hu] at hu'
      exact Option.some.inj hu'
    · rfl
  · refine he.trans (List.map_congr_left fun v hv => ?_)
    split_ifs with ht
    · subst ht
      have hv' := hself v hv
      rw [update?, he, ← update?, update?_moveTo (update?_of_mem h hv)] at hv'
      exact Option.some.inj hv'
    · rfl

theorem Solo.step (h : s.Solo) (ticket : Nat) : (s.step ticket).Solo := by
  rcases step_cases s ticket with he | ⟨u, hu, hf, hc⟩
  · rwa [he]
  obtain ⟨hmem, rfl⟩ := update?_mem hu
  rcases hc with ⟨stage, log, hs, -, -, he⟩ | ⟨m, -, -, he⟩ | ⟨o, -, he⟩ <;> rw [he]
  · have h' : ({ s with log } : Session).Solo := h.of_same rfl rfl
    exact h'.moveTo hmem hf hs
  · have h' : (s.become (s.index.record u.path m)).Solo := h.of_same rfl rfl
    exact h'.moveTo hmem hf rfl
  · exact h.settle hmem hf o

end Step

/-! ## Updates that have ended -/

/-- The session with updates in front of its own. -/
def behind (s : Session) (old : List Update) : Session := { s with updates := old ++ s.updates }

/-- The updates have ended, and their tickets are none of the session's, present or to come. -/
structure Past (s : Session) (old : List Update) : Prop where
  ended : ∀ u ∈ old, u.inFlight = false
  apart : ∀ u ∈ old, u.ticket ∉ s.tickets
  issued : ∀ u ∈ old, u.ticket < s.index.requests.nextTicket

section Behind

variable {s : Session} {old : List Update}

theorem Past.step (h : s.Past old) (ticket : Nat) : (s.step ticket).Past old where
  ended := h.ended
  apart u hu := by
    rw [tickets_step]
    exact h.apart u hu
  issued u hu := by
    rw [nextTicket_step]
    exact h.issued u hu

/-- An update of the session is found as before; any other one has ended. -/
theorem update?_behind (h : s.Past old) (ticket : Nat) :
    (∃ u, s.update? ticket = some u ∧ (s.behind old).update? ticket = some u)
      ∨ s.update? ticket = none
        ∧ ∀ u, (s.behind old).update? ticket = some u → u.inFlight = false := by
  have hfind : (s.behind old).update? ticket =
      (old.find? fun u => u.ticket == ticket).or (s.update? ticket) := List.find?_append ..
  rcases hu : s.update? ticket with _ | u
  · refine .inr ⟨rfl, fun v hv => ?_⟩
    rw [hfind, hu, Option.or_none] at hv
    exact h.ended v (List.mem_of_find?_eq_some hv)
  · obtain ⟨hmem, rfl⟩ := update?_mem hu
    refine .inl ⟨u, rfl, ?_⟩
    rw [hfind, List.find?_eq_none.2 fun v hv ht => ?_, Option.none_or, hu]
    exact h.apart v hv (beq_iff_eq.1 ht ▸ List.mem_map_of_mem hmem)

theorem moveTo_behind {ticket : Nat} (h : ∀ u ∈ old, u.ticket ≠ ticket) (s : Session)
    (stage : Stage) : (s.behind old).moveTo ticket stage = (s.moveTo ticket stage).behind old := by
  simp only [moveTo, behind, List.map_append]
  congr 2
  refine (List.map_congr_left fun u hu => ?_).trans (List.map_id _)
  exact if_neg (h u hu)

theorem step_of_ended {ticket : Nat} (h : ∀ u, s.update? ticket = some u → u.inFlight = false) :
    s.step ticket = s := by
  rcases step_cases s ticket with he | ⟨u, hu, hf, -⟩
  · exact he
  · rw [h u hu] at hf
    cases hf

theorem step_behind (h : s.Past old) (ticket : Nat) :
    (s.behind old).step ticket = (s.step ticket).behind old := by
  rcases update?_behind h ticket with ⟨u, hu, hu'⟩ | ⟨hu, hu'⟩
  · obtain ⟨hmem, rfl⟩ := update?_mem hu
    have hne : ∀ v ∈ old, v.ticket ≠ u.ticket := fun v hv he =>
      h.apart v hv (he ▸ List.mem_map_of_mem hmem)
    have hmove := fun (s' : Session) (stage : Stage) => moveTo_behind hne s' stage
    simp only [step, hu, hu']
    rcases u.stage with _ | _ | t | r | o | o <;> dsimp only
    · simp only [acquire, show (s.behind old).index = s.index from rfl]
      split_ifs
      · exact hmove s _
      · exact hmove s _
      · rfl
    · simp only [load, show (s.behind old).disk = s.disk from rfl]
      rcases s.disk.text u.path with f | t
      · exact hmove (s.say _) _
      · exact hmove s _
    · exact hmove s _
    · cases r with
      | late => exact hmove (s.say _) _
      | failed e => exact hmove s _
      | noModule => exact hmove s _
      | found m =>
        simp only [conclude, show (s.behind old).index = s.index from rfl]
        split_ifs
        · exact hmove (s.become (s.index.record u.path m)) _
        · exact hmove s _
    · exact hmove { s with index := { s.index with requests := s.index.requests.leave u.path } } _
  · rw [step_of_ended hu', step_of_ended (s := s) (by simp [hu])]

theorem run_behind : ∀ (ts : List Nat) {s : Session}, s.Past old →
    (s.behind old).run (ts.map .advance) = (s.run (ts.map .advance)).behind old
  | [], _, _ => rfl
  | t :: ts, s, h => by
    show ((s.behind old).step t).run (ts.map .advance) = _
    rw [step_behind h, run_behind ts (h.step t)]
    rfl

/-- Where the stage of a ticket matters, it is the stage that the session has. -/
theorem stage?_behind (h : s.Past old) (ticket : Nat) :
    (s.behind old).stage? ticket = s.stage? ticket
      ∨ s.stage? ticket = none ∧ ∃ o, (s.behind old).stage? ticket = some (.settled o) := by
  rcases update?_behind h ticket with ⟨u, hu, hu'⟩ | ⟨hu, hu'⟩
  · exact .inl (by rw [stage?, stage?, hu, hu'])
  · rcases hv : (s.behind old).update? ticket with _ | v
    · exact .inl (by rw [stage?, stage?, hu, hv])
    · have hended := hu' v hv
      refine .inr ⟨by rw [stage?, hu]; rfl, ?_⟩
      rw [stage?, hv]
      rcases hs : v.stage with _ | _ | t | r | o | o <;> rw [Update.inFlight, hs] at hended
      case settled => exact ⟨o, by rw [Option.map_some, hs]⟩
      all_goals cases hended

theorem settleLeaving_behind (h : s.Past old) (ticket : Nat) :
    (s.behind old).settleLeaving ticket = (s.settleLeaving ticket).behind old := by
  rcases stage?_behind h ticket with he | ⟨hn, o, ho⟩
  · simp only [settleLeaving, he]
    split
    · exact step_behind h ticket
    · rfl
  · simp only [settleLeaving, hn, ho]

theorem Past.settleLeaving (h : s.Past old) (ticket : Nat) : (s.settleLeaving ticket).Past old := by
  rw [Session.settleLeaving]
  split
  · exact h.step ticket
  · exact h

theorem readTurn_behind (h : s.Past old) (ticket : Nat) :
    (s.behind old).readTurn ticket = (s.readTurn ticket).behind old
      ∧ (s.readTurn ticket).Past old := by
  rcases stage?_behind h ticket with he | ⟨hn, o, ho⟩
  · simp only [readTurn, he]
    split
    · rw [step_behind h, settleLeaving_behind (h.step ticket)]
      exact ⟨rfl, (h.step ticket).settleLeaving ticket⟩
    · exact ⟨rfl, h⟩
  · simp only [readTurn, hn, ho]
    exact ⟨trivial, h⟩

theorem recordTurn_behind (h : s.Past old) (ticket : Nat) :
    (s.behind old).recordTurn ticket = (s.recordTurn ticket).behind old
      ∧ (s.recordTurn ticket).Past old := by
  rcases stage?_behind h ticket with he | ⟨hn, o, ho⟩
  · simp only [recordTurn, he]
    split
    · rw [step_behind h, settleLeaving_behind (h.step ticket)]
      exact ⟨rfl, (h.step ticket).settleLeaving ticket⟩
    · have h' := (h.step ticket).step ticket
      rw [step_behind h, step_behind (h.step ticket), settleLeaving_behind h']
      exact ⟨rfl, h'.settleLeaving ticket⟩
    · exact ⟨rfl, h⟩
  · simp only [recordTurn, hn, ho]
    exact ⟨trivial, h⟩

/-- Turns that do nothing for the tickets of updates that have ended. -/
theorem foldl_behind {turn : Session → Nat → Session}
    (hturn : ∀ {s : Session}, s.Past old → ∀ t,
      turn (s.behind old) t = (turn s t).behind old ∧ (turn s t).Past old) :
    ∀ (ts : List Nat) {s : Session}, s.Past old →
      ts.foldl turn (s.behind old) = (ts.foldl turn s).behind old ∧ (ts.foldl turn s).Past old
  | [], _, h => ⟨rfl, h⟩
  | t :: ts, s, h => by
    obtain ⟨he, h'⟩ := hturn h t
    rw [List.foldl_cons, List.foldl_cons, he]
    exact foldl_behind hturn ts h'

theorem stage?_of_past (h : s.Past old) {ticket : Nat} (ht : ticket ∈ old.map (·.ticket)) :
    s.stage? ticket = none := by
  obtain ⟨u, hu, rfl⟩ := List.mem_map.1 ht
  rw [stage?, update?, List.find?_eq_none.2 fun v hv he => ?_]
  · rfl
  · exact h.apart u hu (beq_iff_eq.1 he ▸ List.mem_map_of_mem hv)

theorem foldl_past {turn : Session → Nat → Session}
    (hturn : ∀ t, s.stage? t = none → turn s t = s) (h : s.Past old) :
    (old.map (·.ticket)).foldl turn s = s := by
  have hnone : ∀ t ∈ old.map (·.ticket), s.stage? t = none := fun t ht => stage?_of_past h ht
  generalize old.map (·.ticket) = ts at hnone ⊢
  induction ts with
  | nil => rfl
  | cons t ts ih =>
    rw [List.foldl_cons, hturn t (hnone t List.mem_cons_self)]
    exact ih fun t' ht' => hnone t' (List.mem_cons_of_mem _ ht')

theorem round_behind (h : s.Past old) : (s.behind old).round = s.round.behind old := by
  have hread : (s.behind old).tickets.foldl readTurn (s.behind old) =
      (s.tickets.foldl readTurn s).behind old ∧ (s.tickets.foldl readTurn s).Past old := by
    have hold : (old.map (·.ticket)).foldl readTurn s = s :=
      foldl_past (fun t ht => by rw [readTurn, ht]) h
    obtain ⟨he, h'⟩ := foldl_behind readTurn_behind (s.behind old).tickets h
    rw [he]
    rw [show (s.behind old).tickets = old.map (·.ticket) ++ s.tickets from List.map_append,
      List.foldl_append, hold] at h' ⊢
    exact ⟨rfl, h'⟩
  rw [round, round, hread.1]
  generalize s.tickets.foldl readTurn s = s' at hread ⊢
  have hold : (old.map (·.ticket)).foldl recordTurn s' = s' :=
    foldl_past (fun t ht => by rw [recordTurn, ht]) hread.2
  rw [(foldl_behind recordTurn_behind _ hread.2).1,
    show (s'.behind old).tickets = old.map (·.ticket) ++ s'.tickets from List.map_append,
    List.foldl_append, hold]

theorem issue_behind (h : s.Past old) (path : Text) (hangs : Bool) :
    (s.behind old).issue path hangs =
        ((s.issue path hangs).1, (s.issue path hangs).2.behind old)
      ∧ (s.issue path hangs).2.Past old := by
  have hrequest : ((s.behind old).request path hangs).2 = (s.request path hangs).2.behind old := by
    simp only [request, behind, List.append_assoc]
  have hpast : (s.request path hangs).2.Past old := by
    refine ⟨h.ended, fun u hu => ?_, fun u hu => (h.issued u hu).trans (Nat.lt_succ_self _)⟩
    rw [tickets, request, List.map_append, List.mem_append, not_or]
    refine ⟨h.apart u hu, fun he => ?_⟩
    rw [List.map_singleton, List.mem_singleton] at he
    exact (h.issued u hu).ne he
  refine ⟨Prod.ext rfl ?_, hpast.step _⟩
  show ((s.behind old).request path hangs).2.step _ = _
  rw [hrequest]
  exact step_behind hpast _

theorem issueScan_behind : ∀ (files : List Text) {s : Session}, s.Past old →
    (s.behind old).issueScan files = ((s.issueScan files).1, (s.issueScan files).2.behind old)
      ∧ (s.issueScan files).2.Past old
  | [], _, h => ⟨rfl, h⟩
  | f :: files, s, h => by
    obtain ⟨he, h'⟩ := issue_behind h f false
    obtain ⟨he', h''⟩ := issueScan_behind files h'
    refine ⟨?_, h''⟩
    simp only [issueScan, he, he']

end Behind

/-! ## Steps in any order -/

/-- The path of the update that a step concludes, if it does. -/
def concludes (s : Session) (ticket : Nat) : List Text :=
  match s.update? ticket with
  | some ⟨path, _, _, .parsed _⟩ => [path]
  | _ => []

/-- The paths of the updates that steps conclude, one after the other. -/
def concluded (s : Session) : List Nat → List Text
  | [] => []
  | t :: ts => s.concludes t ++ (s.step t).concluded ts

theorem concludes_of_parsed {s : Session} {ticket : Nat} {u : Update}
    (hu : s.update? ticket = some u) {r : Reading} (hs : u.stage = .parsed r) :
    s.concludes ticket = [u.path] := by
  obtain ⟨path, t, hangs, stage⟩ := u
  subst hs
  simp only [concludes, hu]

theorem concludes_eq_nil {s : Session} {ticket : Nat}
    (h : ∀ u r, s.update? ticket = some u → u.stage ≠ .parsed r) : s.concludes ticket = [] := by
  rw [concludes]
  split
  · rename_i path t hangs r hu
    exact absurd rfl (h _ r hu)
  · rfl

theorem concludes_behind {s : Session} {old : List Update} (h : s.Past old) (ticket : Nat) :
    (s.behind old).concludes ticket = s.concludes ticket := by
  rcases update?_behind h ticket with ⟨u, hu, hu'⟩ | ⟨hu, hu'⟩
  · rw [concludes, concludes, hu, hu']
  · rw [concludes_eq_nil (s := s) (by simp [hu]), concludes_eq_nil fun u r hv hs => ?_]
    have hended := hu' u hv
    rw [Update.inFlight, hs] at hended
    cases hended

theorem concluded_behind {old : List Update} : ∀ (ts : List Nat) {s : Session}, s.Past old →
    (s.behind old).concluded ts = s.concluded ts
  | [], _, _ => rfl
  | t :: ts, s, h => by
    rw [concluded, concluded, concludes_behind h, step_behind h, concluded_behind ts (h.step t)]

/-- The updates of a scan under way. -/
structure Scanning (w : Setting) (s : Session) : Prop where
  solo : s.Solo
  setting : s.setting = w
  prompt : ∀ u ∈ s.updates, u.hangs = false
  faithful : ∀ u ∈ s.updates, u.Faithful w

section Scanning

variable {w : Setting} {s : Session}

theorem faithful_nextStage (hw : s.setting = w) {u : Update} (h : u.Faithful w) :
    Update.Faithful w { u with stage := s.nextStage u } := by
  subst hw
  simp only [Update.Faithful, nextStage] at h ⊢
  rcases hs : u.stage with _ | _ | t | (_ | e | _ | m) | o | o <;> rw [hs] at h <;> dsimp only
  · split_ifs <;> trivial
  · rcases hd : s.disk.text u.path with f | t
    · trivial
    · exact hd
  · rw [Setting.fileChanges, h]
    dsimp only
    split_ifs with hh
    · rfl
    · exact Reading.changes_ofResult s.setting u.path t

theorem Scanning.step (h : Scanning w s) (ticket : Nat) : Scanning w (s.step ticket) := by
  have hupdates := updates_step_eq h.solo.booked ticket
  refine ⟨h.solo.step ticket, (setting_step s ticket).trans h.setting, fun v hv => ?_,
    fun v hv => ?_⟩
  all_goals
    rw [hupdates] at hv
    obtain ⟨u, hu, rfl⟩ := List.mem_map.1 hv
    split_ifs
  · exact h.prompt u hu
  · exact h.prompt u hu
  · exact faithful_nextStage h.setting (h.faithful u hu)
  · exact h.faithful u hu

/-- The step that concludes an update records what its file has. -/
theorem tables_concludes (h : Scanning w s) (ticket : Nat) : (s.step ticket).index.tables =
    ((s.concludes ticket).flatMap fun f => w.fileChanges f false).foldl Tables.after
      s.index.tables := by
  refine (tables_act s (.advance ticket)).trans ?_
  by_cases hp : ∃ u r, s.update? ticket = some u ∧ u.stage = .parsed r
  · obtain ⟨u, r, hu, hs⟩ := hp
    obtain ⟨hmem, rfl⟩ := update?_mem hu
    have hr : r.changes u.path = w.fileChanges u.path false := by
      have hfaithful := h.faithful u hmem
      rwa [Update.Faithful, hs, h.prompt u hmem] at hfaithful
    have hnewest := h.solo.isNewest hmem (by rw [Update.inFlight, hs]; rfl)
    rw [changesOf_advance hu hs, if_pos hnewest, concludes_of_parsed hu hs, hr,
      List.flatMap_singleton]
  · have hno : ∀ u r, s.update? ticket = some u → u.stage ≠ .parsed r := fun u r hu hs =>
      hp ⟨u, r, hu, hs⟩
    rw [changesOf_advance_nil hno, concludes_eq_nil hno]
    rfl

theorem tables_steps : ∀ (ts : List Nat) {s : Session}, Scanning w s →
    (s.run (ts.map .advance)).index.tables =
      ((s.concluded ts).flatMap fun f => w.fileChanges f false).foldl Tables.after s.index.tables
  | [], _, _ => rfl
  | t :: ts, s, h => by
    have ih := tables_steps ts (h.step t)
    rw [tables_concludes h t, ← List.foldl_append, ← List.flatMap_append] at ih
    exact ih

/-- An update whose file comes to a change goes on until it is concluded. -/
theorem isOpen_nextStage (h : Scanning w s) {u : Update} (hu : u ∈ s.updates)
    (ho : u.stage.isOpen = true) (hp : ∀ r, u.stage ≠ .parsed r)
    (hc : w.fileChanges u.path false ≠ []) : (s.nextStage u).isOpen = true := by
  have hnewest : u.inFlight = true → s.index.requests.isNewest u.path u.ticket = true :=
    h.solo.isNewest hu
  simp only [nextStage]
  rcases hs : u.stage with _ | _ | t | r | o | o
  · simp only [hnewest (by rw [Update.inFlight, hs]; rfl), if_true]
    split_ifs <;> rfl
  · rcases hd : s.disk.text u.path with f | t
    · rw [← h.setting] at hc
      simp [Setting.fileChanges, setting, hd] at hc
    · rfl
  · rfl
  · exact absurd hs (hp r)
  · rw [hs] at ho
    cases ho
  · rw [hs] at ho
    cases ho

/-- When all updates have ended, those whose files come to a change have been concluded. -/
theorem mem_concluded : ∀ (ts : List Nat) {s : Session}, Scanning w s →
    (∀ u ∈ (s.run (ts.map .advance)).updates, u.inFlight = false) →
    ∀ u ∈ s.updates, u.stage.isOpen = true → w.fileChanges u.path false ≠ [] →
      u.path ∈ s.concluded ts
  | [], s, _, hend, u, hu, ho, _ => by
    have hended := hend u hu
    rw [Update.inFlight] at hended
    rcases hs : u.stage with _ | _ | t | r | o | o <;> rw [hs] at hended ho <;> cases hended
    cases ho
  | t :: ts, s, h, hend, u, hu, ho, hc => by
    have hfind := update?_of_mem h.solo.booked hu
    have hnext : (if u.ticket = t then { u with stage := s.nextStage u } else u) ∈
        (s.step t).updates := by
      rw [updates_step_eq h.solo.booked]
      exact List.mem_map_of_mem hu
    have ih := mem_concluded ts (h.step t) hend
    rw [concluded, List.mem_append]
    by_cases ht : u.ticket = t
    · subst ht
      rw [if_pos rfl] at hnext
      by_cases hp : ∃ r, u.stage = .parsed r
      · obtain ⟨r, hr⟩ := hp
        exact .inl (by rw [concludes_of_parsed hfind hr]; exact List.mem_singleton_self _)
      · exact .inr (ih { u with stage := s.nextStage u } hnext
          (isOpen_nextStage h hu ho (fun r hr => hp ⟨r, hr⟩) hc) hc)
    · rw [if_neg ht] at hnext
      exact .inr (ih u hnext ho hc)

end Scanning

/-- Leaving out members that come to nothing does not matter. -/
theorem flatMap_eq_of_sublist {α β : Type} {g : α → List β} {l files : List α}
    (h : l.Sublist files) : files.Nodup → (∀ f ∈ files, g f ≠ [] → f ∈ l) →
      l.flatMap g = files.flatMap g := by
  induction h with
  | slnil => intro _ _; rfl
  | @cons l files f hsub ih =>
    intro hn hall
    obtain ⟨hf, hn⟩ := List.nodup_cons.1 hn
    have hnil : g f = [] := by
      by_contra hne
      exact hf (hsub.subset (hall f List.mem_cons_self hne))
    rw [List.flatMap_cons, hnil, List.nil_append]
    exact ih hn fun x hx => hall x (List.mem_cons_of_mem _ hx)
  | @cons_cons l files f hsub ih =>
    intro hn hall
    obtain ⟨hf, hn⟩ := List.nodup_cons.1 hn
    rw [List.flatMap_cons, List.flatMap_cons, ih hn fun x hx hg => ?_]
    refine (List.mem_cons.1 (hall x (List.mem_cons_of_mem _ hx) hg)).resolve_left ?_
    rintro rfl
    exact hf hx

/-- If the updates of a scan are concluded in the order of their requests, the files are recorded
one after the other. -/
theorem tables_of_order {w : Setting} {s : Session} (h : Scanning w s)
    (hopen : ∀ u ∈ s.updates, u.stage.isOpen = true) {ts : List Nat}
    (hend : ∀ u ∈ (s.run (ts.map .advance)).updates, u.inFlight = false)
    (horder : (s.concluded ts).Sublist (s.updates.map (·.path))) :
    (s.run (ts.map .advance)).index.tables =
      ((s.updates.map (·.path)).flatMap fun f => w.fileChanges f false).foldl Tables.after
        s.index.tables := by
  rw [tables_steps ts h, flatMap_eq_of_sublist horder h.solo.paths fun f hf hc => ?_]
  obtain ⟨u, hu, rfl⟩ := List.mem_map.1 hf
  exact mem_concluded ts h hend u hu (hopen u hu) hc

end Session

end VerilogIndex
