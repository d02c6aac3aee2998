import VerilogIndex.Proofs.Answers
import VerilogIndex.Proofs.Completion
import VerilogIndex.Proofs.Walk

/-!
# The index is the log of what was read

From an empty index on, what the tables answer is settled by a log of changes alone, and the log is
settled without the tables. For requests that run to their end one after the other, the disk and the
reader tell it (`Setting.history`). For steps in any order the tickets tell in addition which
updates record their modules (`Session.logOf`). Both runs only ever make the changes of their log
(`tables_act`, `perform_of_idle`), and each change keeps that the tables show the live readings
(`shows_after`). Main statement: `answers_live_readings`.
-/

namespace VerilogIndex

/-- A reader that records a module under the path it was given. -/
def Strategy.KeepsPath (r : Strategy) : Prop :=
  ∀ t path m, r.readModule t path = .ok (some m) → m.file = path

theorem Strategy.keepsPath_scan : Strategy.scan.KeepsPath := by
  intro t path m h
  simp only [scan, Except.ok.injEq, Source.readModule, Option.bind_eq_bind,
    Option.bind_eq_some_iff] at h
  obtain ⟨heading, -, hm⟩ := h
  rw [← Option.some.inj hm]

/-! ## Changes -/

/-- A module that is read has the path it was read from. -/
def Change.Own : Change → Prop
  | .read path m => m.file = path
  | .removed _ => True
  | .cleared => True

theorem Tables.shows_after {t : Tables} {log : List Change} (h : t.Shows (Live.ofChanges log))
    {c : Change} (hc : c.Own) : (t.after c).Shows (Live.ofChanges (log ++ [c])) := by
  cases c with
  | read path m =>
    rw [Live.ofChanges_append_read]
    exact shows_apply h hc
  | removed path =>
    rw [Live.ofChanges_append_removed]
    exact shows_remove h path
  | cleared =>
    rw [Live.ofChanges_append_cleared]
    exact shows_clear t

theorem Tables.shows_foldl_after : ∀ (cs : List Change) {t : Tables} {log : List Change},
    t.Shows (Live.ofChanges log) → (∀ c ∈ cs, c.Own) →
    (cs.foldl after t).Shows (Live.ofChanges (log ++ cs))
  | [], t, log, h, _ => by simpa using h
  | c :: cs, t, log, h, hc => by
    have ih := shows_foldl_after cs (shows_after h (hc c List.mem_cons_self))
      fun d hd => hc d (List.mem_cons_of_mem _ hd)
    rwa [List.append_assoc, List.singleton_append] at ih

namespace Setting

variable {w : Setting}

theorem own_textChanges (h : w.strategy.KeepsPath) (path t : Text) :
    ∀ c ∈ w.textChanges path t, c.Own := by
  intro c hc
  rw [textChanges] at hc
  split at hc
  · rename_i m hm
    rw [List.mem_singleton.1 hc]
    exact h t path m hm
  · simp at hc

theorem own_fileChanges (h : w.strategy.KeepsPath) (path : Text) (hangs : Bool) :
    ∀ c ∈ w.fileChanges path hangs, c.Own := by
  intro c hc
  rw [fileChanges] at hc
  split at hc
  · split_ifs at hc
    · simp at hc
    · exact own_textChanges h _ _ c hc
  · simp at hc

theorem own_changes (h : w.strategy.KeepsPath) (r : Request) : ∀ c ∈ w.changes r, c.Own := by
  cases r with
  | rescan =>
    intro c hc
    rw [changes] at hc
    split at hc
    · rcases List.mem_cons.1 hc with rfl | hc
      · trivial
      · obtain ⟨f, -, hc⟩ := List.mem_flatMap.1 hc
        exact own_fileChanges h f false c hc
    · rw [List.mem_singleton.1 hc]
      trivial
  | updateFile path hangs => exact own_fileChanges h _ _
  | updateText path t => exact own_textChanges h _ _
  | remove path => simp [changes, Change.Own]
  | write path content => simp [changes]
  | delete path => simp [changes]

/-- What comes of requests that run to their end one after the other. -/
def history (w : Setting) : List Request → List Change
  | [] => []
  | r :: rs => w.changes r ++ (w.after r).history rs

theorem strategy_after (w : Setting) (r : Request) : (w.after r).strategy = w.strategy := by
  cases r <;> rfl

theorem wellFormed_after (h : w.disk.WellFormed) (r : Request) : (w.after r).disk.WellFormed := by
  cases r with
  | write path content => exact Disk.wellFormed_putFile h path content
  | delete path => exact Disk.wellFormed_erase h _
  | rescan => exact h
  | updateFile path hangs => exact h
  | updateText path t => exact h
  | remove path => exact h

end Setting

namespace Session

/-! ## Requests one after the other -/

def performAll (s : Session) (rs : List Request) : Session :=
  rs.foldl (fun s r => (s.perform r).2) s

/-- Nothing is under way, and the tables show what a log tells. -/
structure Rests (s : Session) (log : List Change) : Prop where
  idle : s.Idle
  disk : s.setting.disk.WellFormed
  keeps : s.setting.strategy.KeepsPath
  shows : s.index.tables.Shows (Live.ofChanges log)

theorem Rests.performs {s : Session} {log : List Change} (h : s.Rests log) (r : Request) :
    s.Performs r :=
  perform_of_idle h.idle r fun _ _ hf => Discovery.nodup_discover h.disk hf

theorem rests_perform {s : Session} {log : List Change} (h : s.Rests log) (r : Request) :
    (s.perform r).2.Rests (log ++ s.setting.changes r) := by
  obtain ⟨-, hidle, hset, htables⟩ := h.performs r
  refine ⟨hidle, ?_, ?_, ?_⟩
  · rw [hset]
    exact Setting.wellFormed_after h.disk r
  · rw [hset, Setting.strategy_after]
    exact h.keeps
  · rw [htables]
    exact Tables.shows_foldl_after _ h.shows (Setting.own_changes h.keeps r)

theorem rests_performAll : ∀ (rs : List Request) {s : Session} {log : List Change}, s.Rests log →
    (s.performAll rs).Rests (log ++ s.setting.history rs)
  | [], s, log, h => by
    rw [Setting.history, List.append_nil]
    exact h
  | r :: rs, s, log, h => by
    have ih := rests_performAll rs (rests_perform h r)
    rwa [(h.performs r).2.2.1, List.append_assoc] at ih

/-! ## Steps in any order -/

/-- What an action does to the tables; the tickets tell whether an update records its module. -/
def changesOf (s : Session) : Action → List Change
  | .advance ticket =>
    match s.update? ticket with
    | some ⟨path, _, _, .parsed r⟩ =>
      if s.index.requests.isNewest path ticket then r.changes path else []
    | _ => []
  | .updateText path t => s.setting.textChanges path t
  | .remove path => [.removed path]
  | .scan => [.cleared]
  | .request _ _ => []
  | .write _ _ => []
  | .delete _ => []
  | .tidy => []

/-- What a run does to the tables, change by change. -/
def logOf (s : Session) : List Action → List Change
  | [] => []
  | a :: as => s.changesOf a ++ (s.act a).logOf as

theorem changesOf_advance {s : Session} {ticket : Nat} {u : Update} (hu : s.update? ticket = some u)
    {r : Reading} (hs : u.stage = .parsed r) : s.changesOf (.advance ticket) =
      if s.index.requests.isNewest u.path ticket then r.changes u.path else [] := by
  obtain ⟨path, t, hangs, stage⟩ := u
  subst hs
  simp only [changesOf, hu]

theorem changesOf_advance_nil {s : Session} {ticket : Nat}
    (h : ∀ u r, s.update? ticket = some u → u.stage ≠ .parsed r) :
    s.changesOf (.advance ticket) = [] := by
  rw [changesOf]
  split
  · rename_i path t hangs r hu
    exact absurd rfl (h _ r hu)
  · rfl

/-- A step of an update changes nothing but by what the update has read. -/
theorem exists_of_mem_changesOf_advance {s : Session} {ticket : Nat} {c : Change}
    (h : c ∈ s.changesOf (.advance ticket)) :
    ∃ u m, s.update? ticket = some u ∧ u.stage = .parsed (.found m) ∧ c = .read u.path m := by
  by_cases hparsed : ∃ u r, s.update? ticket = some u ∧ u.stage = .parsed r
  · obtain ⟨u, r, hu, hs⟩ := hparsed
    rw [changesOf_advance hu hs] at h
    split_ifs at h
    · cases r with
      | found m => exact ⟨u, m, hu, hs, List.mem_singleton.1 h⟩
      | late => cases h
      | failed e => cases h
      | noModule => cases h
    · cases h
  · rw [changesOf_advance_nil fun u r hu hs => hparsed ⟨u, r, hu, hs⟩] at h
    cases h

theorem tables_act (s : Session) (a : Action) :
    (s.act a).index.tables = (s.changesOf a).foldl Tables.after s.index.tables := by
  cases a with
  | advance ticket =>
    by_cases h : ∃ u r, s.update? ticket = some u ∧ u.stage = .parsed r
    · obtain ⟨u, r, hu, hs⟩ := h
      obtain ⟨-, rfl⟩ := update?_mem hu
      rw [changesOf_advance hu hs]
      split_ifs with hn
      · obtain ⟨o, log, he⟩ := conclude_of_newest (r := r) hn
        simp only [act, step, hu, hs, he]
        rfl
      · refine tables_step fun v m hv _ => ?_
        rw [hu] at hv
        cases hv
        exact Bool.eq_false_iff.2 hn
    · rw [changesOf_advance_nil fun u r hu hs => h ⟨u, r, hu, hs⟩]
      exact tables_step fun u m hu hs => absurd ⟨u, .found m, hu, hs⟩ h
  | updateText path t =>
    rcases hm : s.index.strategy.readModule t path with e | _ | m <;>
      simp only [act, Index.updateText, become, say, hm, changesOf, Setting.textChanges,
        setting] <;> rfl
  | scan => exact (beginScan_frame s).2.2.2.1
  | request path hangs => rfl
  | remove path => rfl
  | write path content => rfl
  | delete path => rfl
  | tidy => rfl

/-- Every module under way has the path it was read from, and the tables show what a log tells. -/
structure Tells (s : Session) (log : List Change) : Prop where
  booked : s.Booked
  keeps : s.index.strategy.KeepsPath
  own : ∀ u ∈ s.updates, ∀ m, u.stage = .parsed (.found m) → m.file = u.path
  shows : s.index.tables.Shows (Live.ofChanges log)

/-- An action records modules that were under way, or that it reads itself. -/
theorem found_of_mem_changesOf {s : Session} {a : Action} {path : Text} {m : Module}
    (h : .read path m ∈ s.changesOf a) :
    (∃ u ∈ s.updates, u.path = path ∧ u.stage = .parsed (.found m))
      ∨ ∃ t, s.index.strategy.readModule t path = .ok (some m) := by
  cases a with
  | advance ticket =>
    obtain ⟨u, m', hu, hs, hread⟩ := exists_of_mem_changesOf_advance h
    cases hread
    exact .inl ⟨u, (update?_mem hu).1, rfl, hs⟩
  | updateText p t =>
    rw [changesOf, Setting.textChanges] at h
    split at h
    · rename_i m' hm
      cases List.mem_singleton.1 h
      exact .inr ⟨t, hm⟩
    · cases h
  | remove p => simp [changesOf] at h
  | scan => simp [changesOf] at h
  | request p hangs => simp [changesOf] at h
  | write p content => simp [changesOf] at h
  | delete p => simp [changesOf] at h
  | tidy => simp [changesOf] at h

theorem Tells.own_changesOf {s : Session} {log : List Change} (h : s.Tells log) (a : Action) :
    ∀ c ∈ s.changesOf a, c.Own := by
  intro c hc
  cases c with
  | read path m =>
    rcases found_of_mem_changesOf hc with ⟨u, hu, rfl, hs⟩ | ⟨t, ht⟩
    · exact h.own u hu m hs
    · exact h.keeps t path m ht
  | removed path => trivial
  | cleared => trivial

theorem strategy_act (s : Session) (a : Action) :
    (s.act a).index.strategy = s.index.strategy := by
  cases a with
  | advance ticket =>
    rcases step_cases s ticket with he | ⟨u, -, -, ⟨stage, log, -, -, -, he⟩ | ⟨m, -, -, he⟩ |
      ⟨o, -, he⟩⟩ <;> rw [act, he] <;> rfl
  | updateText path t => exact strategy_updateText s.index path t
  | scan => exact (beginScan_frame s).2.2.2.2
  | request path hangs => rfl
  | remove path => rfl
  | write path content => rfl
  | delete path => rfl
  | tidy => rfl

/-- A module comes under way by a step, which reads a text as the content of its path. -/
theorem found_of_mem_step {s : Session} (hb : s.Booked) {ticket : Nat} {v : Update}
    (hv : v ∈ (s.step ticket).updates) {m : Module} (hm : v.stage = .parsed (.found m)) :
    v ∈ s.updates ∨ ∃ t, s.index.strategy.readModule t v.path = .ok (some m) := by
  rcases step_cases s ticket with he | ⟨u, hu, -, hc⟩
  · exact .inl (he ▸ hv)
  -- the other cases move the update to a stage, which is no found module unless the reader gave it
  have hmove : ∀ (s' : Session) (stage : Stage), s'.updates = s.updates →
      (∀ m, stage = .parsed (.found m) →
        ∃ t, s.index.strategy.readModule t u.path = .ok (some m)) →
      v ∈ (s'.moveTo ticket stage).updates →
      v ∈ s.updates ∨ ∃ t, s.index.strategy.readModule t v.path = .ok (some m) := by
    intro s' stage hupd hstage hv
    obtain ⟨w, hw, rfl⟩ := mem_moveTo hv
    rw [hupd] at hw
    split_ifs at hm ⊢ with ht
    · rw [hb.unique hu hw ht]
      exact .inr (hstage m hm)
    · exact .inl hw
  rcases hc with ⟨stage, log, -, -, hread, he⟩ | ⟨m', -, -, he⟩ | ⟨o, -, he⟩ <;> rw [he] at hv
  · exact hmove { s with log } stage rfl hread hv
  · exact hmove (s.become _) _ rfl (by simp) hv
  · rw [settle, (update?_mem hu).2] at hv
    exact hmove _ _ rfl (by simp) hv

theorem found_of_mem_act {s : Session} (hb : s.Booked) {a : Action} {v : Update}
    (hv : v ∈ (s.act a).updates) {m : Module} (hm : v.stage = .parsed (.found m)) :
    v ∈ s.updates ∨ ∃ t, s.index.strategy.readModule t v.path = .ok (some m) := by
  cases a with
  | advance ticket => exact found_of_mem_step hb hv hm
  | request path hangs =>
    rcases List.mem_append.1 hv with hv | hv
    · exact .inl hv
    · rw [List.mem_singleton.1 hv] at hm
      cases hm
  | updateText path t => exact .inl hv
  | remove path => exact .inl hv
  | scan => exact .inl ((beginScan_frame s).1 ▸ hv)
  | write path content => exact .inl hv
  | delete path => exact .inl hv
  | tidy => exact .inl (List.mem_filter.1 hv).1

theorem tells_act {s : Session} {log : List Change} (h : s.Tells log) (a : Action) :
    (s.act a).Tells (log ++ s.changesOf a) where
  booked := booked_act h.booked a
  keeps := by
    rw [strategy_act]
    exact h.keeps
  own u hu m hm := by
    rcases found_of_mem_act h.booked hu hm with hu | ⟨t, ht⟩
    · exact h.own u hu m hm
    · exact h.keeps t u.path m ht
  shows := by
    rw [tables_act]
    exact Tables.shows_foldl_after _ h.shows (h.own_changesOf a)

theorem tells_run : ∀ (actions : List Action) {s : Session} {log : List Change}, s.Tells log →
    (s.run actions).Tells (log ++ s.logOf actions)
  | [], s, log, h => by
    rw [logOf, List.append_nil]
    exact h
  | a :: as, s, log, h => by
    have ih := tells_run as (tells_act h a)
    rwa [List.append_assoc] at ih

/-! ## Answers -/

/-- The index of a session that starts empty, with a reader that keeps paths, answers from the live
readings of its log alone: after any requests that run to their end one after the other, each of
which is answered, with the log that the disk and the reader tell; and also after any steps, texts,
removals and scans that interleave, with the log of the changes they make. -/
theorem answers_live_readings {s : Session} (h : s.Idle) (ht : s.index.tables = {})
    (hk : s.index.strategy.KeepsPath) :
    (s.disk.WellFormed → ∀ rs : List Request,
      (s.performAll rs).index.tables.Answers (Live.ofChanges (s.setting.history rs))
        ∧ ∀ r, ((s.performAll rs).perform r).1.isSome = true)
    ∧ ∀ actions : List Action,
      (s.run actions).index.tables.Answers (Live.ofChanges (s.logOf actions)) := by
  have hshows : s.index.tables.Shows (Live.ofChanges []) := ht ▸ Tables.shows_empty _
  refine ⟨fun hd rs => ?_, fun actions => ?_⟩
  · have hrests := rests_performAll rs ⟨h, hd, hk, hshows⟩
    exact ⟨Tables.answers_of_shows hrests.shows, fun r => (hrests.performs r).1⟩
  · have htells := tells_run actions ⟨h.booked, hk, by simp [h.updates], hshows⟩
    exact Tables.answers_of_shows htells.shows

/-- When the file of the last module of a name is removed, an older one stands for the name again.
-/
theorem removal_uncovers_older_module :
    let content := Text.Utf8.encode "module m; endmodule"
    let s : Session := {
      disk := ⟨[("p".toList,
          .folder [("a.v".toList, .file content), ("b.v".toList, .file content)])],
        "/p"⟩
      index := { root := "/p" } }
    let after := s.performAll [.updateFile "a.v" false, .updateFile "b.v" false, .remove "b.v"]
    s.Idle ∧ s.disk.WellFormed ∧ s.index.strategy.KeepsPath
      ∧ after.index.tables.definitions "m" = ["/p/a.v".toList]
      ∧ (after.index.tables.module? "m").map (·.file) = some "/p/a.v".toList := by
  intro content s after
  have hidle : s.Idle := ⟨rfl, rfl, rfl, rfl⟩
  have hdisk : s.disk.WellFormed := by
    refine ⟨.folder (by decide) (by decide) ?_, rfl⟩
    simp only [s, List.mem_singleton, forall_eq]
    refine .folder (by decide) (by decide) ?_
    simp only [List.mem_cons, List.not_mem_nil, or_false, forall_eq_or_imp, forall_eq]
    exact ⟨.file _, .file _⟩
  have hk : s.index.strategy.KeepsPath := Strategy.keepsPath_scan
  have hanswers := ((answers_live_readings hidle rfl hk).1 hdisk
    [.updateFile "a.v" false, .updateFile "b.v" false, .remove "b.v"]).1
  refine ⟨hidle, hdisk, hk, ?_, ?_⟩
  · rw [hanswers.definitions]
    decide +kernel
  · rw [hanswers.module]
    decide +kernel

end Session

end VerilogIndex
