import VerilogIndex.Proofs.Tables
import VerilogIndex.Watch.Watcher

/-!
# Coalesced events

Events come in, workers look for the one that waits under their key and handle it, and in between
anything may happen to the session, so that handling an event takes as long as it likes and may end
in any way (`Watcher.Step`). Under one key a step can only do what `Slot.Moves` says
(`moves_act`), and each move leaves its marks.

The account of the marks of a key (`Account.ofMarks`) numbers the events that came in under it. Main
statement: the events handled under a key are a subsequence of those that came in under it, one at a
time, and none is left out but for a later one (`coalescing_safe`).
-/

namespace VerilogIndex

/-- A key under which an event comes in has a worker from then on. -/
theorem Coalescer.workers_submit (c : Coalescer) (kind : EventKind) (k key : Text) :
    (c.submit kind k).workers.get? key =
      if key = k then some ((c.workers.get? key).getD .idle) else c.workers.get? key := by
  rw [submit, Table.contains]
  rcases hw : c.workers.get? k with _ | work
  · simp only [Option.isSome_none, Bool.false_eq_true, if_false, Table.get?_put]
    split_ifs with hk
    · rw [hk, hw]
      rfl
    · rfl
  · simp only [Option.isSome_some, if_true]
    split_ifs with hk
    · rw [hk, hw]
      rfl
    · rfl

namespace Watcher

/-! ## Steps -/

/-- Something that happens at once. -/
inductive Step where
  | submit (kind : EventKind) (path : Text)
  /-- The worker of a key looks for its next event. It may have rested before that. -/
  | look (key : Text)
  /-- The worker of a key requests the updates of its scan. -/
  | requestScan (key : Text)
  /-- The worker of a key notices that what it is at is over, or has failed. -/
  | finish (key : Text)
  /-- The session becomes another one, for whatever reason. -/
  | session (s : Session)

def act (w : Watcher) : Step → Watcher
  | .submit kind path => w.submit kind path
  | .look key => w.look key
  | .requestScan key => w.requestScan key
  | .finish key => w.finish key
  | .session s => { w with session := s }

def play (w : Watcher) (steps : List Step) : Watcher := steps.foldl act w

/-- The worker of the key is handling an event. -/
def isBusy (w : Watcher) (key : Text) : Bool :=
  (w.coalescer.workers.get? key).any (· != .idle)

inductive Mark where
  | submitted (kind : EventKind)
  /-- A worker began to handle it. -/
  | began (kind : EventKind)
  | ended
  deriving DecidableEq, Repr

/-- What a step leaves to be seen, by key. An event is begun when it is added to those handled. -/
def marks (w : Watcher) : Step → List (Text × Mark)
  | .submit kind path => [(w.keyOf kind path, .submitted kind)]
  | .look key =>
    let begun := (w.look key).dispatched.drop w.dispatched.length
    begun.map (fun e => (e.2, .began e.1)) ++
      if begun ≠ [] ∧ (w.look key).isBusy key = false then [(key, .ended)] else []
  | .finish key =>
    if w.isBusy key = true ∧ (w.finish key).isBusy key = false then [(key, .ended)] else []
  | .requestScan _ => []
  | .session _ => []

def trace (w : Watcher) : List Step → List (Text × Mark)
  | [] => []
  | s :: steps => w.marks s ++ (w.act s).trace steps

def marksOf (key : Text) (trace : List (Text × Mark)) : List Mark :=
  (trace.filter fun m => m.1 == key).map (·.2)

theorem marksOf_append (key : Text) (a b : List (Text × Mark)) :
    marksOf key (a ++ b) = marksOf key a ++ marksOf key b := by
  simp [marksOf]

theorem marksOf_self (key : Text) (ms : List Mark) : marksOf key (ms.map (key, ·)) = ms := by
  simp [marksOf, List.filter_map, Function.comp_def]

theorem marksOf_of_ne {key k : Text} (h : k ≠ key) (ms : List Mark) :
    marksOf key (ms.map (k, ·)) = [] := by
  simp [marksOf, List.filter_map, Function.comp_def, h]

/-! ## What a step does under a key -/

/-- What there is under a key: the event that waits, and what the worker is at. -/
structure Slot where
  pending : Option EventKind
  work : Option Work

def slot (w : Watcher) (key : Text) : Slot :=
  ⟨w.coalescer.pending.get? key, w.coalescer.workers.get? key⟩

/-- What can happen under a key at once, and the marks that it leaves. -/
inductive Slot.Moves : Slot → List Mark → Slot → Prop
  | rest (s : Slot) : Moves s [] s
  | submit (s : Slot) (kind : EventKind) :
      Moves s [.submitted kind] ⟨some kind, some (s.work.getD .idle)⟩
  | retire : Moves ⟨none, some .idle⟩ [] ⟨none, none⟩
  | take (kind : EventKind) {work : Work} (hwork : work ≠ .idle) :
      Moves ⟨some kind, some .idle⟩ [.began kind] ⟨none, some work⟩
  | takeAndEnd (kind : EventKind) :
      Moves ⟨some kind, some .idle⟩ [.began kind, .ended] ⟨none, some .idle⟩
  | goOn (pending : Option EventKind) {work work' : Work} (hwork : work ≠ .idle)
      (hwork' : work' ≠ .idle) : Moves ⟨pending, some work⟩ [] ⟨pending, some work'⟩
  | finish (pending : Option EventKind) {work : Work} (hwork : work ≠ .idle) :
      Moves ⟨pending, some work⟩ [.ended] ⟨pending, some .idle⟩

/-- What happens under one key, without a change under the others. -/
structure ActsOn (w after : Watcher) (k : Text) (marks : List (Text × Mark)) : Prop where
  moves : ∃ ms, marks = ms.map (k, ·) ∧ (w.slot k).Moves ms (after.slot k)
  frame : ∀ key, key ≠ k → after.slot key = w.slot key

theorem ActsOn.moves_slot {w after : Watcher} {k : Text} {marks : List (Text × Mark)}
    (h : w.ActsOn after k marks) (key : Text) :
    (w.slot key).Moves (marksOf key marks) (after.slot key) := by
  obtain ⟨ms, rfl, hm⟩ := h.moves
  by_cases hk : key = k
  · rw [hk, marksOf_self]
    exact hm
  · rw [marksOf_of_ne (Ne.symm hk), h.frame key hk]
    exact .rest _

variable (w : Watcher) (k : Text)

theorem slot_turnTo (work : Work) (key : Text) :
    (w.turnTo k work).slot key =
      if key = k then ⟨(w.slot k).pending, some work⟩ else w.slot key := by
  simp only [slot, turnTo, Coalescer.turnTo, Table.get?_put]
  split_ifs with h
  · rw [h]
  · rfl

theorem slot_submit (kind : EventKind) (path key : Text) :
    (w.submit kind path).slot key = if key = w.keyOf kind path then
      ⟨some kind, some ((w.slot key).work.getD .idle)⟩ else w.slot key := by
  have hpending : (w.submit kind path).coalescer.pending =
      w.coalescer.pending.put (w.keyOf kind path) kind := rfl
  rw [slot, hpending, Table.get?_put]
  simp only [submit, Coalescer.workers_submit]
  split_ifs <;> rfl

theorem actsOn_submit (kind : EventKind) (path : Text) :
    w.ActsOn (w.submit kind path) (w.keyOf kind path) (w.marks (.submit kind path)) := by
  refine ⟨⟨[.submitted kind], rfl, ?_⟩, fun key hk => by rw [slot_submit, if_neg hk]⟩
  rw [slot_submit, if_pos rfl]
  exact .submit _ kind

theorem marks_look_of_eq (begun : List (EventKind × Text))
    (h : (w.look k).dispatched = w.dispatched ++ begun) : w.marks (.look k) =
      begun.map (fun e => (e.2, .began e.1)) ++
        if begun ≠ [] ∧ (w.look k).isBusy k = false then [(k, .ended)] else [] := by
  rw [marks, h, List.drop_left]

/-- Handling an event leaves the other workers and the events that wait alone. -/
theorem dispatch_frame (kind : EventKind) : (w.dispatch kind k).dispatched = w.dispatched
    ∧ ((∀ key, (w.dispatch kind k).slot key = w.slot key)
      ∨ ∃ work, work ≠ .idle ∧ ∀ key, (w.dispatch kind k).slot key =
        if key = k then ⟨(w.slot k).pending, some work⟩ else w.slot key) := by
  cases kind with
  | deleted => exact ⟨rfl, .inl fun _ => rfl⟩
  | created => exact ⟨rfl, .inr ⟨_, by simp, slot_turnTo _ k _⟩⟩
  | changed => exact ⟨rfl, .inr ⟨_, by simp, slot_turnTo _ k _⟩⟩
  | rescan =>
    rw [dispatch]
    split
    · exact ⟨rfl, .inl fun _ => rfl⟩
    · exact ⟨rfl, .inl fun _ => rfl⟩
    · exact ⟨rfl, .inr ⟨_, by simp, slot_turnTo _ k _⟩⟩

theorem isBusy_of_slot {work : Option Work} (h : (w.slot k).work = work) :
    w.isBusy k = work.any (· != .idle) := by
  rw [← h]
  rfl

/-- The watcher once a worker has taken an event. -/
def taken (kind : EventKind) : Watcher :=
  { w with coalescer := w.coalescer.take k, dispatched := w.dispatched ++ [(kind, k)] }

/-- A look does nothing unless the worker is idle, and then it retires or takes the event. -/
theorem look_cases : w.look k = w
    ∨ (w.slot k = ⟨none, some .idle⟩ ∧ w.look k = { w with coalescer := w.coalescer.retire k })
    ∨ ∃ kind, w.slot k = ⟨some kind, some .idle⟩ ∧ w.look k = (w.taken k kind).dispatch kind k := by
  by_cases hidle : w.coalescer.workers.get? k = some .idle
  · rcases hpending : w.coalescer.pending.get? k with _ | kind
    · refine .inr (.inl ⟨by rw [slot, hidle, hpending], ?_⟩)
      rw [look, if_pos hidle, hpending]
    · refine .inr (.inr ⟨kind, by rw [slot, hidle, hpending], ?_⟩)
      rw [look, if_pos hidle, hpending]
      rfl
  · exact .inl (by rw [look, if_neg hidle])

theorem slot_retire (key : Text) : { w with coalescer := w.coalescer.retire k }.slot key =
    if key = k then ⟨(w.slot k).pending, none⟩ else w.slot key := by
  simp only [slot, Coalescer.retire, Table.get?_erase]
  split_ifs with hk
  · rw [hk]
  · rfl

theorem slot_taken (kind : EventKind) (key : Text) :
    (w.taken k kind).slot key = if key = k then ⟨none, (w.slot k).work⟩ else w.slot key := by
  simp only [slot, taken, Coalescer.take, Table.get?_erase]
  split_ifs with hk
  · rw [hk]
  · rfl

theorem actsOn_look : w.ActsOn (w.look k) k (w.marks (.look k)) := by
  rcases look_cases w k with hlook | ⟨hslot, hlook⟩ | ⟨kind, hslot, hlook⟩
  · rw [marks_look_of_eq w k [] (by rw [hlook, List.append_nil])]
    refine ⟨⟨[], by simp, ?_⟩, fun key _ => by rw [hlook]⟩
    rw [hlook]
    exact .rest _
  · rw [marks_look_of_eq w k [] (by rw [hlook, List.append_nil])]
    refine ⟨⟨[], by simp, ?_⟩, fun key hk => by rw [hlook, slot_retire, if_neg hk]⟩
    rw [hlook, slot_retire, if_pos rfl, hslot]
    exact .retire
  · obtain ⟨hdispatched, hframe⟩ := dispatch_frame (w.taken k kind) k kind
    have hbegun : (w.look k).dispatched = w.dispatched ++ [(kind, k)] := by
      rw [hlook, hdispatched]
      rfl
    have htaken : (w.taken k kind).slot k = ⟨none, some .idle⟩ := by
      rw [slot_taken, if_pos rfl, hslot]
    rw [marks_look_of_eq w k _ hbegun]
    -- the event is either handled at once, or its worker is busy from now on
    rcases hframe with hframe | ⟨work, hwork, hframe⟩
    · have hafter : (w.look k).slot k = ⟨none, some .idle⟩ := by rw [hlook, hframe, htaken]
      have hbusy : (w.look k).isBusy k = false := isBusy_of_slot _ _ (congrArg Slot.work hafter)
      refine ⟨⟨[.began kind, .ended], by simp [hbusy], ?_⟩, fun key hk => ?_⟩
      · rw [hslot, hafter]
        exact .takeAndEnd kind
      · rw [hlook, hframe, slot_taken, if_neg hk]
    · have hafter : (w.look k).slot k = ⟨none, some work⟩ := by
        rw [hlook, hframe, if_pos rfl, htaken]
      have hbusy : (w.look k).isBusy k = true := by
        rw [isBusy_of_slot _ _ (congrArg Slot.work hafter)]
        simpa using hwork
      refine ⟨⟨[.began kind], by simp [hbusy], ?_⟩, fun key hk => ?_⟩
      · rw [hslot, hafter]
        exact .take kind hwork
      · rw [hlook, hframe, if_neg hk, slot_taken, if_neg hk]

theorem actsOn_requestScan : w.ActsOn (w.requestScan k) k (w.marks (.requestScan k)) := by
  rw [requestScan]
  split
  · rename_i files hfound
    refine ⟨⟨[], rfl, ?_⟩, fun key hk => by rw [slot_turnTo, if_neg hk]; rfl⟩
    rw [slot_turnTo, if_pos rfl, show w.slot k = ⟨(w.slot k).pending, some (.found files)⟩ by
      rw [slot, hfound]]
    exact .goOn _ (by simp) (by simp)
  · exact ⟨⟨[], rfl, .rest _⟩, fun _ _ => rfl⟩

/-- Finishing leaves a worker alone, or makes a busy one idle. If that was at an update, the update
is over, and at most something was said about it. -/
theorem finish_cases : w.finish k = w
    ∨ ∃ work session, work ≠ .idle ∧ (w.slot k).work = some work
      ∧ w.finish k = { w with session }.turnTo k .idle
      ∧ ∀ kind ticket, work = .updating kind ticket →
        ∃ o notices, w.session.outcome? ticket = some o ∧ session = w.session.say notices := by
  have hsay : w.session = w.session.say [] := by rw [Session.say, List.append_nil]
  rw [finish]
  split
  · rename_i kind ticket hwork
    split
    · exact .inl rfl
    · rename_i e ho
      refine .inr ⟨_, _, by simp, hwork, rfl, ?_⟩
      rintro _ _ ⟨⟩
      exact ⟨_, _, ho, rfl⟩
    · rename_i o _ ho
      refine .inr ⟨_, w.session, by simp, hwork, rfl, ?_⟩
      rintro _ _ ⟨⟩
      exact ⟨o, [], ho, hsay⟩
  · rename_i scan hwork
    split_ifs
    · exact .inr ⟨_, _, by simp, hwork, rfl, nofun⟩
    · exact .inl rfl
  · exact .inl rfl

theorem actsOn_finish : w.ActsOn (w.finish k) k (w.marks (.finish k)) := by
  rcases finish_cases w k with hsame | ⟨work, session, hwork, hslot, hfinish, -⟩
  · have hmarks : w.marks (.finish k) = [] := by
      rw [marks, hsame, if_neg]
      rintro ⟨h1, h2⟩
      rw [h1] at h2
      cases h2
    refine ⟨⟨[], hmarks, ?_⟩, fun key _ => by rw [hsame]⟩
    rw [hsame]
    exact .rest _
  · have hafter : ∀ key, (w.finish k).slot key =
        if key = k then ⟨(w.slot k).pending, some .idle⟩ else w.slot key := by
      rw [hfinish]
      exact slot_turnTo _ k .idle
    have hmarks : w.marks (.finish k) = [(k, .ended)] := by
      refine if_pos ⟨?_, isBusy_of_slot _ _ (by rw [hafter, if_pos rfl])⟩
      rw [isBusy_of_slot _ _ hslot]
      simpa using hwork
    refine ⟨⟨[.ended], hmarks, ?_⟩, fun key hk => by rw [hafter, if_neg hk]⟩
    rw [hafter, if_pos rfl, show w.slot k = ⟨(w.slot k).pending, some work⟩ by rw [← hslot]]
    exact .finish _ hwork

/-- Under each key a step makes one move, and leaves the marks of it. -/
theorem moves_act (s : Step) (key : Text) :
    (w.slot key).Moves (marksOf key (w.marks s)) ((w.act s).slot key) := by
  cases s with
  | submit kind path => exact (actsOn_submit w kind path).moves_slot key
  | look k => exact (actsOn_look w k).moves_slot key
  | requestScan k => exact (actsOn_requestScan w k).moves_slot key
  | finish k => exact (actsOn_finish w k).moves_slot key
  | session s => exact .rest _

/-! ## The account of a key -/

/-- What the marks of a key come to. -/
structure Account where
  /-- The events that came in. -/
  submitted : List EventKind := []
  /-- The events whose handling began, each with the number of the one that had come in last. -/
  dispatched : List (EventKind × Nat) := []
  /-- How many of them are over. -/
  ended : Nat := 0

namespace Account

def add (a : Account) : Mark → Account
  | .submitted kind => { a with submitted := a.submitted ++ [kind] }
  | .began kind => { a with dispatched := a.dispatched ++ [(kind, a.submitted.length - 1)] }
  | .ended => { a with ended := a.ended + 1 }

def ofMarks (marks : List Mark) : Account := marks.foldl add {}

theorem zipIdx_concat (kinds : List EventKind) (kind : EventKind) :
    (kinds ++ [kind]).zipIdx = kinds.zipIdx ++ [(kind, kinds.length)] := by
  rw [List.zipIdx_append, Nat.zero_add, List.zipIdx_singleton]

/-- The account agrees with what there is under the key. The events dispatched are among those that
came in; the last of these was dispatched if none waits, and it is the one that waits otherwise. -/
structure Fits (a : Account) (s : Slot) : Prop where
  worker : ∀ kind, s.pending = some kind → s.work ≠ none
  inProgress : a.dispatched.length = a.ended + if s.work.any (· != .idle) then 1 else 0
  sublist : a.dispatched.Sublist a.submitted.zipIdx
  last : s.pending = none → a.dispatched.getLast? = a.submitted.zipIdx.getLast?
  waits : ∀ kind, s.pending = some kind →
    ∃ earlier, a.submitted = earlier ++ [kind] ∧ a.dispatched.Sublist earlier.zipIdx

variable {a : Account} {s s' : Slot}

theorem fits_take {kind : EventKind} (h : a.Fits ⟨some kind, some .idle⟩) :
    (a.add (.began kind)).dispatched.Sublist a.submitted.zipIdx
      ∧ (a.add (.began kind)).dispatched.getLast? = a.submitted.zipIdx.getLast? := by
  obtain ⟨earlier, hs, hsub⟩ := h.waits kind rfl
  have hadd : (a.add (.began kind)).dispatched = a.dispatched ++ [(kind, earlier.length)] := by
    rw [add, hs]
    simp
  rw [hadd, hs, zipIdx_concat, List.getLast?_concat, List.getLast?_concat]
  exact ⟨hsub.append (List.Sublist.refl _), rfl⟩

theorem fits_moves {marks : List Mark} (h : a.Fits s) (hm : s.Moves marks s') :
    (marks.foldl add a).Fits s' := by
  have hprogress := h.inProgress
  cases hm with
  | rest => exact h
  | submit _ kind =>
    have hsub : a.dispatched.Sublist (a.submitted ++ [kind]).zipIdx := by
      rw [zipIdx_concat]
      exact h.sublist.trans (List.sublist_append_left _ _)
    refine ⟨fun _ _ => by simp, ?_, hsub, nofun, fun k hk => ?_⟩
    · rcases hw : s.work with _ | work <;> simpa [hw, add] using hprogress
    · cases hk
      exact ⟨a.submitted, rfl, h.sublist⟩
  | retire => exact ⟨nofun, hprogress, h.sublist, h.last, nofun⟩
  | take kind hwork =>
    obtain ⟨hsub, hlast⟩ := fits_take h
    refine ⟨nofun, ?_, hsub, fun _ => hlast, nofun⟩
    simpa [add, hwork] using hprogress
  | takeAndEnd kind =>
    obtain ⟨hsub, hlast⟩ := fits_take h
    refine ⟨nofun, ?_, hsub, fun _ => hlast, nofun⟩
    simpa [add] using hprogress
  | goOn pending hwork hwork' =>
    exact ⟨fun _ _ => by simp, by simpa [hwork, hwork'] using hprogress, h.sublist, h.last, h.waits⟩
  | finish pending hwork =>
    exact ⟨fun _ _ => by simp, by simpa [add, hwork] using hprogress, h.sublist, h.last, h.waits⟩

/-- An event that was not dispatched waits, or a later one has come in. -/
theorem Fits.skipped (h : a.Fits s) {e : EventKind × Nat} (he : e ∈ a.submitted.zipIdx)
    (hnot : e ∉ a.dispatched) :
    s.pending = some e.1 ∨ ∃ later ∈ a.submitted.zipIdx, e.2 < later.2 := by
  obtain hnil | ⟨earlier, kind, hs⟩ := a.submitted.eq_nil_or_concat
  · rw [hnil] at he
    cases he
  rw [hs, List.concat_eq_append, zipIdx_concat] at he ⊢
  rcases List.mem_append.1 he with hearlier | hlast
  · refine .inr ⟨(kind, earlier.length), by simp, ?_⟩
    simpa using List.snd_lt_of_mem_zipIdx hearlier
  · obtain rfl : e = (kind, earlier.length) := by simpa using hlast
    rcases hp : s.pending with _ | k
    · refine absurd (List.mem_of_getLast? ?_) hnot
      rw [h.last hp, hs, List.concat_eq_append, zipIdx_concat, List.getLast?_concat]
    · obtain ⟨before, hs', -⟩ := h.waits k hp
      rw [hs, List.concat_eq_append] at hs'
      rw [(List.append_inj' hs' rfl).2 |> List.singleton_inj.1]
      exact .inl rfl

end Account

/-! ## Runs -/

theorem fits_play {key : Text} : ∀ (steps : List Step) {w : Watcher} {a : Account},
    a.Fits (w.slot key) →
      ((marksOf key (w.trace steps)).foldl Account.add a).Fits ((w.play steps).slot key)
  | [], _, _, h => h
  | s :: steps, w, a, h => by
    rw [trace, marksOf_append, List.foldl_append]
    exact fits_play steps (Account.fits_moves h (moves_act w s key))

theorem fits_ofMarks {w : Watcher} (h : w.coalescer = {}) (steps : List Step) (key : Text) :
    (Account.ofMarks (marksOf key (w.trace steps))).Fits ((w.play steps).slot key) := by
  have hempty : w.slot key = ⟨none, none⟩ := by rw [slot, h]; rfl
  refine fits_play steps ?_
  rw [hempty]
  exact ⟨nofun, rfl, List.Sublist.refl _, fun _ => rfl, nofun⟩

/-- A key under which an event waits has a worker. -/
theorem pending_eq_none {w : Watcher} (h : w.coalescer = {}) {steps : List Step}
    (hnil : (w.play steps).coalescer.workers = []) (key : Text) :
    (w.play steps).coalescer.pending.get? key = none := by
  refine Option.eq_none_iff_forall_ne_some.2 fun kind hkind => ?_
  refine (fits_ofMarks h steps key).worker kind hkind ?_
  rw [slot, hnil]
  rfl

/-- However the events come in and the workers take their turns: a key under which an event waits
has a worker. What is handled under a key is handled one at a time, and is a subsequence of what
came in under it, from which an event is missing only if it still waits or a later one has come in.
When there is no worker left, no event waits, and under each key the last one was handled. -/
theorem coalescing_safe {w : Watcher} (h : w.coalescer = {}) (steps : List Step) :
    let after := (w.play steps).coalescer
    (∀ key, after.pending.contains key = true → after.workers.contains key = true)
      ∧ (∀ key, let a := Account.ofMarks (marksOf key (w.trace steps))
        a.ended ≤ a.dispatched.length ∧ a.dispatched.length ≤ a.ended + 1
          ∧ a.dispatched.Sublist a.submitted.zipIdx
          ∧ (∀ e ∈ a.submitted.zipIdx, e ∉ a.dispatched →
            after.pending.get? key = some e.1 ∨ ∃ later ∈ a.submitted.zipIdx, e.2 < later.2)
          ∧ (after.workers = [] → a.dispatched.getLast? = a.submitted.zipIdx.getLast?))
      ∧ (after.workers = [] → after.pending = []) := by
  have hfits := fits_ofMarks h steps
  refine ⟨fun key hkey => ?_, fun key => ⟨?_, ?_, (hfits key).sublist, ?_, ?_⟩, ?_⟩
  · obtain ⟨kind, hkind⟩ := Option.isSome_iff_exists.1 hkey
    exact Option.isSome_iff_ne_none.2 ((hfits key).worker kind hkind)
  · rw [(hfits key).inProgress]
    exact Nat.le_add_right _ _
  · rw [(hfits key).inProgress]
    split_ifs <;> omega
  · exact fun e he hnot => (hfits key).skipped he hnot
  · exact fun hnil => (hfits key).last (pending_eq_none h hnil key)
  · exact fun hnil => Table.eq_nil_of_get?_none (pending_eq_none h hnil)

/-- While the first event of a file is handled, which fails, two more come in: the second is never
handled, the third is. -/
theorem coalescing_safe_failing :
    let s : Session := { disk := ⟨[], "/"⟩, index := { root := "/" } }
    let w : Watcher := { session := s, filter := ⟨{}, []⟩ }
    let broken : Session :=
      { s with updates := [⟨"/a", 1, false, .settled (.failed .notInstalled)⟩] }
    let steps := [Step.submit .created "/a", .look "/a", .submit .changed "/a",
      .submit .deleted "/a", .session broken, .finish "/a", .look "/a", .look "/a"]
    let a := Account.ofMarks (marksOf "/a" (w.trace steps))
    w.coalescer = {} ∧ (w.play steps).coalescer.workers = []
      ∧ a.submitted.zipIdx = [(.created, 0), (.changed, 1), (.deleted, 2)]
      ∧ a.dispatched.getLast? = some (.deleted, 2) := by
  intro s w broken steps a
  have hworkers : (w.play steps).coalescer.workers = [] := by decide +kernel
  have hsubmitted : a.submitted.zipIdx = [(.created, 0), (.changed, 1), (.deleted, 2)] := by
    decide +kernel
  obtain ⟨-, hkeys, -⟩ := coalescing_safe (w := w) rfl steps
  obtain ⟨-, -, -, -, hlast⟩ := hkeys "/a"
  refine ⟨rfl, hworkers, hsubmitted, (hlast hworkers).trans ?_⟩
  rw [show (Account.ofMarks (marksOf "/a" (w.trace steps))).submitted.zipIdx = _ from hsubmitted]
  rfl

end Watcher

end VerilogIndex
