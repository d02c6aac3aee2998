import VerilogIndex.Proofs.Classification
import VerilogIndex.Proofs.Coalescing

/-!
# Reports of files

A file event is reported to a watcher, which posts what concerns its index. Reports, changes of
files, workers and updates take their turns in any order (`Watcher.perform`). To handle all events
that came in is to let workers and updates take their turns, so that what each of them keeps stays
true (`Watcher.Steady.join`). Main statement: when a source file is reported to be there, the worker
of its place requests an update of it (`session_look_report`).
-/

namespace VerilogIndex

/-! ## Reports -/

namespace FileEvent

/-- Where a file is reported to be. -/
def present? : FileEvent → Option Text
  | .created p => some p
  | .modified p => some p
  | .deleted _ => none
  | .moved _ target => some target
  | .ofFolder _ => none

def paths (e : FileEvent) : List Text := e.parts.map (·.2)

theorem of_mem_parts {e : FileEvent} {kind : EventKind} {p : Text} (h : (kind, p) ∈ e.parts) :
    kind ≠ .rescan ∧ (kind ≠ .deleted → e.present? = some p) := by
  cases e <;> simp only [parts, List.mem_cons, List.not_mem_nil, or_false, Prod.mk.injEq] at h
  · simp [h.1, h.2, present?]
  · simp [h.1, h.2, present?]
  · simp [h.1]
  · rcases h with h | h <;> simp [h.1, h.2, present?]

theorem exists_parts_eq {e : FileEvent} {p : Text} (h : e.present? = some p) :
    ∃ before kind, e.parts = before ++ [(kind, p)] ∧ kind ≠ .deleted ∧ kind ≠ .rescan := by
  cases e <;> cases h
  · exact ⟨[], .created, rfl, by decide, by decide⟩
  · exact ⟨[], .changed, rfl, by decide, by decide⟩
  · exact ⟨[(.deleted, _)], .created, rfl, by decide, by decide⟩

end FileEvent

namespace EventFilter

variable {f : EventFilter} {e : FileEvent} {kind : EventKind} {p : Text}

theorem post_of_source (h : f.classify p = .ok (some .source)) (kind : EventKind) :
    f.post kind p = .ok (some (kind, p)) := by
  simp only [post, h]
  rfl

/-- What is posted about a path is an event of it, unless the path is that of a filelist. -/
theorem of_mem_posts {posted : List (EventKind × Text)} (h : f.posts e = .ok posted)
    (hlist : ∀ p ∈ e.paths, f.classify p ≠ .ok (some .filelist)) (hp : (kind, p) ∈ posted) :
    (kind, p) ∈ e.parts ∧ f.classify p = .ok (some .source) := by
  rw [posts, bind_eq_ok_iff] at h
  obtain ⟨found, hfound, hposted⟩ := h
  cases hposted
  obtain ⟨o, ho, rfl⟩ := List.mem_filterMap.1 hp
  obtain ⟨⟨k, q⟩, hpart, hpost⟩ := exists_mem_of_mapM hfound _ ho
  rw [post, bind_eq_ok_iff] at hpost
  obtain ⟨category, hcategory, hpost⟩ := hpost
  rcases category with _ | _ | _
  · cases hpost
  · exact absurd hcategory (hlist q (List.mem_map_of_mem hpart))
  · cases hpost
    exact ⟨hpart, hcategory⟩

/-- Where one path can be told to be that of a source file, every path can be told. -/
theorem exists_classify (h : f.classify p = .ok (some .source)) (q : Text) :
    ∃ category, f.classify q = .ok category := by
  have hpattern : ∀ name, ∃ b, Discovery.isFilelist f.config name = .ok b := by
    rw [classify] at h
    split_ifs at h
    · cases h
    · rw [bind_eq_ok_iff] at h
      obtain ⟨b, hb, -⟩ := h
      intro name
      rw [Discovery.isFilelist] at hb ⊢
      split at hb
      · exact ⟨_, rfl⟩
      · cases hb
  rw [classify]
  split_ifs
  · exact ⟨_, rfl⟩
  · obtain ⟨b, hb⟩ := hpattern ((Text.splitAll '/' (Path.normalise q)).getLastD [])
    simp only [hb]
    cases b <;> exact ⟨_, rfl⟩

/-- Of a source file that is reported to be there, this is the last that is posted. -/
theorem exists_posts_eq (hp : e.present? = some p) (h : f.classify p = .ok (some .source)) :
    ∃ before kind, f.posts e = .ok (before ++ [(kind, p)]) ∧ kind ≠ .deleted ∧ kind ≠ .rescan := by
  obtain ⟨before, kind, hparts, hkind⟩ := FileEvent.exists_parts_eq hp
  obtain ⟨found, hfound⟩ := exists_mapM_eq_ok (f := fun part => f.post part.1 part.2)
    (fun part => by
      obtain ⟨category, hcategory⟩ := exists_classify h part.2
      rw [post, hcategory]
      rcases category with _ | _ | _ <;> exact ⟨_, rfl⟩) before
  refine ⟨found.filterMap id, kind, ?_, hkind⟩
  rw [posts, hparts, List.mapM_append, hfound]
  simp [post_of_source h, bind, Except.bind, pure, Except.pure]

end EventFilter

/-! ## Runs -/

namespace Watcher

/-- Something that happens to a watcher and the files it watches. -/
inductive Action where
  /-- An event is reported, and goes by if its paths cannot be told from those of filelists. -/
  | report (e : FileEvent)
  | look (key : Text)
  | requestScan (key : Text)
  | finish (key : Text)
  | advance (ticket : Nat)
  | join
  /-- The files on the disk become others. -/
  | change (root : Folder)

def perform (w : Watcher) : Action → Watcher
  | .report e =>
    match w.notify e with
    | .ok after => after
    | .error _ => w
  | .look key => w.look key
  | .requestScan key => w.requestScan key
  | .finish key => w.finish key
  | .advance ticket => { w with session := w.session.step ticket }
  | .join => w.join
  | .change root => { w with session := { w.session with disk := { w.session.disk with root } } }

def performAll (w : Watcher) (actions : List Action) : Watcher := actions.foldl perform w

/-- Workers and updates keep the property. -/
structure Steady (P : Watcher → Prop) : Prop where
  look : ∀ {w}, P w → ∀ key, P (w.look key)
  requestScan : ∀ {w}, P w → ∀ key, P (w.requestScan key)
  finish : ∀ {w}, P w → ∀ key, P (w.finish key)
  step : ∀ {w}, P w → ∀ ticket, P { w with session := w.session.step ticket }
  tidy : ∀ {w}, P w → P { w with session := w.session.tidy }

namespace Steady

variable {P : Watcher → Prop} {w : Watcher}

theorem foldl {α : Type} {f : Watcher → α → Watcher} (hf : ∀ {w}, P w → ∀ a, P (f w a)) :
    ∀ (as : List α) {w : Watcher}, P w → P (as.foldl f w)
  | [], _, hw => hw
  | a :: as, _, hw => foldl hf as (hf hw a)

theorem run (h : Steady P) (hw : P w) (key : Text) : P (w.run key) := h.look (h.look hw key) key

theorem settleLeaving (h : Steady P) (hw : P w) (ticket : Nat) :
    P { w with session := w.session.settleLeaving ticket } := by
  rw [Session.settleLeaving]
  split
  · exact h.step hw ticket
  · exact hw

theorem readTurn (h : Steady P) (hw : P w) (ticket : Nat) :
    P { w with session := w.session.readTurn ticket } := by
  rw [Session.readTurn]
  split
  · exact h.settleLeaving (h.step hw ticket) ticket
  · exact hw

theorem recordTurn (h : Steady P) (hw : P w) (ticket : Nat) :
    P { w with session := w.session.recordTurn ticket } := by
  rw [Session.recordTurn]
  split
  · exact h.settleLeaving (h.step hw ticket) ticket
  · exact h.settleLeaving (h.step (h.step hw ticket) ticket) ticket
  · exact hw

theorem turn (h : Steady P) {f : Session → Nat → Session}
    (hf : ∀ {w}, P w → ∀ ticket, P { w with session := f w.session ticket }) (hw : P w)
    (ticket : Nat) : P (w.turn f ticket) := by
  have hturn := hf hw ticket
  simp only [Watcher.turn]
  split
  · exact h.run (h.finish hturn _) _
  · exact hturn

theorem scanTurn (h : Steady P) (hw : P w) (key : Text) : P (w.scanTurn key) := by
  rw [Watcher.scanTurn]
  split
  · exact h.requestScan (h.run (h.finish hw key) key) key
  · exact hw

theorem round (h : Steady P) (hw : P w) : P w.round :=
  foldl h.scanTurn _ (foldl (h.turn h.recordTurn) _ (foldl (h.turn h.readTurn) _ hw))

theorem settle (h : Steady P) (hw : P w) : P w.settle := by
  induction w using Watcher.settle.induct with
  | case1 w after hless ih =>
    rw [Watcher.settle, if_pos hless]
    exact ih (h.round hw)
  | case2 w after hless =>
    rw [Watcher.settle, if_neg hless]
    exact h.round hw

/-- What workers and updates keep holds when all events are handled. -/
theorem join (h : Steady P) (hw : P w) : P w.join :=
  h.tidy (h.settle (foldl h.requestScan _ (foldl h.run _ hw)))

end Steady

/-! ## Workers -/

theorem look_of_slot {w : Watcher} {key : Text} {kind : EventKind}
    (h : w.slot key = ⟨some kind, some .idle⟩) :
    w.look key = (w.taken key kind).dispatch kind key := by
  have hpending : w.coalescer.pending.get? key = some kind := congrArg Slot.pending h
  have hwork : w.coalescer.workers.get? key = some .idle := congrArg Slot.work h
  rw [look, if_pos hwork, hpending]
  rfl

theorem session_dispatch (w : Watcher) (key : Text) {kind : EventKind} (hdeleted : kind ≠ .deleted)
    (hrescan : kind ≠ .rescan) :
    (w.dispatch kind key).session = (w.session.issue key false).2 := by
  cases kind with
  | created => rfl
  | changed => rfl
  | deleted => exact absurd rfl hdeleted
  | rescan => exact absurd rfl hrescan

/-- Events that come in leave the session alone, and workers that come with them are idle. -/
theorem foldl_submit : ∀ (posted : List (EventKind × Text)) (w : Watcher),
    (posted.foldl (fun w x => w.submit x.1 x.2) w).session = w.session
    ∧ ((∀ key, (w.slot key).work.getD .idle = .idle) →
      ∀ key, ((posted.foldl (fun w x => w.submit x.1 x.2) w).slot key).work.getD .idle = .idle)
  | [], _ => ⟨rfl, id⟩
  | x :: posted, w => by
    obtain ⟨hsession, hwork⟩ := foldl_submit posted (w.submit x.1 x.2)
    refine ⟨hsession, fun h => hwork fun key => ?_⟩
    rw [slot_submit]
    split_ifs
    · exact h key
    · exact h key

/-- When a source file is reported to be there, the worker of its place requests an update. -/
theorem session_look_report {w : Watcher} (hidle : ∀ key, (w.slot key).work.getD .idle = .idle)
    {e : FileEvent} {p : Text} (hp : e.present? = some p)
    (hsource : w.filter.classify p = .ok (some .source)) :
    ((w.perform (.report e)).look (w.session.place p)).session =
      (w.session.issue (w.session.place p) false).2 := by
  obtain ⟨before, kind, hposts, hdeleted, hrescan⟩ := EventFilter.exists_posts_eq hp hsource
  obtain ⟨hsession, hwork⟩ := foldl_submit before w
  have hreport : w.perform (.report e) =
      (before.foldl (fun w x => w.submit x.1 x.2) w).submit kind p := by
    rw [perform, notify, hposts]
    exact List.foldl_concat ..
  generalize before.foldl (fun w x => w.submit x.1 x.2) w = v at *
  have hkey : v.keyOf kind p = w.session.place p := by rw [keyOf, if_neg hrescan, hsession]
  have hslot : (v.submit kind p).slot (w.session.place p) = ⟨some kind, some .idle⟩ := by
    rw [slot_submit, if_pos hkey.symm, hwork hidle]
  rw [hreport, look_of_slot hslot, session_dispatch _ _ hdeleted hrescan, ← hsession]
  rfl

end Watcher

end VerilogIndex
