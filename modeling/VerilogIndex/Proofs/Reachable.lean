import VerilogIndex.Proofs.Interleaving

/-!
# Reachable sessions

A session changes by actions in any order, and by requests and batches that run to their end. A
request that runs to its end is made of actions, with something said in between. So what actions
keep, whatever is said, holds of every session that can be reached (`Reachable.keeps`).
-/

namespace VerilogIndex.Session

/-- The sessions that come of one session. -/
inductive Reachable (s₀ : Session) : Session → Prop
  | start : Reachable s₀ s₀
  | act {s : Session} (hs : Reachable s₀ s) (a : Action) : Reachable s₀ (s.act a)
  | perform {s : Session} (hs : Reachable s₀ s) (r : Request) : Reachable s₀ (s.perform r).2
  | batch {s : Session} (hs : Reachable s₀ s) (rs : List Request) : Reachable s₀ (s.batch rs).2

theorem reachable_run {s₀ s : Session} (hs : Reachable s₀ s) :
    ∀ actions : List Action, Reachable s₀ (s.run actions)
  | [] => hs
  | a :: as => reachable_run (hs.act a) as

/-- Requests for updates and their steps keep the property. -/
structure Steady (P : Session → Prop) : Prop where
  request : ∀ {s}, P s → ∀ path hangs, P (s.request path hangs).2
  step : ∀ {s}, P s → ∀ ticket, P (s.step ticket)

namespace Steady

variable {P : Session → Prop} {s : Session}

theorem settleLeaving (h : Steady P) (hs : P s) (ticket : Nat) : P (s.settleLeaving ticket) := by
  rw [Session.settleLeaving]
  split
  · exact h.step hs ticket
  · exact hs

theorem issue (h : Steady P) (hs : P s) (path : Text) (hangs : Bool) : P (s.issue path hangs).2 :=
  h.step (h.request hs path hangs) _

theorem foldl {f : Session → Nat → Session} (hf : ∀ {s}, P s → ∀ ticket, P (f s ticket)) :
    ∀ (tickets : List Nat) {s : Session}, P s → P (tickets.foldl f s)
  | [], _, hs => hs
  | t :: ts, _, hs => foldl hf ts (hf hs t)

theorem round (h : Steady P) (hs : P s) : P s.round := by
  refine foldl (fun hs ticket => ?_) _ (foldl (fun hs ticket => ?_) _ hs)
  · rw [recordTurn]
    split
    · exact h.settleLeaving (h.step hs ticket) ticket
    · exact h.settleLeaving (h.step (h.step hs ticket) ticket) ticket
    · exact hs
  · rw [readTurn]
    split
    · exact h.settleLeaving (h.step hs ticket) ticket
    · exact hs

theorem issueScan (h : Steady P) :
    ∀ (files : List Text) {s : Session}, P s → P (s.issueScan files).2
  | [], _, hs => hs
  | f :: fs, _, hs => issueScan h fs (h.issue hs f false)

end Steady

/-- Actions keep the property, and it does not matter for it what is said. -/
structure Lasting (P : Session → Prop) : Prop where
  act : ∀ {s}, P s → ∀ a, P (s.act a)
  say : ∀ {s}, P s → ∀ notices, P (s.say notices)

namespace Lasting

variable {P : Session → Prop} {s : Session}

theorem steady (h : Lasting P) : Steady P where
  request hs path hangs := h.act hs (.request path hangs)
  step hs ticket := h.act hs (.advance ticket)

theorem through {α β : Type} {f : Session → α → β × Session} (hf : ∀ {s}, P s → ∀ a, P (f s a).2) :
    ∀ (as : List α) {s : Session}, P s → P (Session.through f as s).2
  | [], _, hs => hs
  | a :: as, _, hs => through hf as (hf hs a)

theorem start (h : Lasting P) (hs : P s) (r : Request) : P (s.start r).2 := by
  cases r with
  | rescan =>
    have hscan : P s.beginScan.2 := h.act hs .scan
    rw [Session.start]
    split <;> rename_i he <;> rw [he] at hscan
    · exact hscan
    · exact hscan
    · exact h.steady.issueScan _ hscan
  | updateFile path hangs => exact h.steady.issue hs _ hangs
  | updateText path t => exact h.act hs (.updateText (s.place path) t)
  | remove path => exact h.act hs (.remove (s.place path))
  | write path content => exact h.act hs (.write path content)
  | delete path => exact h.act hs (.delete path)

theorem finish (h : Lasting P) (hs : P s) (task : Task) : P (s.finish task).2 := by
  rw [Session.finish.eq_def]
  split
  · split <;> exact hs
  · split_ifs
    · exact h.say hs _
    · exact hs
  · exact hs

theorem finishAll (h : Lasting P) (hs : P s) (tasks : List Task) : P (s.finishAll tasks).2 := by
  induction s, tasks using Session.finishAll.induct with
  | case1 s tasks left after he hlt ih =>
    have hafter := through h.finish tasks (h.steady.round hs)
    rw [he] at hafter
    rw [Session.finishAll, he]
    simp only [hlt, if_true]
    exact ih hafter
  | case2 s tasks left after he hge =>
    have hafter := through h.finish tasks (h.steady.round hs)
    rw [he] at hafter
    rw [Session.finishAll, he]
    simp only [hge, if_false]
    exact hafter

theorem perform (h : Lasting P) (hs : P s) (r : Request) : P (s.perform r).2 := by
  have hstart := h.start hs r
  rw [Session.perform]
  split <;> rename_i he <;> rw [he] at hstart
  · exact hstart
  · exact h.act (h.finishAll hstart _) .tidy

theorem batch (h : Lasting P) (hs : P s) (rs : List Request) : P (s.batch rs).2 :=
  h.act (h.finishAll (through h.start rs hs) _) .tidy

end Lasting

/-- What actions keep holds of every session that can be reached. -/
theorem Reachable.keeps {P : Session → Prop} (h : Lasting P) {s₀ s : Session}
    (hs : Reachable s₀ s) (h₀ : P s₀) : P s := by
  induction hs with
  | start => exact h₀
  | act _ a ih => exact h.act ih a
  | perform _ r ih => exact h.perform ih r
  | batch _ rs ih => exact h.batch ih rs

end VerilogIndex.Session
