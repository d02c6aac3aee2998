import VerilogIndex.Session.Batch
import VerilogIndex.Watch.Coalescer

/-!
# The watcher

A watcher keeps the index of a session in step with the disk: it passes file events on to a
coalescer, whose workers update the index. A worker that comes to a read of a file stops there; all
workers look for their events before any file is read.

How long a worker sleeps before it looks is left out, so `look` may come at any time after an event
has come in, with other events and other workers' steps before it. `hold` and `join` let all workers
look at once.
-/

namespace VerilogIndex

/-- What a watcher asks of the system's file observer. -/
inductive ObserverCall where
  | schedule (root : Text)
  | start
  | stop
  | join
  deriving DecidableEq, Repr

structure Watcher where
  session : Session
  filter : EventFilter
  coalescer : Coalescer := {}
  /-- The events that were handled, under their keys. -/
  dispatched : List (EventKind × Text) := []
  isOn : Bool := false

namespace Watcher

def create (s : Session) : Except Discovery.Error Watcher := do
  return { session := s, filter := ← EventFilter.ofConfig s.index.config }

/-- Turns the observer on, unless it is on. -/
def start (w : Watcher) : List ObserverCall × Watcher :=
  if w.isOn then ([], w)
  else
    let root := w.session.index.root
    ([.schedule root, .start], { w with isOn := true, session := w.session.say [.watching root] })

/-- Turns the observer off, unless it is off. -/
def stop (w : Watcher) : List ObserverCall × Watcher :=
  if w.isOn then
    let root := w.session.index.root
    ([.stop, .join], { w with isOn := false, session := w.session.say [.stoppedWatching root] })
  else ([], w)

/-- The key of an event. -/
def keyOf (w : Watcher) (kind : EventKind) (path : Text) : Text :=
  if kind = .rescan then Coalescer.scanKey else w.session.place path

/-- An event comes in. -/
def submit (w : Watcher) (kind : EventKind) (path : Text) : Watcher :=
  { w with coalescer := w.coalescer.submit kind (w.keyOf kind path) }

/-- A file event comes in. -/
def notify (w : Watcher) (e : FileEvent) : Except Discovery.Error Watcher := do
  return (← w.filter.posts e).foldl (fun w p => w.submit p.1 p.2) w

/-- The worker of a key turns to something else. -/
def turnTo (w : Watcher) (key : Text) (work : Work) : Watcher :=
  { w with coalescer := w.coalescer.turnTo key work }

/-- Starts to handle an event, as far as no file is read. -/
def dispatch (w : Watcher) (kind : EventKind) (key : Text) : Watcher :=
  match kind with
  | .deleted =>
    let (_, after) := w.session.index.remove key
    { w with session := w.session.become after }
  | .created | .changed =>
    let (ticket, session) := w.session.issue key false
    { w with session }.turnTo key (.updating kind ticket)
  | .rescan =>
    match w.session.beginScan with
    | (.error _, session) => { w with session := session.say [.failedToHandle kind.text key] }
    | (.ok [], session) => { w with session }
    | (.ok files, session) => { w with session }.turnTo key (.found files)

/-- An idle worker has slept, and takes its next event, or retires if there is none. -/
def look (w : Watcher) (key : Text) : Watcher :=
  if w.coalescer.workers.get? key = some .idle then
    match w.coalescer.pending.get? key with
    | none => { w with coalescer := w.coalescer.retire key }
    | some kind =>
      { w with
        coalescer := w.coalescer.take key
        dispatched := w.dispatched ++ [(kind, key)] }.dispatch kind key
  else w

/-- A worker goes on until it has to wait or retires. An event that is handled at once leaves no
other one under its key, so that the second look is the last. -/
def run (w : Watcher) (key : Text) : Watcher := (w.look key).look key

/-- Requests the updates of a scan. -/
def requestScan (w : Watcher) (key : Text) : Watcher :=
  match w.coalescer.workers.get? key with
  | some (.found files) =>
    let (scan, session) := w.session.issueScan files
    { w with session }.turnTo key (.scanning scan)
  | _ => w

/-- Ends what a worker is at, if that is over. -/
def finish (w : Watcher) (key : Text) : Watcher :=
  match w.coalescer.workers.get? key with
  | some (.updating kind ticket) =>
    match w.session.outcome? ticket with
    | none => w
    | some (.failed _) =>
      { w with session := w.session.say [.failedToHandle kind.text key] }.turnTo key .idle
    | some _ => w.turnTo key .idle
  | some (.scanning scan) =>
    if w.session.isOver scan then
      { w with session := (w.session.endScan scan).2 }.turnTo key .idle
    else w
  | _ => w

/-- All workers go on until they have to wait for a file. -/
def hold (w : Watcher) : Watcher :=
  let w := w.coalescer.workers.keys.foldl run w
  w.coalescer.workers.keys.foldl requestScan w

/-- The turn of an update in a round; the worker that waits for it goes on at once. -/
def turn (f : Session → Nat → Session) (w : Watcher) (ticket : Nat) : Watcher :=
  let w := { w with session := f w.session ticket }
  match w.coalescer.keyOf? ticket with
  | some key => (w.finish key).run key
  | none => w

/-- The turn of a scan at the end of a round. -/
def scanTurn (w : Watcher) (key : Text) : Watcher :=
  match w.coalescer.workers.get? key with
  | some (.scanning _) => ((w.finish key).run key).requestScan key
  | _ => w

def round (w : Watcher) : Watcher :=
  let w := w.session.tickets.foldl (turn Session.readTurn) w
  let w := w.session.tickets.foldl (turn Session.recordTurn) w
  w.coalescer.workers.keys.foldl scanTurn w

/-- There is less to do than before: fewer events wait, or as many and fewer updates. -/
def LessToDo (after before : Watcher) : Prop :=
  after.coalescer.pending.length < before.coalescer.pending.length ∨
    after.coalescer.pending.length = before.coalescer.pending.length ∧
      after.session.unsettled < before.session.unsettled

instance (after before : Watcher) : Decidable (LessToDo after before) :=
  inferInstanceAs (Decidable (_ ∨ _))

/-- Round after round until every worker has retired. Each round leaves less to do, so the check
never stops the run early. -/
def settle (w : Watcher) : Watcher :=
  let after := w.round
  if LessToDo after w then settle after else after
termination_by (w.coalescer.pending.length, w.session.unsettled)
decreasing_by
  rename_i h
  rcases h with h | ⟨he, h⟩
  · exact Prod.Lex.left _ _ h
  · rw [he]
    exact Prod.Lex.right _ h

/-- Waits until every event that came in is handled. -/
def join (w : Watcher) : Watcher :=
  let w := w.hold.settle
  { w with session := w.session.tidy }

end Watcher

end VerilogIndex
