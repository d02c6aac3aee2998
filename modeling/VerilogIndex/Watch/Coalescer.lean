import VerilogIndex.Session.Scan
import VerilogIndex.Watch.Event

/-!
# The coalescer

Events wait under a key: the path, or one key for all scans. A newer event takes the place of one
that still waits. Each key with events has one worker, which handles them one after the other.

Before each look for an event a worker sleeps for the time that is set for it (`Config.debounce`).
No clock is kept here, so a look may come at any later time: before or after those of other workers,
before or after events that come in meanwhile, and also if nothing is set.
-/

namespace VerilogIndex

/-- What a worker is at. -/
inductive Work where
  /-- About to look for its next event, sooner or later. -/
  | idle
  /-- An update is under way. -/
  | updating (kind : EventKind) (ticket : Nat)
  /-- A scan has found its files, whose updates are still to be requested. -/
  | found (files : List Text)
  /-- The updates of a scan are under way. -/
  | scanning (scan : Session.Scan)
  deriving DecidableEq, Repr

structure Coalescer where
  /-- The event that waits under a key. -/
  pending : Table EventKind := []
  /-- The worker of a key. -/
  workers : Table Work := []
  deriving DecidableEq, Repr

namespace Coalescer

/-- The key of all scans. -/
def scanKey : Text := "<rescan>"

/-- An event comes in under a key. -/
def submit (c : Coalescer) (kind : EventKind) (key : Text) : Coalescer :=
  { pending := c.pending.put key kind
    workers := if c.workers.contains key then c.workers else c.workers.put key .idle }

/-- The event that waits under a key goes to its worker. -/
def take (c : Coalescer) (key : Text) : Coalescer := { c with pending := c.pending.erase key }

/-- The worker of a key turns to something else. -/
def turnTo (c : Coalescer) (key : Text) (work : Work) : Coalescer :=
  { c with workers := c.workers.put key work }

/-- The worker of a key is done. -/
def retire (c : Coalescer) (key : Text) : Coalescer := { c with workers := c.workers.erase key }

/-- The key whose worker waits for an update. -/
def keyOf? (c : Coalescer) (ticket : Nat) : Option Text :=
  (c.workers.find? fun w =>
    match w.2 with
    | .updating _ t => t == ticket
    | _ => false).map (·.1)

end Coalescer

end VerilogIndex
