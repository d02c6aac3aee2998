import VerilogIndex.Table

/-!
# Requests in flight

Each request to read a path again takes a ticket, and only the newest ticket of a path counts. The
requests of a path stand in line for its lock. Tickets grow over all paths, and all that is kept for
a path goes with its last request.
-/

namespace VerilogIndex

structure Requests where
  /-- The newest ticket of a path. -/
  tickets : Table Nat := []
  /-- The number of requests of a path. -/
  pending : Table Nat := []
  /-- The line of tickets for the lock of a path; the first one holds it. -/
  lines : Table (List Nat) := []
  /-- The next ticket. -/
  nextTicket : Nat := 1
  deriving DecidableEq, Repr

namespace Requests

/-- Gives out a ticket for a path, which makes all older ones stale. -/
def supersede (r : Requests) (path : Text) : Requests :=
  { r with tickets := r.tickets.put path r.nextTicket, nextTicket := r.nextTicket + 1 }

/-- Makes the requests of a path stale, if there are any. -/
def outdate (r : Requests) (path : Text) : Requests :=
  if r.pending.contains path then r.supersede path else r

/-- Makes all requests stale. -/
def outdateAll (r : Requests) : Requests := r.pending.keys.foldl supersede r

/-- One more request for a path, with the next ticket. -/
def enter (r : Requests) (path : Text) : Requests :=
  let line := (r.lines.get? path).getD []
  { r.supersede path with
    pending := r.pending.put path ((r.pending.get? path).getD 0 + 1)
    lines := r.lines.put path (line ++ [r.nextTicket]) }

/-- The ticket is the newest of its path. -/
def isNewest (r : Requests) (path : Text) (ticket : Nat) : Bool :=
  r.tickets.get? path = some ticket

/-- The ticket holds the lock of its path. -/
def isFirst (r : Requests) (path : Text) (ticket : Nat) : Bool :=
  ((r.lines.get? path).getD []).head? = some ticket

/-- The request that holds the lock of a path leaves. -/
def leave (r : Requests) (path : Text) : Requests :=
  match (r.pending.get? path).getD 0 - 1 with
  | 0 =>
    { r with
      tickets := r.tickets.erase path
      pending := r.pending.erase path
      lines := r.lines.erase path }
  | left =>
    { r with
      pending := r.pending.put path left
      lines := r.lines.put path ((r.lines.get? path).getD []).tail }

end Requests

end VerilogIndex
