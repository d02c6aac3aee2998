import VerilogIndex.Session.Basic

/-!
# Rounds

A round takes every update that holds the lock of its path to its end: first all of them read their
files, then they record their modules one after the other. An update that waits for a path comes
into the next round, or ends at once if there is a newer request.
-/

namespace VerilogIndex.Session

/-- The tickets of the updates, oldest first. -/
def tickets (s : Session) : List Nat := s.updates.map (·.ticket)

/-- The number of updates that have not ended. -/
def unsettled (s : Session) : Nat := s.updates.countP fun u => u.stage.outcome?.isNone

/-- Settles an update whose outcome is fixed. -/
def settleLeaving (s : Session) (ticket : Nat) : Session :=
  match s.stage? ticket with
  | some (.leaving _) => s.step ticket
  | _ => s

/-- A new request: the first one for its path holds the lock at once. -/
def issue (s : Session) (path : Text) (hangs : Bool) : Nat × Session :=
  let (ticket, s) := s.request path hangs
  (ticket, s.step ticket)

/-- The first half of a round for one update: it reads its file. -/
def readTurn (s : Session) (ticket : Nat) : Session :=
  match s.stage? ticket with
  | some .ready => (s.step ticket).settleLeaving ticket
  | _ => s

/-- The second half of a round for one update: it records its module, or takes over the lock. -/
def recordTurn (s : Session) (ticket : Nat) : Session :=
  match s.stage? ticket with
  | some .waiting => (s.step ticket).settleLeaving ticket
  | some (.loaded _) => ((s.step ticket).step ticket).settleLeaving ticket
  | _ => s

def round (s : Session) : Session :=
  let s := s.tickets.foldl readTurn s
  s.tickets.foldl recordTurn s

/-- Round after round until every update has ended. Each round ends an update, so the check on the
number of updates left never stops the run early. -/
def settleAll (s : Session) : Session :=
  let after := s.round
  if after.unsettled < s.unsettled then settleAll after else after
termination_by s.unsettled

/-- Forgets the updates that have ended. -/
def tidy (s : Session) : Session :=
  { s with updates := s.updates.filter fun u => u.stage.outcome?.isNone }

end VerilogIndex.Session
