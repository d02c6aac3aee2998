import VerilogIndex.Session.Scan

/-!
# Batches

A batch issues all its requests before any file is read. Then the updates run in rounds; a scan ends
with the round that ends its last update.
-/

namespace VerilogIndex

inductive Request where
  | rescan
  | updateFile (path : Text) (hangs : Bool)
  | updateText (path text : Text)
  | remove (path : Text)
  | write (path : Text) (content : Text.Utf8.Bytes)
  | delete (path : Text)
  deriving Repr

inductive Reply where
  | done
  | count (n : Nat)
  | names (owned : List Text)
  | module (result : Except Elaboration.Error (Option Module))
  | noDiscovery (e : Discovery.Error)

namespace Session

/-- A request under way. -/
inductive Task where
  | over (r : Reply)
  | updating (ticket : Nat)
  | scanning (scan : Scan)

/-- Puts a file on the disk. -/
def write (s : Session) (path : Text) (content : Text.Utf8.Bytes) : Session :=
  { s with disk := s.disk.putFile (s.place path) content }

/-- Takes a file off the disk. -/
def delete (s : Session) (path : Text) : Session :=
  { s with disk := s.disk.erase (s.place path) }

/-- Does what a request does before any file is read. -/
def start (s : Session) : Request → Task × Session
  | .rescan =>
    match s.beginScan with
    | (.error e, s) => (.over (.noDiscovery e), s)
    | (.ok [], s) => (.over (.count 0), s)
    | (.ok files, s) =>
      let (scan, s) := s.issueScan files
      (.scanning scan, s)
  | .updateFile path hangs =>
    let (ticket, s) := s.issue (s.place path) hangs
    (.updating ticket, s)
  | .updateText path t =>
    let (result, s) := s.updateText path t
    (.over (.module result), s)
  | .remove path =>
    let (owned, s) := s.remove path
    (.over (.names owned), s)
  | .write path content => (.over .done, s.write path content)
  | .delete path => (.over .done, s.delete path)

/-- Ends a task whose updates have ended. -/
def finish (s : Session) : Task → Task × Session
  | .updating ticket =>
    match s.outcome? ticket with
    | some o => (.over (.module o.result), s)
    | none => (.updating ticket, s)
  | .scanning scan =>
    if s.isOver scan then
      let (count, s) := s.endScan scan
      (.over (.count count), s)
    else (.scanning scan, s)
  | task => (task, s)

/-- Carries a session through a list, with a result for each member. -/
def through {α β : Type} (f : Session → α → β × Session) :
    List α → Session → List β × Session
  | [], s => ([], s)
  | a :: as, s =>
    let (b, s) := f s a
    let (bs, s) := through f as s
    (b :: bs, s)

/-- Runs the tasks in rounds until every update has ended. -/
def finishAll (s : Session) (tasks : List Task) : List Task × Session :=
  let (tasks, after) := through finish tasks s.round
  if after.unsettled < s.unsettled then finishAll after tasks else (tasks, after)
termination_by s.unsettled

def Task.reply? : Task → Option Reply
  | .over r => some r
  | _ => none

/-- Runs a batch. -/
def batch (s : Session) (requests : List Request) : List Reply × Session :=
  let (tasks, s) := through start requests s
  let (tasks, s) := s.finishAll tasks
  (tasks.filterMap Task.reply?, s.tidy)

/-- Runs one request to its end. A request that reads no file leaves the updates under way alone. -/
def perform (s : Session) (r : Request) : Option Reply × Session :=
  match s.start r with
  | (.over reply, s) => (some reply, s)
  | (task, s) =>
    let (tasks, s) := s.finishAll [task]
    (tasks.head?.bind Task.reply?, s.tidy)

end Session

end VerilogIndex
