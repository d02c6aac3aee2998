import VerilogIndex.Index.Basic

/-!
# Sessions

A session is a disk, the index of a project on it, the updates of the index under way, and what was
said so far. An update reads one file again. It goes through stages, and a step takes one update to
its next stage, so that any order of the steps of several updates is a run of the session.
-/

namespace VerilogIndex

/-- How an update ended. -/
inductive Outcome where
  /-- There was a newer request for the path. -/
  | stale
  | unreadable
  | timedOut
  | noModule
  | indexed (m : Module)
  | failed (e : Elaboration.Error)
  deriving DecidableEq, Repr

/-- The module that came of an update, or why it failed. -/
def Outcome.result : Outcome → Except Elaboration.Error (Option Module)
  | .indexed m => .ok (some m)
  | .failed e => .error e
  | _ => .ok none

/-- What came of reading a text. -/
inductive Reading where
  /-- It took too long. -/
  | late
  | failed (e : Elaboration.Error)
  | noModule
  | found (m : Module)
  deriving DecidableEq, Repr

def Reading.ofResult : Except Elaboration.Error (Option Module) → Reading
  | .ok none => .noModule
  | .ok (some m) => .found m
  | .error e => .failed e

inductive Stage where
  /-- In line for the lock of the path. -/
  | waiting
  /-- Holds the lock; the file is read next. -/
  | ready
  /-- The text is there; the module is read from it next. -/
  | loaded (text : Text)
  /-- The module is there; it is recorded next if the ticket still counts. -/
  | parsed (result : Reading)
  /-- The outcome is fixed; the lock is given back next. -/
  | leaving (outcome : Outcome)
  | settled (outcome : Outcome)
  deriving DecidableEq, Repr

def Stage.outcome? : Stage → Option Outcome
  | .settled o => some o
  | _ => none

/-- An update of a path under way; `hangs` if its text cannot be read in time. -/
structure Update where
  path : Text
  ticket : Nat
  hangs : Bool := false
  stage : Stage := .waiting
  deriving DecidableEq, Repr

structure Session where
  disk : Disk
  index : Index
  /-- The updates, in the order in which they were requested. -/
  updates : List Update := []
  log : List Notice := []

namespace Session

/-- An empty session with the project at `root`. -/
def create (d : Disk) (root : Text) (c : Config) : Except Registry.Error Session := do
  return { disk := d, index := ← Index.create d root c }

/-- The session after some more was said. -/
def say (s : Session) (notices : List Notice) : Session := { s with log := s.log ++ notices }

/-- The session with another index, after some more was said. -/
def become (s : Session) (r : Index × List Notice) : Session := { s with index := r.1 }.say r.2

def update? (s : Session) (ticket : Nat) : Option Update :=
  s.updates.find? fun u => u.ticket == ticket

def stage? (s : Session) (ticket : Nat) : Option Stage := (s.update? ticket).map (·.stage)

def outcome? (s : Session) (ticket : Nat) : Option Outcome :=
  (s.stage? ticket).bind (·.outcome?)

/-- The session with an update at another stage. -/
def moveTo (s : Session) (ticket : Nat) (stage : Stage) : Session :=
  { s with updates := s.updates.map fun u => if u.ticket = ticket then { u with stage } else u }

/-- Requests an update of a path. -/
def request (s : Session) (path : Text) (hangs : Bool) : Nat × Session :=
  let ticket := s.index.requests.nextTicket
  let requests := s.index.requests.enter path
  (ticket, { s with
    index := { s.index with requests }
    updates := s.updates ++ [{ path, ticket, hangs }] })

/-- Takes up a path's lock if it is free for this update. -/
def acquire (s : Session) (u : Update) : Session :=
  let r := s.index.requests
  if r.isFirst u.path u.ticket then
    s.moveTo u.ticket (if r.isNewest u.path u.ticket then .ready else .leaving .stale)
  else s

/-- Reads the file of an update. -/
def load (s : Session) (u : Update) : Session :=
  match s.disk.text u.path with
  | .ok t => s.moveTo u.ticket (.loaded t)
  | .error f => (s.say [.cannotRead u.path f]).moveTo u.ticket (.leaving .unreadable)

/-- Reads the module of an update. -/
def parse (s : Session) (u : Update) (t : Text) : Session :=
  let result := if u.hangs then .late else .ofResult (s.index.strategy.readModule t u.path)
  s.moveTo u.ticket (.parsed result)

/-- Records the module of an update unless the ticket is stale. -/
def conclude (s : Session) (u : Update) : Reading → Session
  | .late =>
    (s.say [.timedOut u.path s.index.config.parseTimeout]).moveTo u.ticket (.leaving .timedOut)
  | .failed e => s.moveTo u.ticket (.leaving (.failed e))
  | .noModule =>
    let newest := s.index.requests.isNewest u.path u.ticket
    s.moveTo u.ticket (.leaving (if newest then .noModule else .stale))
  | .found m =>
    if s.index.requests.isNewest u.path u.ticket then
      (s.become (s.index.record u.path m)).moveTo u.ticket (.leaving (.indexed m))
    else s.moveTo u.ticket (.leaving .stale)

/-- Gives the lock of an update back. -/
def settle (s : Session) (u : Update) (o : Outcome) : Session :=
  let index := { s.index with requests := s.index.requests.leave u.path }
  { s with index }.moveTo u.ticket (.settled o)

/-- Takes an update to its next stage, if it can go on. -/
def step (s : Session) (ticket : Nat) : Session :=
  match s.update? ticket with
  | none => s
  | some u =>
    match u.stage with
    | .waiting => s.acquire u
    | .ready => s.load u
    | .loaded t => s.parse u t
    | .parsed result => s.conclude u result
    | .leaving o => s.settle u o
    | .settled _ => s

/-- The path as the index knows it. -/
def place (s : Session) (path : Text) : Text := s.disk.absolute path

/-- Reads a text as the present content of a path. -/
def updateText (s : Session) (path t : Text) :
    Except Elaboration.Error (Option Module) × Session :=
  let (result, after) := s.index.updateText (s.place path) t
  (result, s.become after)

/-- Forgets what was read from a path; gives the names it owned. -/
def remove (s : Session) (path : Text) : List Text × Session :=
  let (owned, after) := s.index.remove (s.place path)
  (owned, s.become after)

/-- The source files of the project. -/
def discover (s : Session) : Except Discovery.Error (List Text × Session) := do
  let (files, after) ← s.index.discover s.disk
  return (files, s.become after)

end Session

end VerilogIndex
