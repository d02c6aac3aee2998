import VerilogIndex.Session.Rounds

/-!
# Scans

A scan forgets all modules, finds the source files and updates each of them. It is over when its own
updates have ended.
-/

namespace VerilogIndex.Session

/-- Forgets all modules and finds the files to read. -/
def beginScan (s : Session) : Except Discovery.Error (List Text) × Session :=
  let s := { s with index := s.index.clear }
  match s.discover with
  | .error e => (.error e, s)
  | .ok (files, s) =>
    let root := s.index.root
    (.ok files, s.say [if files.isEmpty then .noSources root else .reading files.length root])

/-- The files of a scan, each with the ticket of its update. -/
abbrev Scan := List (Text × Nat)

/-- Requests the updates of a scan. -/
def issueScan (s : Session) : (files : List Text) → Scan × Session
  | [] => ([], s)
  | f :: fs =>
    let (ticket, s) := s.issue f false
    let (scan, s) := s.issueScan fs
    ((f, ticket) :: scan, s)

def isOver (s : Session) (scan : Scan) : Bool := scan.all fun p => (s.outcome? p.2).isSome

/-- What is said about an update of a scan that failed. -/
def failure? (s : Session) (part : Text × Nat) : Option Notice :=
  match s.outcome? part.2 with
  | some (.failed e) => some (.failedToIndex part.1 e.message)
  | _ => none

/-- Ends a scan; gives the number of modules. -/
def endScan (s : Session) (scan : Scan) : Nat × Session :=
  let count := s.index.tables.size
  (count, s.say (scan.filterMap s.failure? ++ [.scanned count]))

/-- Reads the whole project again; gives the number of modules. -/
def rescan (s : Session) : Except Discovery.Error Nat × Session :=
  match s.beginScan with
  | (.error e, s) => (.error e, s)
  | (.ok [], s) => (.ok 0, s)
  | (.ok files, s) =>
    let (scan, s) := s.issueScan files
    let (count, s) := s.settleAll.endScan scan
    (.ok count, s.tidy)

end VerilogIndex.Session
