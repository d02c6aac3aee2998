import VerilogIndex.Text.Basic

/-!
# Paths

Paths are texts with slashes. A path is made absolute against a directory and normalised: empty
components and single dots go, two dots take the component before them away, and exactly two
leading slashes are kept.
-/

namespace VerilogIndex.Path

/-- The path starts at the root of the file system. -/
def isAbsolute (p : Text) : Bool := p.head? == some '/'

/-- The last component. -/
def baseName (p : Text) : Text := (p.reverse.takeWhile (· != '/')).reverse

/-- What stands before the last component, without trailing slashes unless it is all slashes. -/
def dirName (p : Text) : Text :=
  let head := p.reverse.dropWhile (· != '/')
  let bare := head.dropWhile (· == '/')
  if bare.isEmpty then head.reverse else bare.reverse

/-- A path below a directory; an absolute path stands for itself. -/
def join (dir p : Text) : Text :=
  if isAbsolute p then p
  else if dir.isEmpty || dir.getLast? == some '/' then dir ++ p
  else dir ++ "/" ++ p

/-- Takes one component into a normalised path whose components are given back to front. -/
def pushComponent (rooted : Bool) (done : List Text) (c : Text) : List Text :=
  if c = [] ∨ c = ['.'] then done
  else if c = ['.', '.'] then
    match done with
    | [] => if rooted then [] else [c]
    | d :: rest => if d = ['.', '.'] then c :: done else rest
  else c :: done

/-- The slashes a normalised path starts with. -/
def rootOf (p : Text) : Text :=
  match p with
  | '/' :: '/' :: '/' :: _ => ['/']
  | '/' :: '/' :: _ => ['/', '/']
  | '/' :: _ => ['/']
  | _ => []

def normalise (p : Text) : Text :=
  if p.isEmpty then ['.']
  else
    let lead := rootOf p
    let parts := (Text.splitAll '/' p).foldl (pushComponent (!lead.isEmpty)) []
    let t := lead ++ Text.joinWith ['/'] parts.reverse
    if t.isEmpty then ['.'] else t

/-- The normalised absolute path, seen from the directory `here`. -/
def absolute (here p : Text) : Text := normalise (join here p)

/-- The components of a path, the empty ones left out. -/
def components (p : Text) : List Text := (Text.splitAll '/' p).filter fun c => !c.isEmpty

/-- What two lists have after their common start. -/
def afterCommon : List Text → List Text → List Text × List Text
  | a :: as, b :: bs => if a = b then afterCommon as bs else (a :: as, b :: bs)
  | as, bs => (as, bs)

/-- The way to an absolute path from an absolute directory. -/
def relative (p dir : Text) : Text :=
  let (up, down) := afterCommon (components dir) (components p)
  match up.map (fun _ => ['.', '.']) ++ down with
  | [] => ['.']
  | way => Text.joinWith ['/'] way

end VerilogIndex.Path
