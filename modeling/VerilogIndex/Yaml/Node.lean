import VerilogIndex.Yaml.Scalar
import VerilogIndex.Yaml.Token

/-!
# From tokens to nodes

A node is a scalar, a sequence or a mapping. A tag may name its type; a scalar that has none, or the
mark for none, is typed by its text if it is plain. An anchor names a node, and an alias stands for
the node of that name before it.
-/

namespace VerilogIndex.Yaml

inductive Node where
  /-- A scalar; `typed` if its text alone says what it is. -/
  | scalar (tag : Option Text) (typed : Bool) (text : Text)
  | sequence (tag : Option Text) (items : List Node)
  | mapping (tag : Option Text) (entries : List (Node × Node))
  deriving Repr, Inhabited

/-- The node where nothing stands. -/
def Node.nothing : Node := .scalar none true []

/-- What holds for a whole document: its tag handles, the names of the anchors met, and the nodes
of those that are complete. -/
structure Names where
  handles : List (Text × Text)
  met : List Text := []
  nodes : List (Text × Node) := []

/-- Tokens left, with the names so far. -/
structure Rest where
  tokens : List Token
  names : Names

def Rest.peek (r : Rest) : Option Token := r.tokens.head?

def Rest.next (r : Rest) : Rest := { r with tokens := r.tokens.drop 1 }

/-- Anchor and tag in front of a node. -/
structure Properties where
  anchor : Option Text := none
  tag : Option Text := none

/-- The full name of a tag. -/
def fullTag? (names : Names) : Option Text → Text → Option Text
  | none, suffix => some suffix
  | some handle, suffix => (names.handles.lookup handle).map (· ++ suffix)

/-- At most one anchor and one tag, in either order. -/
def properties? (r : Rest) : Option (Properties × Rest) :=
  match r.tokens with
  | .anchor a :: .tag h t :: tokens => do
    some (⟨some a, some (← fullTag? r.names h t)⟩, { r with tokens })
  | .tag h t :: .anchor a :: tokens => do
    some (⟨some a, some (← fullTag? r.names h t)⟩, { r with tokens })
  | .anchor a :: tokens => some (⟨some a, none⟩, { r with tokens })
  | .tag h t :: tokens => do some (⟨none, some (← fullTag? r.names h t)⟩, { r with tokens })
  | _ => some ({}, r)

/-- Notes that an anchor has been met; no name may be met twice. -/
def meet? (anchor : Option Text) (r : Rest) : Option Rest :=
  match anchor with
  | none => some r
  | some a =>
    if r.names.met.contains a then none
    else some { r with names := { r.names with met := a :: r.names.met } }

/-- Notes the node of an anchor. -/
def complete (anchor : Option Text) (n : Node) (r : Rest) : Rest :=
  match anchor with
  | none => r
  | some a => { r with names := { r.names with nodes := (a, n) :: r.names.nodes } }

/-- The tag of a node, none if it is the mark for none. -/
def ownTag (tag : Option Text) : Option Text := if tag = some ['!'] then none else tag

/-- Where a node stands: in a flow collection or a block, and there, in a mapping, where a sequence
needs no indentation. -/
inductive Place where
  | flow
  | block
  | blockEntry
  deriving DecidableEq, Repr

/-- The token opens no node in a block mapping. -/
def endsBlockEntry : Option Token → Bool
  | some .key | some .value | some .blockEnd => true
  | _ => false

mutual

/-- The node at the front of the tokens. -/
def node? : (fuel : Nat) → Place → Rest → Option (Node × Rest)
  | 0, _, _ => none
  | fuel + 1, place, r =>
    match r.peek with
    | some (.alias name) => do
      let n ← r.names.nodes.lookup name
      some (n, r.next)
    | _ => do
      let (p, r) ← properties? r
      let r ← meet? p.anchor r
      let tag := ownTag p.tag
      let (n, r) ← match r.peek with
        | some (.scalar plain text) =>
          some (Node.scalar tag (tag.isNone && (plain || p.tag.isSome)) text, r.next)
        | some .flowSequenceStart => do
          let (items, r) ← flowItems? fuel true r.next
          some (.sequence tag items, r)
        | some .flowMappingStart => do
          let (entries, r) ← flowEntries? fuel true r.next
          some (.mapping tag entries, r)
        | some .blockEntry =>
          if place = .blockEntry then do
            let (items, r) ← looseItems? fuel r
            some (.sequence tag items, r)
          else if p.anchor.isSome || p.tag.isSome then some (.scalar tag tag.isNone [], r)
          else none
        | some .blockSequenceStart =>
          if place = .flow then none
          else do
            let (items, r) ← blockItems? fuel r.next
            some (.sequence tag items, r)
        | some .blockMappingStart =>
          if place = .flow then none
          else do
            let (entries, r) ← blockEntries? fuel r.next
            some (.mapping tag entries, r)
        | _ =>
          if p.anchor.isSome || p.tag.isSome then some (.scalar tag tag.isNone [], r) else none
      some (n, complete p.anchor n r)

/-- The items of a block sequence, and its end. -/
def blockItems? : (fuel : Nat) → Rest → Option (List Node × Rest)
  | 0, _ => none
  | fuel + 1, r =>
    match r.peek with
    | some .blockEnd => some ([], r.next)
    | some .blockEntry => do
      let r := r.next
      let (n, r) ← match r.peek with
        | some .blockEntry | some .blockEnd => some (Node.nothing, r)
        | _ => node? fuel .block r
      let (more, r) ← blockItems? fuel r
      some (n :: more, r)
    | _ => none

/-- The items of a sequence that is not indented below its key. -/
def looseItems? : (fuel : Nat) → Rest → Option (List Node × Rest)
  | 0, _ => none
  | fuel + 1, r =>
    match r.peek with
    | some .blockEntry => do
      let r := r.next
      let (n, r) ←
        if r.peek == some .blockEntry || endsBlockEntry r.peek then some (Node.nothing, r)
        else node? fuel .block r
      let (more, r) ← looseItems? fuel r
      some (n :: more, r)
    | _ => some ([], r)

/-- The entries of a block mapping, and its end. -/
def blockEntries? : (fuel : Nat) → Rest → Option (List (Node × Node) × Rest)
  | 0, _ => none
  | fuel + 1, r =>
    match r.peek with
    | some .blockEnd => some ([], r.next)
    | some .key => do
      let r := r.next
      let (k, r) ←
        if endsBlockEntry r.peek then some (Node.nothing, r) else node? fuel .blockEntry r
      let (v, r) ←
        if r.peek == some .value then
          let r := r.next
          if endsBlockEntry r.peek then some (Node.nothing, r) else node? fuel .blockEntry r
        else some (Node.nothing, r)
      let (more, r) ← blockEntries? fuel r
      some ((k, v) :: more, r)
    | _ => none

/-- The items of a flow sequence, and its end; `first` if none has been read. -/
def flowItems? : (fuel : Nat) → (first : Bool) → Rest → Option (List Node × Rest)
  | 0, _, _ => none
  | fuel + 1, first, r =>
    if r.peek == some .flowSequenceEnd then some ([], r.next)
    else do
      let r ←
        if first then some r
        else if r.peek == some .flowEntry then some r.next
        else none
      match r.peek with
      | some .flowSequenceEnd => some ([], r.next)
      | some .key =>
        let (e, r) ← flowEntry? fuel .flowSequenceEnd r.next
        let (more, r) ← flowItems? fuel false r
        some (.mapping none [e] :: more, r)
      | _ =>
        let (n, r) ← node? fuel .flow r
        let (more, r) ← flowItems? fuel false r
        some (n :: more, r)

/-- The entries of a flow mapping, and its end; `first` if none has been read. -/
def flowEntries? : (fuel : Nat) → (first : Bool) → Rest → Option (List (Node × Node) × Rest)
  | 0, _, _ => none
  | fuel + 1, first, r =>
    if r.peek == some .flowMappingEnd then some ([], r.next)
    else do
      let r ←
        if first then some r
        else if r.peek == some .flowEntry then some r.next
        else none
      match r.peek with
      | some .flowMappingEnd => some ([], r.next)
      | some .key =>
        let (e, r) ← flowEntry? fuel .flowMappingEnd r.next
        let (more, r) ← flowEntries? fuel false r
        some (e :: more, r)
      | _ =>
        let (n, r) ← node? fuel .flow r
        let (more, r) ← flowEntries? fuel false r
        some ((n, .nothing) :: more, r)

/-- A key and its value in a flow collection that ends in `stop`, either of which may be missing. -/
def flowEntry? : (fuel : Nat) → (stop : Token) → Rest → Option ((Node × Node) × Rest)
  | 0, _, _ => none
  | fuel + 1, stop, r => do
    let ends := fun (t : Option Token) => t == some .flowEntry || t == some stop
    let (k, r) ←
      if ends r.peek || r.peek == some .value then some (Node.nothing, r)
      else node? fuel .flow r
    let (v, r) ←
      if r.peek == some .value then
        let r := r.next
        if ends r.peek then some (Node.nothing, r) else node? fuel .flow r
      else some (Node.nothing, r)
    some ((k, v), r)

end

/-- The name of the standard types, before the word for the type. -/
def standardTag : Text := "tag:yaml.org,2002:"

/-- The handles that need no directive. -/
def standardHandles : List (Text × Text) := [("!", "!"), ("!!", standardTag)]

/-- The handles that the directives at the front of the tokens give, and the tokens after them.
There is at most one version, of the first generation, and a handle is given once. -/
def directives? : (versioned : Bool) → (handles : List (Text × Text)) → List Token →
    Option (List (Text × Text) × List Token)
  | versioned, handles, .directive d :: tokens =>
    match d with
    | .version major _ =>
      if versioned || major != 1 then none else directives? true handles tokens
    | .tagHandle handle lead =>
      if (handles.lookup handle).isSome then none
      else directives? versioned ((handle, lead) :: handles) tokens
    | .other => directives? versioned handles tokens
  | _, handles, tokens => some (handles ++ standardHandles, tokens)

/-- The token can only stand between documents. -/
def betweenDocuments : Option Token → Bool
  | none | some (.directive _) | some .documentStart | some .documentEnd => true
  | _ => false

/-- The nodes of a document, and the tokens after it. -/
def content? (handles : List (Text × Text)) (tokens : List Token) :
    Option (Node × List Token) := do
  let (n, r) ←
    if betweenDocuments tokens.head? then some (Node.nothing, ⟨tokens, ⟨handles, [], []⟩⟩)
    else node? (3 * tokens.length + 3) .block ⟨tokens, ⟨handles, [], []⟩⟩
  some (n, r.tokens)

/-- The only document that the tokens write, if they write any. -/
def document? (tokens : List Token) : Option (Option Node) := do
  match tokens with
  | [] => some none
  | t :: _ =>
    let (n, rest) ←
      match t with
      | .directive _ | .documentStart => do
        let (handles, tokens) ← directives? false [] tokens
        match tokens with
        | .documentStart :: tokens => content? handles tokens
        | _ => none
      | .documentEnd => none
      | _ => content? standardHandles tokens
    if rest.all (· == .documentEnd) then some (some n) else none

end VerilogIndex.Yaml
