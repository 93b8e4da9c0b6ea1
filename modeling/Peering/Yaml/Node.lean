import Peering.Yaml.Graph
import Peering.Yaml.Lexer

/-!
# From tokens to nodes

A node is a scalar, a sequence or a mapping, and has a tag. An anchor names a
node, and an alias stands for the node named so, which may be one that the alias is
inside of.
-/

namespace Peering.Yaml

/-- What is known while nodes are read. -/
structure Pending where
  /-- The tokens that have not been read yet. -/
  stream : TokenStream
  /-- The nodes read so far. A collection is there before its parts. -/
  graph : Graph := #[]
  /-- The numbers of the nodes that have been named. -/
  anchors : List (String × Nat) := []
  /-- The number of collections that are being read, one inside of the other. -/
  depth : Nat := 0
  /-- What the handles of tags stand for. -/
  handles : List (String × String)

/-- Reads nodes off the tokens. -/
abbrev NodeReader := StateT Pending (Except Fault)

/-- More collections than these are not read one inside of the other. -/
def depthLimit : Nat := 489

/-- What stands in front of a node. -/
structure Properties where
  /-- The name that an anchor gives to the node. -/
  anchor : Option String := none
  /-- The full tag. -/
  tag : Option String := none

namespace Properties

/-- The tag says no more than that the node has its usual one. -/
def isUsual (p : Properties) : Bool := p.tag.all (· == "!")

/-- The tag of a collection that usually has another one. -/
def tagOr (p : Properties) (usual : Tag) : Tag :=
  if p.isUsual then usual else (p.tag.map Tag.ofName).getD .other

/-- The scalar with a text. In quotes it is a text unless its tag says otherwise. -/
def scalar (p : Properties) (text : String) (plain : Bool) : Node :=
  let usual := if plain || p.tag.isSome then Tag.ofPlain text else .text
  ⟨p.tagOr usual, .scalar text⟩

end Properties

namespace NodeReader

/-- The next token. -/
def peek : NodeReader Token := do
  let s ← get
  match s.stream.tokens with
  | t :: _ => return t
  | [] => throw s.stream.fault

/-- Past the next token. -/
def skip : NodeReader Unit :=
  modify fun s => { s with stream.tokens := s.stream.tokens.tail }

/-- Skips the next token if it is a given one. -/
def accept (t : Token) : NodeReader Bool := do
  if (← peek) = t then
    skip
    return true
  else return false

/-- Skips the next token, which must be a given one. -/
def expect (t : Token) : NodeReader Unit := do
  if !(← accept t) then throw .malformed

/-- An anchor, if there is one here. -/
def anchor? : NodeReader (Option String) := do
  match ← peek with
  | .anchor name =>
    skip
    return some name
  | _ => return none

/-- A tag, if there is one here, as its handle and what follows. -/
def tag? : NodeReader (Option (Option String × String)) := do
  match ← peek with
  | .tag handle suffix =>
    skip
    return some (handle, suffix)
  | _ => return none

/-- The full tag for a handle and what follows. The handle must be known. -/
def fullTag : Option String × String → NodeReader String
  | (none, suffix) => return suffix
  | (some handle, suffix) => do
    match (← get).handles.lookup handle with
    | some stands => return stands ++ suffix
    | none => throw .malformed

/-- An anchor and a tag in either order. -/
def properties : NodeReader Properties := do
  let (anchor, tag) ← match ← anchor? with
    | some name => pure (some name, ← tag?)
    | none => do
      match ← tag? with
      | some tag => pure (← anchor?, some tag)
      | none => pure (none, none)
  return ⟨anchor, ← tag.mapM fullTag⟩

/-- A name is given only once. -/
def checkFresh (p : Properties) : NodeReader Unit := do
  let s ← get
  if p.anchor.any (fun name => (s.anchors.lookup name).isSome) then throw .malformed

/-- The number of the node that an alias stands for. -/
def resolve (name : String) : NodeReader Nat := do
  match (← get).anchors.lookup name with
  | some n => return n
  | none => throw .malformed

/-- Adds a node and returns its number. -/
def add (node : Node) : NodeReader Nat := do
  let n := (← get).graph.size
  modify fun s => { s with graph := s.graph.push node }
  return n

/-- Adds a node, which an anchor may name, and returns its number. -/
def addNamed (p : Properties) (node : Node) : NodeReader Nat := do
  let n ← add node
  match p.anchor with
  | some name => modify fun s => { s with anchors := (name, n) :: s.anchors }
  | none => pure ()
  return n

/-- Adds a collection and then reads its parts. -/
def collection (p : Properties) (usual : Tag) (parts : NodeReader Content) : NodeReader Nat := do
  let n ← addNamed p ⟨p.tagOr usual, .sequence []⟩
  if depthLimit ≤ (← get).depth then throw .tooDeep
  modify fun s => { s with depth := s.depth + 1 }
  let content ← parts
  modify fun s => { s with depth := s.depth - 1, graph := s.graph.withContent n content }
  return n

/-- A sequence, the items of which are read. -/
def sequence (p : Properties) (items : NodeReader (List Nat)) : NodeReader Nat :=
  collection p .sequence (.sequence <$> items)

/-- A mapping, the entries of which are read. -/
def mapping (p : Properties) (entries : NodeReader (List (Nat × Nat))) : NodeReader Nat :=
  collection p .mapping (.mapping <$> entries)

/-- A node that is not written out, which needs an anchor or a tag. -/
def propertiesAlone (p : Properties) : NodeReader Nat :=
  if p.anchor.isSome || p.tag.isSome then addNamed p (p.scalar "" true) else throw .malformed

/-- A node, or an empty one before certain tokens. -/
def unlessBefore (stops : List Token) (read : NodeReader Nat) : NodeReader Nat := do
  if stops.contains (← peek) then add Node.empty else read

/-- The value of an entry, or an empty node if there is none. -/
def valueOf (stops : List Token) (read : NodeReader Nat) : NodeReader Nat := do
  if ← accept .value then unlessBefore stops read else add Node.empty

/-- What follows an entry of a block mapping. -/
def afterEntry : List Token := [.key, .value, .blockEnd]

mutual

/-- A node. In a block it may be a block itself, and where a mapping holds it, a sequence
that is not indented. -/
def node (block unindented : Bool) : Nat → NodeReader Nat
  | 0 => throw .malformed
  | n + 1 => do
    if let .alias name ← peek then
      skip
      return ← resolve name
    let p ← properties
    let next ← peek
    checkFresh p
    match next with
    | .blockEntry =>
      if unindented then sequence p (unindentedItems n) else propertiesAlone p
    | .scalar text plain =>
      skip
      addNamed p (p.scalar text plain)
    | .flowSequenceStart =>
      skip
      sequence p (flowItems true n)
    | .flowMappingStart =>
      skip
      mapping p (flowEntries true n)
    | .blockSequenceStart =>
      if block then
        skip
        sequence p (blockItems n)
      else propertiesAlone p
    | .blockMappingStart =>
      if block then
        skip
        mapping p (blockEntries n)
      else propertiesAlone p
    | _ => propertiesAlone p

/-- The items of a block sequence. -/
def blockItems : Nat → NodeReader (List Nat)
  | 0 => throw .malformed
  | n + 1 => do
    if ← accept .blockEntry then
      let item ← unlessBefore [.blockEntry, .blockEnd] (node true false n)
      return item :: (← blockItems n)
    else
      expect .blockEnd
      return []

/-- The items of a sequence that is not indented. -/
def unindentedItems : Nat → NodeReader (List Nat)
  | 0 => throw .malformed
  | n + 1 => do
    if ← accept .blockEntry then
      let item ← unlessBefore (.blockEntry :: afterEntry) (node true false n)
      return item :: (← unindentedItems n)
    else return []

/-- The entries of a block mapping. -/
def blockEntries : Nat → NodeReader (List (Nat × Nat))
  | 0 => throw .malformed
  | n + 1 => do
    if ← accept .key then
      let key ← unlessBefore afterEntry (node true true n)
      let value ← valueOf afterEntry (node true true n)
      return (key, value) :: (← blockEntries n)
    else
      expect .blockEnd
      return []

/-- The items of a flow sequence. A key makes a mapping of one entry. -/
def flowItems (first : Bool) : Nat → NodeReader (List Nat)
  | 0 => throw .malformed
  | n + 1 => do
    if ← accept .flowSequenceEnd then return []
    if !first then expect .flowEntry
    if ← accept .key then
      let stops := [.flowEntry, .flowSequenceEnd]
      let item ← mapping {} do
        let key ← unlessBefore (.value :: stops) (node false false n)
        let value ← valueOf stops (node false false n)
        return [(key, value)]
      return item :: (← flowItems false n)
    else if ← accept .flowSequenceEnd then return []
    else
      let item ← node false false n
      return item :: (← flowItems false n)

/-- The entries of a flow mapping. A key without an indicator and a colon has no value. -/
def flowEntries (first : Bool) : Nat → NodeReader (List (Nat × Nat))
  | 0 => throw .malformed
  | n + 1 => do
    if ← accept .flowMappingEnd then return []
    if !first then expect .flowEntry
    if ← accept .key then
      let stops := [.flowEntry, .flowMappingEnd]
      let key ← unlessBefore (.value :: stops) (node false false n)
      let value ← valueOf stops (node false false n)
      return (key, value) :: (← flowEntries false n)
    else if ← accept .flowMappingEnd then return []
    else
      let key ← node false false n
      let value ← add Node.empty
      return (key, value) :: (← flowEntries false n)

end

/-- A node in block context. Every call takes a token, or is made by one that looks for the
items of a sequence that is not indented, so twice as many calls as tokens suffice. -/
def blockNode : NodeReader Nat := do
  node true false (2 * (← get).stream.tokens.length + 2)

/-- The ends of documents here are skipped. -/
def skipEnds : Nat → NodeReader Unit
  | 0 => return ()
  | n + 1 => do if ← accept .documentEnd then skipEnds n

end NodeReader

/-- The handles that are always known. -/
def usualHandles : List (String × String) := [("!", "!"), ("!!", "tag:yaml.org,2002:")]

/-- What the directives read so far say. -/
structure Prologue where
  /-- One of them gives the version of the format. -/
  versioned : Bool := false
  /-- The handles that they introduce. -/
  handles : List (String × String) := []

/-- What directives say together with one more. The version must be given only once and be 1, and
no handle may come twice. -/
def Prologue.add (p : Prologue) : Directive → Except Fault Prologue
  | .version major =>
    if p.versioned || major ≠ 1 then .error .malformed else .ok { p with versioned := true }
  | .handle name stands =>
    if (p.handles.lookup name).isSome then .error .malformed
    else .ok { p with handles := (name, stands) :: p.handles }
  | .other => .ok p

namespace NodeReader

/-- The directives here, each of them checked before anything behind it is looked at. -/
def directives (p : Prologue) : Nat → NodeReader Prologue
  | 0 => return p
  | n + 1 => do
    match ← peek with
    | .directive d =>
      skip
      directives (← p.add d) n
    | _ => return p

/-- The mark at the beginning of a document, with the directives in front of it. -/
def documentHead : NodeReader Unit := do
  let p ← directives {} (← get).stream.tokens.length
  expect .documentStart
  modify fun s => { s with handles := p.handles ++ usualHandles }

/-- The node of a document with a mark at its beginning. -/
def markedDocument : NodeReader Nat := do
  documentHead
  match ← peek with
  | .directive _ | .documentStart | .documentEnd | .streamEnd => add Node.empty
  | _ => blockNode

/-- Nothing may come after the document; a second one is refused once its beginning is read. -/
def streamEnd : NodeReader Unit := do
  if !(← accept .streamEnd) then
    documentHead
    throw .malformed

/-- The number of the node of the only document, if there is one. -/
def document : NodeReader (Option Nat) := do
  let root ← match ← peek with
    | .streamEnd => return none
    | .directive _ | .documentStart => markedDocument
    | _ => blockNode
  skipEnds (← get).stream.tokens.length
  streamEnd
  return some root

end NodeReader

/-- The nodes that a source describes, and the number of the one for the whole, if there is a
document in it. -/
def nodesOf (s : Source) : Except Fault (Graph × Option Nat) := do
  let start : Pending := { stream := tokenStream s, handles := usualHandles }
  let (root, s) ← NodeReader.document.run start
  return (s.graph, root)

end Peering.Yaml
