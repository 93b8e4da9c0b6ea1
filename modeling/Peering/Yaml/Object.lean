import Peering.Yaml.Merge

/-!
# What nodes stand for

The object that a node stands for is made when the node is met for the first time.
A collection is empty then, and is filled after those met before it, so that it may
be part of itself. Keys of mappings are values that cannot change.
-/

namespace Peering.Yaml

/-- What a node stands for. Parts of collections are numbers of nodes, keys aside. -/
inductive Object where
  | value (v : Value)
  | list (items : List Nat)
  /-- A list of pairs. -/
  | pairs (entries : List (Nat × Nat))
  | mapping (entries : List (Value × Nat))
  | set (keys : List Value)

/-- A key of a mapping. -/
structure Key where
  value : Value
  /-- The node of a key that is itself only: a double that is no number, but has no name. -/
  own : Option Nat := none

namespace Key

/-- The value is no number. -/
def isNotANumber : Value → Bool
  | .float x => x.isNaN
  | _ => false

/-- The key of a node with a value; the text of the node is asked for where it matters. -/
def ofNode (n : Nat) (text : Unit → List Char) (value : Value) : Key :=
  { value, own := if isNotANumber value && !namesNoNumber (text ()) then some n else none }

/-- Two keys are one. -/
def eqv (a b : Key) : Bool :=
  a.own == b.own && (a.value.eqv b.value || (isNotANumber a.value && isNotANumber b.value))

end Key

namespace Object

/-- The entries with a key set. A key that is present keeps its place. -/
def setEntry (key : Key) (n : Nat) : List (Key × Nat) → List (Key × Nat)
  | [] => [(key, n)]
  | e :: rest => if e.1.eqv key then (e.1, n) :: rest else e :: setEntry key n rest

/-- The value that can be a key, if the object is one. -/
def key? : Object → Option Value
  | value v => if v.isKey then some v else none
  | _ => none

end Object

/-- The objects made so far. -/
structure Construction where
  graph : Graph
  /-- The objects by the numbers of their nodes. -/
  objects : Array (Option Object)
  /-- The collections that are to be filled, the one met last first. -/
  waiting : List Nat := []
  /-- There are at most so many merges. -/
  merges : Nat

/-- Makes objects. -/
abbrev Constructing := StateT Construction (Except Fault)

namespace Construction

/-- The object of a node, if it is made. -/
def object? (c : Construction) (n : Nat) : Option Object := (c.objects[n]?).join

/-- The object of a node is made. -/
def put (n : Nat) (o : Object) : Constructing Unit :=
  modify fun c => { c with objects := c.objects.setIfInBounds n (some o) }

/-- The object of a collection is made, without its parts. -/
def putLater (n : Nat) (o : Object) : Constructing Unit :=
  modify fun c =>
    { c with objects := c.objects.setIfInBounds n (some o), waiting := n :: c.waiting }

/-- The value that a node with a tag stands for where a scalar is expected. -/
def scalarValue (g : Graph) (tag : Tag) (n : Nat) : Except Fault Value := do
  if !tag.hasValues then throw .malformed
  let text ← g.scalarText Graph.textSteps n
  if tag = .moment ∧ (g.entries? n).isSome then throw .momentInMapping
  tag.read text

/-- Makes the object of a node unless it is made already. -/
def visit (n : Nat) : Constructing Unit := do
  let c ← get
  if (c.object? n).isSome then return
  match c.graph.tagOf n with
  | .sequence => putLater n (.list [])
  | .mapping => putLater n (.mapping [])
  | .pairs => putLater n (.pairs [])
  | .set => putLater n (.set [])
  | tag => put n (.value (← scalarValue c.graph tag n))

/-- The text of the node of a scalar. -/
def textOf (c : Construction) (n : Nat) : List Char :=
  match c.graph.scalarText Graph.textSteps n with
  | .ok text => text.toList
  | .error _ => []

/-- The key that a node stands for. -/
def visitKey (n : Nat) : Constructing Key := do
  visit n
  let c ← get
  match (c.object? n).bind Object.key? with
  | some value => return .ofNode n (fun () => c.textOf n) value
  | none => throw .malformed

/-- The items of a sequence. -/
def items (n : Nat) : Constructing (List Nat) := do
  match (← get).graph.items? n with
  | some items => return items
  | none => throw .malformed

/-- The entries of a mapping after its merges. -/
def entries (n : Nat) : Constructing (List (Nat × Nat)) := do
  let c ← get
  let ((), graph) ← (Graph.flatten (c.merges + 1) Graph.mergeRoom n).run c.graph
  set { c with graph }
  return (graph.entries? n).getD []

/-- Makes the objects of keys and values, and sets the entries one after the other. -/
def filledEntries (made : List (Key × Nat)) :
    List (Nat × Nat) → Constructing (List (Value × Nat))
  | [] => return made.map fun e => (e.1.value, e.2)
  | (k, v) :: rest => do
    let key ← visitKey k
    visit v
    filledEntries (Object.setEntry key v made) rest

/-- The pair that an item stands for: it must be a mapping of one entry. -/
def pair (n : Nat) : Constructing (Nat × Nat) := do
  match (← get).graph.entries? n with
  | some [(k, v)] =>
    visit k
    visit v
    return (k, v)
  | _ => throw .malformed

/-- Fills a collection. -/
def fill (n : Nat) : Constructing Unit := do
  match (← get).object? n with
  | some (.list _) =>
    let items ← items n
    items.forM visit
    put n (.list items)
  | some (.pairs _) => put n (.pairs (← (← items n).mapM pair))
  | some (.mapping _) => put n (.mapping (← filledEntries [] (← entries n)))
  | some (.set _) => put n (.set ((← filledEntries [] (← entries n)).map Prod.fst))
  | _ => return ()

/-- Fills the collections that wait, and those that are met meanwhile. Every collection waits
once, so as many rounds as there are nodes suffice. -/
def fillAll : Nat → Constructing Unit
  | 0 => return ()
  | rounds + 1 => do
    match (← get).waiting with
    | [] => return ()
    | waiting =>
      modify fun c => { c with waiting := [] }
      waiting.reverse.forM fill
      fillAll rounds

/-- The objects of the nodes that can be reached from one. -/
def ofGraph (g : Graph) (root : Nat) : Except Fault (Array (Option Object)) := do
  let start : Construction := {
    graph := g
    objects := Array.replicate g.size none
    merges := g.mergeCount }
  let ((), c) ← (do visit root; fillAll g.size : Constructing Unit).run start
  return c.objects

end Construction

end Peering.Yaml
