import Peering.Value.Slots
import Peering.Yaml.Object

/-!
# From objects to values

Values are finite. Where an object is part of itself, three dots stand for it in its
brackets, as it is shown. An entry of a list of pairs is an object of its own. The
parts of a document's mapping and the fields of those parts are unfolded each for
itself, because settings are looked up there.
-/

namespace Peering.Yaml

/-- Objects by the numbers of their nodes, and the values of those that are not part of
themselves, as far as they are known. -/
structure Unfolding where
  objects : Array (Option Object)
  values : Array (Option Value)

namespace Unfolding

/-- The object of a node. -/
def objectAt (u : Unfolding) (n : Nat) : Object := ((u.objects[n]?).join).getD (.value .null)

/-- Where an object stands: at a node, or at an entry of a node, which is a list of pairs. -/
inductive Place where
  | node (n : Nat)
  | entry (n i : Nat)
  deriving DecidableEq

/-- An object inside of itself. -/
def cut : Object → Value
  | .value v => v
  | .list _ | .pairs _ => .shown { exact := "[...]", key := false }
  | .mapping _ => .shown { exact := "\x7b...\x7d", key := false }
  | .set _ => .shown { exact := "set(...)", key := false }

/-- A pair inside of itself. -/
def cutPair : Value := .shown { exact := "(...)", key := false }

/-- The value of an entry of a node inside of others, and whether nothing in it is cut, given how
its parts are unfolded. -/
def entryValue (inner : List Place → Nat → StateM Unfolding (Value × Bool)) (outside : List Place)
    (place : Place) (e : Nat × Nat) : StateM Unfolding (Value × Bool) := do
  if outside.contains place then return (cutPair, false)
  let a ← inner (place :: outside) e.1
  let b ← inner (place :: outside) e.2
  return (.pair a.1 b.1, a.2 && b.2)

/-- The value of a node inside of others, and whether nothing in it is cut. Each step goes inside
of one more object, so as many steps as there are nodes suffice. -/
def value : Nat → List Place → Nat → StateM Unfolding (Value × Bool)
  | 0, _, n => return (cut ((← get).objectAt n), false)
  | steps + 1, outside, n => do
    let u ← get
    if outside.contains (.node n) then return (cut (u.objectAt n), false)
    if let some v := (u.values[n]?).join then return (v, true)
    let outside := .node n :: outside
    let inner := value steps outside
    let (v, whole) ← match u.objectAt n with
      | .value v => pure (v, true)
      | .set keys => pure (.set (setOrder keys), true)
      | .list items => do
        let parts ← items.mapM inner
        pure (.list (parts.map Prod.fst), parts.all Prod.snd)
      | .pairs entries => do
        let parts ← entries.zipIdx.mapM fun (e, i) =>
          entryValue (value steps) outside (.entry n i) e
        pure (.list (parts.map Prod.fst), parts.all Prod.snd)
      | .mapping entries => do
        let parts ← entries.mapM fun (k, n) => do return (k, ← inner n)
        pure (.mapping (parts.map fun (k, v) => (k, v.1)), parts.all fun (_, v) => v.2)
    if whole then modify fun u => { u with values := u.values.setIfInBounds n (some v) }
    return (v, whole)

/-- The value of a node for itself. -/
def alone (n : Nat) : StateM Unfolding Value := do
  return (← value ((← get).objects.size + 1) [] n).1

/-- The value of an entry of a node for itself. -/
def entryAlone (n i : Nat) (e : Nat × Nat) : StateM Unfolding Value := do
  return (← entryValue (value ((← get).objects.size + 1)) [] (.entry n i) e).1

/-- The value of a mapping with its fields unfolded each in a given way, and that of another
object for itself. -/
def byFields (inner : Nat → StateM Unfolding Value) (n : Nat) : StateM Unfolding Value := do
  match (← get).objectAt n with
  | .mapping entries =>
    return .mapping (← entries.mapM fun (k, n) => do return (k, ← inner n))
  | _ => alone n

/-- The value of a part of a document: the fields of a mapping, the pairs in a list, and the fields
of the mappings in a list are unfolded each for itself. -/
def ofPart (n : Nat) : StateM Unfolding Value := do
  match (← get).objectAt n with
  | .list items => return .list (← items.mapM (byFields alone))
  | .pairs entries => return .list (← entries.zipIdx.mapM fun (e, i) => entryAlone n i e)
  | _ => byFields alone n

/-- The value of a document. -/
def ofRoot (objects : Array (Option Object)) (root : Nat) : Value :=
  let start : Unfolding := { objects, values := Array.replicate objects.size none }
  ((byFields ofPart root).run start).1

end Unfolding

end Peering.Yaml
