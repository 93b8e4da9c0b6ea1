import Peering.Failure

/-!
# Tables

A table holds one value for each of its keys, in the order in which the keys came in. Keys are
compared as values. A key that is set again keeps its place, and one that is taken out and set
again comes in at the end.
-/

namespace Peering

/-- A table: keys with their values, in order. -/
abbrev Table (α : Type) := List (Value × α)

namespace Table

variable {α : Type}

/-- The keys in order. -/
def keys (t : Table α) : List Value := t.map Prod.fst

/-- The values in order. -/
def values (t : Table α) : List α := t.map Prod.snd

/-- The value at a key. -/
def get? (t : Table α) (key : Value) : Option α := (t.find? (fun e => e.1.eqv key)).map Prod.snd

/-- There is a value at a key. -/
def contains (t : Table α) (key : Value) : Bool := t.any (fun e => e.1.eqv key)

/-- The table with a value set at a key: in its place if there is one, and else at the end. -/
def set (t : Table α) (key : Value) (value : α) : Table α :=
  if t.contains key then t.map (fun e => if e.1.eqv key then (e.1, value) else e)
  else t ++ [(key, value)]

/-- The table without what is at a key. -/
def erase (t : Table α) (key : Value) : Table α := t.filter (fun e => !e.1.eqv key)

/-- The table without what is at a key, where there must be something. -/
def remove? (t : Table α) (key : Value) : Option (Table α) :=
  if t.contains key then some (t.erase key) else none

/-- The value at a key. What cannot be a key cannot be looked up. -/
def lookUp (t : Table α) (key : Value) : Except Failure (Option α) :=
  if key.isKey then .ok (t.get? key) else .error .wrongType

/-- The value at a key, where there must be one. -/
def require (t : Table α) (key : Value) (missing : Value → EngineError) : Except Failure α :=
  match t.lookUp key with
  | .error f => .error f
  | .ok none => .error (.refused (missing key))
  | .ok (some value) => .ok value

end Table

end Peering
