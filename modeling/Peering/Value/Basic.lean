import Peering.Decimal.Floating

/-!
# Document values

What a settings document or a request may hold in any place: nothing, a truth
value, a number, a text, a list, a mapping, a set or a pair. Fields of a peer are
values until the peer has been validated. A document can also hold dates and what
is part of itself, for which there is no use here; all that is kept of them is how
they are shown and which of them are equal.
-/

namespace Peering

/-- A value for which there is no use, as it is shown. -/
structure Shown where
  /-- Its text where texts are quoted. -/
  exact : String
  /-- Its text where texts stand for themselves. -/
  plain : String := exact
  /-- It can be the key of a mapping. -/
  key : Bool := true
  /-- What it has in common with the values that it is equal to, and with no others. -/
  same : String := exact
  deriving DecidableEq, Inhabited

/-- A value of any kind. Mappings keep their entries in order, and sets have their members in the
order in which they are shown. -/
inductive Value where
  | null
  | bool (b : Bool)
  | int (n : Int)
  | float (x : Float)
  | text (s : String)
  | bytes (b : List UInt8)
  | list (items : List Value)
  | mapping (entries : List (Value × Value))
  | set (members : List Value)
  | pair (first second : Value)
  | shown (s : Shown)
  deriving Inhabited

/-- A mapping, as its entries in order. -/
abbrev Mapping := List (Value × Value)

namespace Value

/-- A value that counts as true where a condition is asked for: anything but null, false,
zero, and what is empty. -/
def isTruthy : Value → Bool
  | .null => false
  | .bool b => b
  | .int n => n != 0
  | .float x => !(x == 0.0)
  | .text s => !s.isEmpty
  | .bytes b => !b.isEmpty
  | .list items => !items.isEmpty
  | .mapping entries => !entries.isEmpty
  | .set members => !members.isEmpty
  | .pair _ _ => true
  | .shown _ => true

/-- The value itself if it counts as true, and another one otherwise. -/
def orElse (v other : Value) : Value := if v.isTruthy then v else other

/-- A value that can be the key of a mapping: anything that cannot change, so no list, no mapping
and no set. -/
def isKey : Value → Bool
  | .list _ => false
  | .mapping _ => false
  | .set _ => false
  | .pair a b => a.isKey && b.isKey
  | .shown s => s.key
  | _ => true

/-- The value is an integer, truth values not included, from `low` on. -/
def isIntFrom (low : Int) : Value → Bool
  | .int n => low ≤ n
  | _ => false

/-- The value is an integer, truth values not included, from `low` to `high`. -/
def isIntIn (low high : Int) : Value → Bool
  | .int n => low ≤ n && n ≤ high
  | _ => false

mutual

/-- Two values are equal. Truth values count as the integers 0 and 1, numbers are compared
exactly whatever their kind, and mappings and sets without regard to order. -/
def eqv : Value → Value → Bool
  | .null, .null => true
  | .text s, .text t => s == t
  | .bytes b, .bytes c => b == c
  | .list xs, .list ys => eqvItems xs ys
  | .mapping xs, .mapping ys => xs.length == ys.length && eqvEntries xs ys
  | .set xs, .set ys => xs.length == ys.length && eqvMembers xs ys
  | .pair a b, .pair c d => eqv a c && eqv b d
  | .bool a, .bool b => a == b
  | .bool a, .int n => (if a then 1 else 0) == n
  | .bool a, .float x => intEqFloat (if a then 1 else 0) x
  | .int n, .bool b => n == (if b then 1 else 0)
  | .int m, .int n => m == n
  | .int n, .float x => intEqFloat n x
  | .float x, .bool b => intEqFloat (if b then 1 else 0) x
  | .float x, .int n => intEqFloat n x
  | .float x, .float y => x == y
  | .shown s, .shown t => s.same == t.same
  | _, _ => false
termination_by structural v => v

/-- Two lists are equal, element by element. -/
def eqvItems : List Value → List Value → Bool
  | [], [] => true
  | x :: xs, y :: ys => eqv x y && eqvItems xs ys
  | _, _ => false
termination_by structural items => items

/-- Each entry of the first mapping has an equal one in the second. -/
def eqvEntries : List (Value × Value) → List (Value × Value) → Bool
  | [], _ => true
  | (k, v) :: rest, ys => ys.any (fun e => eqv k e.1 && eqv v e.2) && eqvEntries rest ys
termination_by structural entries => entries

/-- Each member of the first set is equal to one of the second. -/
def eqvMembers : List Value → List Value → Bool
  | [], _ => true
  | x :: xs, ys => ys.any (fun y => eqv x y) && eqvMembers xs ys
termination_by structural members => members

end

/-- A text is equal to no other value than itself. -/
theorem text_eqv_iff {s : String} {v : Value} : (text s).eqv v = true ↔ v = text s := by
  cases v with
  | text t => simpa [eqv] using (⟨Eq.symm, Eq.symm⟩ : s = t ↔ t = s)
  | _ => simp [eqv]

/-- Texts are equal as values exactly if they are equal. -/
@[simp] theorem text_eqv_text (s t : String) : (text s).eqv (text t) = (s == t) := by simp [eqv]

/-- Integers are equal as values exactly if they are equal. -/
@[simp] theorem int_eqv_int (m n : Int) : (int m).eqv (int n) = (m == n) := by simp [eqv]

/-- Null is no integer. -/
@[simp] theorem null_eqv_int (n : Int) : null.eqv (int n) = false := by simp [eqv]

end Value

namespace Mapping

/-- The value at a text key. -/
def get? (m : Mapping) (key : String) : Option Value :=
  match m with
  | [] => none
  | (.text k, v) :: rest => if k = key then some v else get? rest key
  | _ :: rest => get? rest key

/-- The mapping has a text key. -/
def contains (m : Mapping) (key : String) : Bool := (m.get? key).isSome

/-- The mapping with a key set. A key that is present keeps its place. -/
def set (m : Mapping) (key value : Value) : Mapping :=
  match m with
  | [] => [(key, value)]
  | (k, v) :: rest => if k.eqv key then (k, value) :: rest else (k, v) :: set rest key value

end Mapping

end Peering
