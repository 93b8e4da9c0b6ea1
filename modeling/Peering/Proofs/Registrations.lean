import Peering.Registry
import Mathlib.Data.List.Nodup

/-!
# Registrations

The addresses of a registry in use are texts and its generations are integers. The three tables
of such a registry are columns of one list of registrations. This file shows that every
operation on the tables is the plain operation on that list, and which failures there are.
-/

namespace Peering

/-- One registration of a peer. -/
structure Registration where
  /-- The address that is registered. -/
  address : String
  /-- The configuration. -/
  peer : Peer
  /-- The session. -/
  session : Session
  /-- The generation. -/
  generation : Int

namespace Registration

/-- The value is the address of the registration. -/
def matchesAt (v : Value) (r : Registration) : Bool := (Value.text r.address).eqv v

/-- The registration at an address. -/
def at? (l : List Registration) (v : Value) : Option Registration := l.find? (matchesAt v)

/-- The registrations without the one at an address. -/
def without (l : List Registration) (v : Value) : List Registration :=
  l.filter (fun r => !matchesAt v r)

/-- The registrations with the one at an address changed. -/
def adjust (l : List Registration) (v : Value) (f : Registration → Registration) :
    List Registration :=
  l.map (fun r => if matchesAt v r then f r else r)

/-- The table of one part of each registration, by address. -/
def column {α : Type} (l : List Registration) (f : Registration → α) : Table α :=
  l.map (fun r => (.text r.address, f r))

/-- The first registration of a peer at a moment. -/
def initial (address : String) (p : Peer) (generation : Int) (now : Float) : Registration where
  address
  peer := Registry.created p now
  session := Session.initial (.text address) now
  generation

/-- Only the text of its address matches a registration. -/
theorem matchesAt_iff {v : Value} {r : Registration} :
    matchesAt v r = true ↔ v = .text r.address :=
  Value.text_eqv_iff

/-- A text matches a registration exactly if it is its address. -/
@[simp] theorem matchesAt_text (a : String) (r : Registration) :
    matchesAt (.text a) r = (r.address == a) := by
  simp [matchesAt]

/-- What is found at an address is registered under it. -/
theorem mem_of_at? {l : List Registration} {v : Value} {r : Registration}
    (h : at? l v = some r) : r ∈ l ∧ v = .text r.address :=
  ⟨List.mem_of_find?_eq_some h, matchesAt_iff.mp (List.find?_some h)⟩

/-- Nothing is found exactly at the addresses that no registration has. -/
theorem at?_eq_none {l : List Registration} {v : Value} :
    at? l v = none ↔ ∀ r ∈ l, v ≠ .text r.address := by
  simp only [at?, List.find?_eq_none, matchesAt_iff, ne_eq]

/-- Where addresses are distinct, no registration before or after the one at an address matches it.
-/
theorem exists_split {l : List Registration} {v : Value} {r : Registration}
    (hr : at? l v = some r) (hl : (l.map address).Nodup) :
    ∃ before rest, l = before ++ r :: rest ∧ (∀ s ∈ before, matchesAt v s = false) ∧
      ∀ s ∈ rest, matchesAt v s = false := by
  obtain ⟨hmatch, before, rest, rfl, hbefore⟩ := List.find?_eq_some_iff_append.mp hr
  refine ⟨before, rest, rfl, fun s hs => by simpa using hbefore s hs, fun s hs => ?_⟩
  rw [Bool.eq_false_iff]
  intro hmatch'
  have haddress : r.address = s.address := Value.text.inj
    ((matchesAt_iff.mp hmatch).symm.trans (matchesAt_iff.mp hmatch'))
  rw [List.map_append, List.map_cons, List.nodup_append] at hl
  obtain ⟨hr', _⟩ := List.nodup_cons.mp hl.2.1
  exact hr' (haddress ▸ List.mem_map_of_mem hs)

/-- Where addresses are distinct, a registration is found at its own. -/
theorem at?_of_mem {l : List Registration} (hl : (l.map address).Nodup) {r : Registration}
    (hr : r ∈ l) : at? l (.text r.address) = some r := by
  induction l with
  | nil => simp at hr
  | cons s l ih =>
    obtain ⟨hs, hl⟩ := List.nodup_cons.mp hl
    rcases List.mem_cons.mp hr with rfl | hr
    · simp [at?]
    · have hne : s.address ≠ r.address := by
        intro heq
        exact hs (heq ▸ List.mem_map_of_mem hr)
      have hrest : at? l (.text r.address) = some r := ih hl hr
      simpa [at?, hne] using hrest

/-- The keys of a column are the addresses. -/
@[simp] theorem keys_column {α : Type} (l : List Registration) (f : Registration → α) :
    (column l f).keys = l.map (fun r => .text r.address) := by
  simp [column, Table.keys]

/-- The values of a column are the parts of the registrations. -/
@[simp] theorem values_column {α : Type} (l : List Registration) (f : Registration → α) :
    (column l f).values = l.map f := by
  simp [column, Table.values]

/-- Looking up in a column is looking up a registration. -/
@[simp] theorem get?_column {α : Type} (l : List Registration) (f : Registration → α)
    (v : Value) : (column l f).get? v = (at? l v).map f := by
  simp only [column, Table.get?, at?, List.find?_map, Option.map_map]
  rfl

/-- A column contains the addresses of its registrations. -/
@[simp] theorem contains_column {α : Type} (l : List Registration) (f : Registration → α)
    (v : Value) : (column l f).contains v = (at? l v).isSome := by
  rw [Bool.eq_iff_iff]
  simp only [column, Table.contains, at?, List.any_map, List.any_eq_true, List.find?_isSome]
  rfl

/-- What is taken out of a column is taken out of the registrations. -/
@[simp] theorem erase_column {α : Type} (l : List Registration) (f : Registration → α)
    (v : Value) : (column l f).erase v = column (without l v) f := by
  simp only [column, Table.erase, without, List.filter_map]
  rfl

/-- A key that is not in a column comes in at its end. -/
theorem set_column_of_none {α : Type} {l : List Registration} {v : Value}
    (h : at? l v = none) (f : Registration → α) (x : α) :
    (column l f).set v x = column l f ++ [(v, x)] := by
  simp [Table.set, h]

/-- Changing a registration sets its entry of a column. -/
theorem set_column_of_some {α : Type} {l : List Registration} {v : Value} {r : Registration}
    (h : at? l v = some r) {f : Registration → α} {g : Registration → Registration} {x : α}
    (haddress : ∀ r, (g r).address = r.address) (hx : ∀ r, f (g r) = x) :
    (column l f).set v x = column (adjust l v g) f := by
  have hcontains : (column l f).contains v = true := by simp [h]
  rw [Table.set, if_pos hcontains]
  simp only [column, adjust, List.map_map]
  apply List.map_congr_left
  intro s _
  by_cases hs : matchesAt v s = true
  · have hs' : (Value.text s.address).eqv v = true := hs
    simp [hs, hs', haddress, hx]
  · have hs' : ¬(Value.text s.address).eqv v = true := hs
    simp [hs, hs']

/-- Changing other parts of registrations leaves a column alone. -/
theorem column_adjust {α : Type} {l : List Registration} {v : Value}
    {f : Registration → α} {g : Registration → Registration}
    (haddress : ∀ r, (g r).address = r.address) (hf : ∀ r, f (g r) = f r) :
    column (adjust l v g) f = column l f := by
  simp only [column, adjust, List.map_map]
  apply List.map_congr_left
  intro s _
  by_cases hs : matchesAt v s = true <;> simp [hs, haddress, hf]

/-- What is required of a column at a registered address is there. -/
theorem require_column_of_some {α : Type} {l : List Registration} {v : Value}
    {r : Registration} (h : at? l v = some r) (f : Registration → α)
    (missing : Value → EngineError) : (column l f).require v missing = .ok (f r) := by
  obtain ⟨_, rfl⟩ := mem_of_at? h
  simp [Table.require, Table.lookUp, Value.isKey, h]

/-- What is required of a column at another address is refused, or cannot be a key. -/
theorem require_column_of_none {α : Type} {l : List Registration} {v : Value}
    (h : at? l v = none) (f : Registration → α) (missing : Value → EngineError) :
    (column l f).require v missing =
      .error (if v.isKey then .refused (missing v) else .wrongType) := by
  by_cases hv : v.isKey = true <;> simp [Table.require, Table.lookUp, hv, h]

/-- Changing a registration in a way that keeps addresses changes what is found there. -/
theorem at?_adjust {l : List Registration} {v : Value} {g : Registration → Registration}
    (haddress : ∀ r, (g r).address = r.address) (u : Value) :
    at? (adjust l v g) u = (at? l u).map (fun r => if matchesAt v r then g r else r) := by
  have hmatch : (fun r => matchesAt u (if matchesAt v r then g r else r)) = matchesAt u := by
    funext r
    by_cases hr : matchesAt v r = true
    · rw [if_pos hr, matchesAt, matchesAt, haddress]
    · rw [if_neg hr]
  simp only [at?, adjust, List.find?_map, Function.comp_def, hmatch]

/-- A registration at the end is found if none before it matches. -/
theorem at?_append_singleton (l : List Registration) (r : Registration) (v : Value) :
    at? (l ++ [r]) v = (at? l v).or (if matchesAt v r then some r else none) := by
  cases hr : matchesAt v r <;> simp [at?, List.find?_append, hr]

/-- Nothing is found any more at an address that has been taken out; elsewhere nothing
changes. -/
theorem at?_without (l : List Registration) (v u : Value) :
    at? (without l v) u = (at? l u).filter (fun r => !matchesAt v r) := by
  induction l with
  | nil => rfl
  | cons r l ih =>
    have hcons (l : List Registration) :
        at? (r :: l) u = if matchesAt u r then some r else at? l u := by
      cases hu : matchesAt u r <;> simp [at?, hu]
    by_cases hv : matchesAt v r = true
    · have hskip : without (r :: l) v = without l v := by simp [without, hv]
      rw [hskip, ih, hcons]
      by_cases hu : matchesAt u r = true
      · have huv : u = v := by rw [matchesAt_iff.mp hu, matchesAt_iff.mp hv]
        have hnone : (at? l u).filter (fun r => !matchesAt v r) = none := by
          subst huv
          rw [Option.filter_eq_none_iff]
          intro s hs
          simp [List.find?_some hs]
        simp [hu, hv, hnone, Option.filter_some]
      · simp [hu]
    · have hkeep : without (r :: l) v = r :: without l v := by simp [without, hv]
      rw [hkeep, hcons, hcons, ih]
      by_cases hu : matchesAt u r = true <;> simp [hu, hv, Option.filter_some]

end Registration

namespace Registry

open Registration

/-- The registry of a list of registrations. -/
def ofList (l : List Registration) : Registry where
  peerOf := column l Registration.peer
  sessionOf := column l Registration.session
  generationOf := column l (fun r => .int r.generation)

/-- The peer of a registration is found. -/
theorem getPeer_of_some {l : List Registration} {v : Value} {r : Registration}
    (h : at? l v = some r) : (ofList l).getPeer v = .ok r.peer :=
  require_column_of_some h _ _

/-- No peer is found where there is no registration. -/
theorem getPeer_of_none {l : List Registration} {v : Value} (h : at? l v = none) :
    (ofList l).getPeer v =
      .error (if v.isKey then .refused (EngineError.peerNotFound v) else .wrongType) :=
  require_column_of_none h _ _

/-- The session of a registration is found. -/
theorem getSession_of_some {l : List Registration} {v : Value} {r : Registration}
    (h : at? l v = some r) : (ofList l).getSession v = .ok r.session :=
  require_column_of_some h _ _

/-- No session is found where there is no registration. -/
theorem getSession_of_none {l : List Registration} {v : Value} (h : at? l v = none) :
    (ofList l).getSession v =
      .error (if v.isKey then .refused (EngineError.sessionNotFound v) else .wrongType) :=
  require_column_of_none h _ _

/-- A new peer is registered at the end of the list, if it can be copied. -/
theorem insert_of_none {l : List Registration} {p : Peer} {a : String}
    (haddress : p.address = .text a) (h : at? l (.text a) = none) (g : Int) (now : Float) :
    (ofList l).insert p (.int g) now =
      if p.isCopyable then .ok (ofList (l ++ [Registration.initial a p g now]))
      else .error .tooDeep := by
  simp only [insert, ofList, haddress, Table.lookUp, Value.isKey, get?_column, h,
    Option.map_none, set_column_of_none h, if_true]
  split
  · simp [column, Registration.initial]
  · rfl

/-- A peer whose address is registered is not inserted. -/
theorem insert_of_some {l : List Registration} {p : Peer} {r : Registration}
    (h : at? l p.address = some r) (g : Int) (now : Float) :
    (ofList l).insert p (.int g) now =
      .error (.refused (EngineError.duplicatePeer p.address)) := by
  have hkey : p.address.isKey = true := by
    rw [(mem_of_at? h).2]
    rfl
  simp only [insert, ofList, Table.lookUp, hkey, get?_column, h, if_true, Option.map_some]

/-- A registered peer is taken out of all three tables. -/
theorem delete_of_some {l : List Registration} {v : Value} {r : Registration}
    (h : at? l v = some r) : (ofList l).delete v = .ok (ofList (without l v)) := by
  simp only [delete, getPeer_of_some h]
  simp [ofList, Table.remove?, h]

/-- Nothing is deleted where there is no registration. -/
theorem delete_of_none {l : List Registration} {v : Value} (h : at? l v = none) :
    (ofList l).delete v =
      .error (if v.isKey then .refused (EngineError.peerNotFound v) else .wrongType) := by
  simp only [delete, getPeer_of_none h]

/-- An update replaces the peer of the registration and nothing else. -/
theorem replace_of_some {l : List Registration} {p : Peer} {r : Registration}
    (h : at? l p.address = some r) (now : Float) :
    (ofList l).replace p now =
      if p.isCopyable then
        .ok (ofList (adjust l p.address fun s => { s with peer := updated r.peer p now }))
      else .error .tooDeep := by
  simp only [replace, getPeer_of_some h]
  split
  · congr 1
    simp only [ofList, Registry.mk.injEq]
    refine ⟨set_column_of_some h (fun _ => rfl) (fun _ => rfl), ?_, ?_⟩
    all_goals
      symm
      apply column_adjust <;> intro s <;> rfl
  · rfl

/-- Setting the session of a registration changes this registration only. -/
theorem setSession_of_some {l : List Registration} {v : Value} {r : Registration}
    (h : at? l v = some r) (s : Session) :
    (ofList l).setSession v s = ofList (adjust l v fun r => { r with session := s }) := by
  simp only [setSession, ofList, Registry.mk.injEq]
  refine ⟨?_, set_column_of_some h (fun _ => rfl) (fun _ => rfl), ?_⟩
  all_goals
    symm
    apply column_adjust <;> intro r <;> rfl

/-- A generation is live if the registration at the address has it. -/
theorem live?_ofList (l : List Registration) (a : String) (g : Int) :
    (ofList l).live? (.text a) (.int g) =
      .ok (((at? l (.text a)).filter (fun r => r.generation == g)).map
        Registration.session) := by
  have hcurrent : (ofList l).isCurrent (.text a) (.int g) =
      .ok ((at? l (.text a)).any (fun r => r.generation == g)) := by
    cases h : at? l (.text a) <;> simp [isCurrent, ofList, Table.lookUp, Value.isKey, Except.map, h]
  unfold live?
  rw [hcurrent]
  cases h : at? l (.text a) with
  | none => simp
  | some r =>
    cases hg : r.generation == g <;> simp [ofList, h, hg, Option.filter_some]

end Registry

end Peering
