import Peering.Proofs.Succession

/-!
# The tables of an engine agree

Peers, sessions and generations are kept in tables of their own, and the walks are found by yet
another one. This file shows that these tables always speak of the same addresses in the same
order, that the order is that of the registrations, and that no other requests than those to add
and to remove a peer change it.
-/

namespace Peering

open Registration

namespace Engine

/-- The addresses that are registered, in order. -/
def addresses (e : Engine) : List Value := e.registry.peerOf.keys

/-- The tables of the engine speak of the same addresses, and generations tell the order. -/
structure Aligned (e : Engine) : Prop where
  /-- The addresses are texts. -/
  addresses_text : ∀ a ∈ e.addresses, ∃ s, a = .text s
  /-- No address is registered twice. -/
  addresses_nodup : e.addresses.Nodup
  /-- There is a session for each address, in the same order. -/
  sessions_keys : e.registry.sessionOf.keys = e.addresses
  /-- There is a generation for each address, in the same order. -/
  generations_keys : e.registry.generationOf.keys = e.addresses
  /-- Each peer has the address that it is registered under. -/
  peer_address : ∀ entry ∈ e.registry.peerOf, entry.2.address = entry.1
  /-- Each session has the address that it is registered under. -/
  session_address : ∀ entry ∈ e.registry.sessionOf, entry.2.address = entry.1
  /-- The generations increase along the order, and the next one comes after them. -/
  generations_increase : ∃ numbers : List Int,
    e.registry.generationOf.values = numbers.map .int ∧ numbers.Pairwise (· < ·) ∧
      ∀ k ∈ numbers, k < e.nextGeneration
  /-- The next generation comes after those of all walks ever started. -/
  walk_generation : ∀ w ∈ e.walks, ∃ k, w.generation = .int k ∧ k < e.nextGeneration
  /-- A walk that is found by an address is for the live registration of this address. -/
  walkOf_live : ∀ entry ∈ e.walkOf, entry.1 ∈ e.addresses ∧
    ∃ w, e.walk? entry.2 = some w ∧ w.address = entry.1 ∧ e.IsLive entry.1 w.generation

/-- The moment changes the order of addresses at most by a new one at the end or by one that is
taken out. -/
structure KeepsOrder (e : Engine) (m : Moment) : Prop where
  /-- A peer is added at the end. -/
  added : ∀ a, e.Adds m a → a ∉ e.addresses ∧ (e.after m).addresses = e.addresses ++ [a]
  /-- A peer is taken out and the others keep their order. -/
  removed : ∀ a, e.Removes m a →
    ∃ before rest, e.addresses = before ++ a :: rest ∧ (e.after m).addresses = before ++ rest
  /-- Nothing else changes the order. -/
  kept : (∀ a, ¬e.Adds m a) → (∀ a, ¬e.Removes m a) → (e.after m).addresses = e.addresses

variable {e : Engine} {l l' : List Registration} {starts : List Start} {m : Moment}

/-- The registrations before and after the one at an address stay without it, if addresses are
distinct. -/
private theorem exists_split_without {a : Value} {r : Registration} (hr : at? l a = some r)
    (hnodup : (l.map Registration.address).Nodup) :
    ∃ before rest, l = before ++ r :: rest ∧ without l a = before ++ rest := by
  obtain ⟨before, rest, rfl, hbefore, hrest⟩ := exists_split hr hnodup
  refine ⟨before, rest, rfl, ?_⟩
  have hmatch : matchesAt a r = true := matchesAt_iff.mpr (mem_of_at? hr).2
  have hkeep (l : List Registration) (hl : ∀ s ∈ l, matchesAt a s = false) : without l a = l := by
    rw [without, List.filter_eq_self]
    intro s hs
    rw [hl s hs]
    rfl
  have hskip : without (r :: rest) a = without rest a := by simp [without, hmatch]
  have happend : without (before ++ r :: rest) a = without before a ++ without (r :: rest) a :=
    List.filter_append _ _
  rw [happend, hskip, hkeep rest hrest, hkeep before hbefore]

namespace Holds

/-- The addresses are those of the registrations. -/
theorem addresses_eq (h : e.Holds l starts) :
    e.addresses = l.map fun r => .text r.address := by
  rw [addresses, h.registry_eq]
  exact keys_column l Registration.peer

/-- The tables agree. -/
private theorem aligned (h : e.Holds l starts) : e.Aligned := by
  have haddresses := h.addresses_eq
  constructor
  case addresses_text =>
    intro a ha
    rw [haddresses] at ha
    obtain ⟨r, _, rfl⟩ := List.mem_map.mp ha
    exact ⟨r.address, rfl⟩
  case addresses_nodup =>
    rw [haddresses]
    exact h.nodup_keys
  case sessions_keys =>
    rw [haddresses, h.registry_eq]
    exact keys_column l Registration.session
  case generations_keys =>
    rw [haddresses, h.registry_eq]
    exact keys_column l fun r => Value.int r.generation
  case peer_address =>
    rw [h.registry_eq]
    intro entry hentry
    obtain ⟨r, hr, rfl⟩ := List.mem_map.mp hentry
    exact h.peer_address r hr
  case session_address =>
    rw [h.registry_eq]
    intro entry hentry
    obtain ⟨r, hr, rfl⟩ := List.mem_map.mp hentry
    exact h.session_address r hr
  case generations_increase =>
    refine ⟨l.map Registration.generation, ?_, ?_, ?_⟩
    · rw [h.registry_eq, List.map_map]
      exact values_column l fun r => Value.int r.generation
    · exact h.generations_increasing
    · intro k hk
      obtain ⟨r, hr, rfl⟩ := List.mem_map.mp hk
      exact h.generation_lt (h.at?_of_mem hr)
  case walk_generation =>
    intro w hw
    obtain ⟨i, hi⟩ := List.mem_iff_getElem?.mp hw
    obtain ⟨s, hs, _, hgeneration⟩ := h.start_of_walk hi
    exact ⟨s.generation, hgeneration, h.fresh s (List.mem_of_getElem? hs)⟩
  case walkOf_live =>
    intro entry hentry
    obtain ⟨s, hs, hkey, hi⟩ := h.walkOf_live entry hentry
    obtain ⟨r, hr, rfl⟩ := List.mem_map.mp hs
    obtain ⟨w, hw, haddress, hgeneration⟩ := h.walk_of_start hi
    have hat := h.at?_of_mem hr
    rw [haddresses, hkey]
    refine ⟨List.mem_map_of_mem hr, w, hw, haddress, ?_⟩
    exact h.isLive_iff.mpr ⟨r, hat, hgeneration.symm⟩

end Holds

/-- Changing peers and sessions changes no address. -/
private theorem addresses_adjust {v : Value} {g : Registration → Registration}
    (hstart : ∀ r, (g r).start = r.start) :
    ((adjust l v g).map fun r => Value.text r.address) = l.map fun r => .text r.address := by
  have hmap := congrArg (List.map fun s : Start => Value.text s.address)
    (map_start_adjust (l := l) (v := v) hstart)
  rw [List.map_map, List.map_map] at hmap
  exact hmap

/-- The addresses of a list of registrations, in order. -/
private def addressesOf (l : List Registration) : List Value := l.map fun r => .text r.address

/-- A moment that neither adds nor removes a peer keeps the order. -/
private theorem Step.addresses_of_others (hstep : e.Step l m l') (hadds : ∀ a, ¬e.Adds m a)
    (hremoves : ∀ a, ¬e.Removes m a) : addressesOf l' = addressesOf l := by
  cases hstep with
  | added hmove hp hvalid hnew hresult =>
    exact absurd ⟨_, _, hmove, hp, rfl, hresult⟩ (hadds _)
  | removed hmove hr hresult => exact absurd ⟨hmove, hresult⟩ (hremoves _)
  | updated | noted | moved => exact addresses_adjust fun _ => rfl
  | idle | quiet | closed => rfl

/-- The order is kept. -/
private theorem Holds.keepsOrder (h : e.Holds l starts) (m : Moment) : e.KeepsOrder m := by
  obtain ⟨l', starts', hstep, _, h'⟩ := h.exists_after m
  constructor
  case added =>
    intro a hadds
    rw [h.addresses_eq, h'.addresses_eq]
    obtain ⟨b, p, rfl, hnone, rfl⟩ := hstep.eq_append_of_adds hadds
    refine ⟨fun hmem => ?_, by simp [Registration.initial]⟩
    obtain ⟨r, hr, haddress⟩ := List.mem_map.mp hmem
    exact at?_eq_none.mp hnone r hr haddress.symm
  case removed =>
    intro a hremoves
    rw [h.addresses_eq, h'.addresses_eq]
    obtain ⟨r, hr, rfl⟩ := hstep.eq_without_of_removes hremoves
    obtain ⟨before, rest, rfl, hwithout⟩ := exists_split_without hr h.nodup_addresses
    refine ⟨addressesOf before, addressesOf rest, ?_, ?_⟩
    · rw [(mem_of_at? hr).2]
      simp [addressesOf]
    · rw [hwithout]
      simp [addressesOf]
  case kept =>
    intro hadds hremoves
    rw [h.addresses_eq, h'.addresses_eq]
    exact hstep.addresses_of_others hadds hremoves

/-- In every engine that is reached the tables agree, and at every moment their order is that
of the registrations: a peer that is added, again or for the first time, comes in at the end, one
that is removed is taken out, and nothing else moves a peer. -/
theorem Reachable.tables_agree (he : e.Reachable) : e.Aligned ∧ ∀ m, e.KeepsOrder m := by
  obtain ⟨l, starts, h⟩ := he.exists_holds
  exact ⟨h.aligned, h.keepsOrder⟩

/-- After a peer has been removed and added again, both of its walks are there, and it is found
by the second. -/
theorem tables_agree_readded :
    readded.Reachable ∧ readded.addresses = [sampleAddress] ∧ readded.walks.length = 2 ∧
      readded.walkOf = [(sampleAddress, 1)] ∧ readded.Aligned :=
  ⟨reachable_readded, rfl, rfl, rfl, reachable_readded.tables_agree.1⟩

end Engine

end Peering
