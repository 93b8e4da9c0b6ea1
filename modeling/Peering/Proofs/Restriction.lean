import Peering.Proofs.Likeness
import Mathlib

/-!
# Engines with a part of the registrations

One engine has a part of the registrations of another one, with what belongs to them: their walks,
and the numbers by which these walks are found. What is done to both for a registration that both
have leaves them so, and so does what is done to the larger one for a registration that only this
one has. Generations are given out on each engine for itself; the order in which they were given
out is the same on both.
-/

namespace Peering

open Registration

namespace Engine

variable {e e' e₁ e₁' : Engine} {l l₁ : List Registration} {starts : List Start} {K : Choice}
  {ρ : Int → Int} {now : Float} {v : Value} {m : Moment}

/-- The registrations that walks were started for, in order. -/
def served (e : Engine) : List (Value × Value) := e.walks.map Walk.serves

/-- The generations of all registrations that count and were ever made. -/
def generations (e : Engine) (K : Choice) : Set Int :=
  {g | ∃ a, (a, .int g) ∈ e.served ∧ K (a, .int g) = true}

/-- The generation of the registration at an address, or the one it would get. -/
def generationAt (e : Engine) (v : Value) : Value :=
  (e.registry.generationOf.get? v).getD (.int e.nextGeneration)

section Served

/-- The generation of a live registration is the one at its address. -/
theorem IsLive.generationAt_eq {g : Value} (h : e.IsLive v g) : e.generationAt v = g :=
  congrArg (Option.getD · _) h

/-- The generation at a registered address is that of the registration. -/
theorem Holds.generationAt_of_some (h : e.Holds l starts) {r : Registration}
    (hr : at? l v = some r) : e.generationAt v = .int r.generation := by
  simp [generationAt, h.registry_eq, Registry.ofList, hr]

/-- The generation at another address is the next one to be given out. -/
theorem Holds.generationAt_of_none (h : e.Holds l starts) (hr : at? l v = none) :
    e.generationAt v = .int e.nextGeneration := by
  simp [generationAt, h.registry_eq, Registry.ofList, hr]

/-- What walks were started for are registrations that were made. -/
theorem Holds.served_eq (h : e.Holds l starts) : e.served = starts.map Start.values :=
  h.walks_eq

/-- A walk was started for each registration. -/
theorem Holds.mem_served (h : e.Holds l starts) {r : Registration} (hr : r ∈ l) :
    r.start.values ∈ e.served := by
  rw [h.served_eq]
  exact List.mem_map_of_mem (h.sublist.subset (List.mem_map_of_mem hr))

/-- Walks were started for addresses that are texts and generations that were given out. -/
theorem Holds.values_of_served (h : e.Holds l starts) {p : Value × Value} (hp : p ∈ e.served) :
    ∃ a g, p = (.text a, .int g) ∧ g < e.nextGeneration := by
  rw [h.served_eq] at hp
  obtain ⟨s, hs, rfl⟩ := List.mem_map.mp hp
  exact ⟨s.address, s.generation, rfl, h.fresh s hs⟩

/-- The generations that count were given out. -/
theorem Holds.generations_lt (h : e.Holds l starts) {g : Int} (hg : g ∈ e.generations K) :
    g < e.nextGeneration := by
  obtain ⟨a, hmem, _⟩ := hg
  obtain ⟨_, _, heq, hlt⟩ := h.values_of_served hmem
  obtain ⟨_, hg⟩ := Prod.mk.inj heq
  exact Value.int.inj hg ▸ hlt

/-- A number by which a walk is found is one of a walk that was started for the registration at
this address. -/
theorem Holds.served_of_walkOf (h : e.Holds l starts) {entry : Value × Nat}
    (hentry : entry ∈ e.walkOf) :
    ∃ r, at? l entry.1 = some r ∧ e.served[entry.2]? = some r.start.values := by
  obtain ⟨s, hs, haddress, hi⟩ := h.walkOf_live entry hentry
  obtain ⟨r, hr, rfl⟩ := List.mem_map.mp hs
  refine ⟨r, haddress ▸ h.at?_of_mem hr, ?_⟩
  rw [h.served_eq, List.getElem?_map, hi, Option.map_some]

/-- All that stands at an address among the numbers of walks counts if the registration there
does, and does not if that does not. -/
theorem Holds.any_of_eqv (h : e.Holds l starts) {entry : Value × Nat} (hentry : entry ∈ e.walkOf)
    (hv : entry.1.eqv v = true) {b : Bool}
    (hb : ∀ r, at? l v = some r → K r.start.values = b) :
    (e.served[entry.2]?).any K = b := by
  obtain ⟨r, hr, hserved⟩ := h.served_of_walkOf hentry
  have hentry' := (mem_of_at? hr).2
  rw [hentry', Value.text_eqv_iff] at hv
  rw [hserved, Option.any_some]
  exact hb r (by rw [hv, ← hentry']; exact hr)

/-- If all registrations count, all walks that are found by an address do. -/
theorem Holds.any_served (h : e.Holds l starts) (hall : ∀ r ∈ l, K r.start.values = true)
    {entry : Value × Nat} (hentry : entry ∈ e.walkOf) : (e.served[entry.2]?).any K = true := by
  obtain ⟨r, hr, hserved⟩ := h.served_of_walkOf hentry
  rw [hserved, Option.any_some]
  exact hall r (mem_of_at? hr).1

/-- Walks that are found are among those that were started. -/
theorem Holds.walkOf_lt (h : e.Holds l starts) {entry : Value × Nat} (hentry : entry ∈ e.walkOf) :
    entry.2 < e.served.length := by
  obtain ⟨r, _, hserved⟩ := h.served_of_walkOf hentry
  exact (List.getElem?_eq_some_iff.mp hserved).1

end Served

/-- The engine `e'` has the registrations of `e` that count, with what belongs to them and under
other generations. -/
structure Restricts (e' e : Engine) (l : List Registration) (K : Choice) (ρ : Int → Int) :
    Prop where
  /-- The larger engine has a list of registrations. -/
  holds : ∃ starts, e.Holds l starts
  /-- The smaller one has those that count. -/
  registry_eq : e'.registry = .ofList (select K ρ l)
  /-- It has their walks, also the ones of former registrations. -/
  walks_eq : e'.walks = Walk.select K ρ e.walks
  /-- It finds the walks that the larger one finds. -/
  walkOf_eq : e'.walkOf = Table.select K e.served e.walkOf
  /-- Both have the same settings. -/
  settings : e'.SameSettings e
  /-- Later registrations have greater generations on both. -/
  increasing : StrictMonoOn ρ (e.generations K)
  /-- The generations of the smaller engine were given out. -/
  fresh : ∀ g ∈ e.generations K, ρ g < e'.nextGeneration

namespace Restricts

variable (R : Restricts e' e l K ρ)

section Basic

include R

/-- No address is registered twice. -/
theorem nodup : (l.map Registration.address).Nodup := by
  obtain ⟨starts, h⟩ := R.holds
  exact h.nodup_addresses

/-- The fault switch is on for both engines or for none. -/
theorem isOn_eq : e'.faults.isOn = e.faults.isOn := by
  rw [FaultSwitch.isOn, R.settings.enabled_eq, FaultSwitch.isOn]

/-- The generation of a registration that counts is one of those that count. -/
theorem generation_mem {r : Registration} (hr : r ∈ l) (hK : K r.start.values = true) :
    r.generation ∈ e.generations K := by
  obtain ⟨starts, h⟩ := R.holds
  exact ⟨.text r.address, h.mem_served hr, hK⟩

/-- The smaller engine counts its walks. -/
theorem length_walks : e'.walks.length = e.served.countP K := by
  rw [R.walks_eq, Walk.length_select, served]

/-- A walk that counts is on both engines. -/
theorem walk?_eq {i : Nat} {w : Walk} (hw : e.walk? i = some w) (hK : K w.serves = true) :
    e'.walk? (rank K e.served i) = some (w.renumbered ρ) := by
  rw [Roster.walk?, R.walks_eq]
  exact Walk.getElem?_select hw hK

/-- The smaller engine has no more walks. -/
theorem walk?_eq_none {i : Nat} (hw : e.walk? i = none) : e'.walk? i = none := by
  have hlength : e.served.length ≤ i := by
    rw [served, List.length_map]
    exact List.getElem?_eq_none_iff.mp hw
  have hcount : e.served.countP K ≤ e.served.length := List.countP_le_length
  exact List.getElem?_eq_none (by rw [R.length_walks]; omega)

/-- The same session is live for a walk that counts on both engines, whatever has been written into
sessions meanwhile. -/
theorem live?_eq {w : Walk} (hw : w ∈ e.walks) (hK : K w.serves = true)
    (hl₁ : l₁.map Registration.start = l.map Registration.start) :
    (Registry.ofList (select K ρ l₁)).live? w.address (w.generation.renumbered ρ) =
      (Registry.ofList l₁).live? w.address w.generation := by
  obtain ⟨starts, h⟩ := R.holds
  have hserved : w.serves ∈ e.served := List.mem_map_of_mem hw
  obtain ⟨a, g, hvalues, _⟩ := h.values_of_served hserved
  obtain ⟨haddress, hgeneration⟩ := Prod.mk.inj hvalues
  have hnodup : (l₁.map Registration.address).Nodup := by
    have haddresses := congrArg (List.map Start.address) hl₁
    rw [List.map_map, List.map_map] at haddresses
    exact haddresses.symm ▸ R.nodup
  have hg : g ∈ e.generations K := ⟨.text a, hvalues ▸ hserved, hvalues ▸ hK⟩
  rw [haddress, hgeneration, Value.renumbered, Registry.live?_ofList, Registry.live?_ofList,
    at?_select hnodup]
  cases hr : at? l₁ (.text a) with
  | none => rfl
  | some r =>
    have hra : a = r.address := Value.text.inj (mem_of_at? hr).2
    by_cases hrg : r.generation = g
    · have hK' : K r.start.values = true := by
        rw [hvalues, hra, ← hrg] at hK
        exact hK
      simp [Option.filter_some, hK', hrg, renumbered]
    · cases hK' : K r.start.values with
      | false => simp [Option.filter_some, hK', hrg]
      | true =>
        -- generations that differ on one engine differ on the other
        have hmem : r.start ∈ l.map Registration.start :=
          hl₁ ▸ List.mem_map_of_mem (mem_of_at? hr).1
        obtain ⟨s, hs, hstart⟩ := List.mem_map.mp hmem
        have hsg : s.generation = r.generation := congrArg Start.generation hstart
        have hr' : r.generation ∈ e.generations K :=
          hsg ▸ R.generation_mem hs (by rw [hstart]; exact hK')
        have hne : ρ r.generation ≠ ρ g := fun heq => hrg (R.increasing.injOn hr' hg heq)
        simp [Option.filter_some, hK', hrg, renumbered, hne]

end Basic

section Changes

variable {e₁ e₁' : Engine} {l₁ : List Registration}

/-- Engines that have started the same walks have given out the same generations. -/
theorem generations_congr (h : e₁.served = e.served) : e₁.generations K = e.generations K := by
  rw [generations, h, generations]

include R

/-- Where no walk is started, the generations stay as they are. -/
theorem of_served (hholds : ∃ starts, e₁.Holds l₁ starts)
    (hregistry : e₁'.registry = .ofList (select K ρ l₁))
    (hwalks : e₁'.walks = Walk.select K ρ e₁.walks)
    (hwalkOf : e₁'.walkOf = Table.select K e.served e₁.walkOf) (hsettings : e₁'.SameSettings e₁)
    (hserved : e₁.served = e.served) (hnext : e'.nextGeneration ≤ e₁'.nextGeneration) :
    Restricts e₁' e₁ l₁ K ρ where
  holds := hholds
  registry_eq := hregistry
  walks_eq := hwalks
  walkOf_eq := hserved.symm ▸ hwalkOf
  settings := hsettings
  increasing := generations_congr hserved ▸ R.increasing
  fresh g hg := Int.lt_of_lt_of_le (R.fresh g (generations_congr hserved ▸ hg)) hnext

/-- Generations that have not been given out may be renumbered as one likes. -/
theorem congr {ρ' : Int → Int} (hρ : AgreeBelow e.nextGeneration ρ' ρ) :
    Restricts e' e l K ρ' := by
  obtain ⟨starts, h⟩ := R.holds
  have hgeneration (g : Int) (hg : g ∈ e.generations K) : ρ' g = ρ g := hρ g (h.generations_lt hg)
  constructor
  case holds => exact R.holds
  case registry_eq =>
    rw [R.registry_eq]
    congr 1
    exact (select_congr fun r hr => hρ _ (h.generation_lt (h.at?_of_mem hr))).symm
  case walks_eq =>
    rw [R.walks_eq]
    refine (Walk.select_congr fun w hw => ?_).symm
    obtain ⟨a, g, hserves, hlt⟩ := h.values_of_served (List.mem_map_of_mem hw)
    have hwg : w.generation = .int g := congrArg Prod.snd hserves
    rw [hwg, Value.renumbered, Value.renumbered, hρ g hlt]
  case walkOf_eq => exact R.walkOf_eq
  case settings => exact R.settings
  case increasing =>
    intro g hg k hk hlt
    rw [hgeneration g hg, hgeneration k hk]
    exact R.increasing hg hk hlt
  case fresh =>
    intro g hg
    rw [hgeneration g hg]
    exact R.fresh g hg

/-- Nothing changes on either engine but the fault switch, and generations may be used up. -/
theorem of_sameTables (hholds : ∃ starts, e₁.Holds l starts) (h : e₁.SameTables e)
    (h' : e₁'.SameTables e') (hsettings : e₁'.SameSettings e₁) : Restricts e₁' e₁ l K ρ := by
  refine R.of_served hholds (h'.registry_eq.trans R.registry_eq) ?_ ?_ hsettings ?_ h'.next_le
  · rw [h'.walks_eq, h.walks_eq, R.walks_eq]
  · rw [h'.walkOf_eq, h.walkOf_eq, R.walkOf_eq]
  · exact congrArg (List.map Walk.serves) h.walks_eq

end Changes

end Restricts

end Engine

end Peering
