import Peering.Proofs.Projection

/-!
# Peers do not touch each other

What happens to the peers at some addresses does not depend on the others: if the calls for other
addresses are deleted from a run, and the turns of other walks, then the peers that are left end up
just as before, and so do their sessions and walks. Only generations are others, since they are
given out to all registrations in common.
-/

namespace Peering

open Registration

/-- The registrations at some addresses. -/
def Choice.at (S : Value → Bool) : Choice := fun p => S p.1

namespace Engine

/-- An engine has what counts of another one, and nothing else: peers, sessions and walks are the
same and in the same order, and generations are in the same order. -/
structure PartOf (part e : Engine) (K : Choice) (ρ : Int → Int) : Prop where
  /-- The peers are those that count. -/
  peers_eq : part.registry.peerOf =
    e.registry.peerOf.filter fun entry => K (entry.1, e.generationAt entry.1)
  /-- The sessions are those that count. -/
  sessions_eq : part.registry.sessionOf =
    e.registry.sessionOf.filter fun entry => K (entry.1, e.generationAt entry.1)
  /-- The generations are those that count, under other numbers. -/
  generations_eq : part.registry.generationOf =
    (e.registry.generationOf.filter K).map fun entry => (entry.1, entry.2.renumbered ρ)
  /-- The walks are those of registrations that count, former ones included. -/
  walks_eq : part.walks = (e.walks.filter fun w => K w.serves).map (Walk.renumbered ρ)
  /-- At an address that counts the same walk is found. -/
  walkAt?_eq : ∀ v, K (v, e.generationAt v) = true →
    part.walkAt? v = (e.walkAt? v).map (Walk.renumbered ρ)
  /-- Both have the same settings. -/
  settings : part.SameSettings e
  /-- Later registrations have greater generations on both. -/
  increasing : StrictMonoOn ρ (e.generations K)

variable {e e' new : Engine} {l : List Registration} {starts : List Start} {K : Choice}
  {ρ : Int → Int}

/-- A column of the registrations that count is that part of the column. -/
private theorem Holds.column_filter (h : e.Holds l starts) {α : Type} (f : Registration → α) :
    column (l.filter fun r => K r.start.values) f =
      (column l f).filter fun entry => K (entry.1, e.generationAt entry.1) := by
  have hcounts : l.filter (fun r => K r.start.values) =
      l.filter fun r => K (.text r.address, e.generationAt (.text r.address)) := by
    refine List.filter_congr fun r hr => ?_
    rw [h.generationAt_of_some (h.at?_of_mem hr)]
    rfl
  rw [hcounts, column, column, List.filter_map]
  rfl

/-- What is a part of an engine has what counts of it. -/
theorem Restricts.partOf (R : Restricts e' e l K ρ) : e'.PartOf e K ρ := by
  obtain ⟨starts, h⟩ := R.holds
  constructor
  case peers_eq =>
    rw [R.registry_eq, h.registry_eq]
    exact (column_map_renumbered (fun _ => rfl) _).trans (h.column_filter Registration.peer)
  case sessions_eq =>
    rw [R.registry_eq, h.registry_eq]
    exact (column_map_renumbered (fun _ => rfl) _).trans (h.column_filter Registration.session)
  case generations_eq =>
    rw [R.registry_eq, h.registry_eq]
    simp only [Registry.ofList, select, column, List.filter_map, List.map_map]
    rfl
  case walks_eq => exact R.walks_eq
  case walkAt?_eq => exact fun v hv => R.walkAt?_eq hv
  case settings => exact R.settings
  case increasing => exact R.increasing

/-- What calls for some addresses look at, and what others do, is told apart by the address. -/
private theorem fits_at (S : Value → Bool) (e : Engine) :
    e.Fits (.at S) (Call.staysIn S) (Call.isFor S) where
  keeps_eq c v hv := by rw [Call.staysIn, hv]; rfl
  keeps_overview c hc := by rw [Call.staysIn, hc]; rfl
  keeps_of_shown c hc := Call.staysIn_of_isFor hc
  not_shown_faults := rfl
  all_of_shown c hshown hc := by
    rw [Call.isFor, hc] at hshown
    cases hshown

/-- Peers do not touch each other. The run in which the calls for addresses outside of a set are
deleted, and the turns of walks outside of it, ends with the peers, sessions and walks of the set as
the whole run has them. On the way each call for an address of the set is answered as in the whole
run, and its walks ask for the same. -/
theorem IsNew.peers_are_isolated (hnew : new.IsNew) (S : Value → Bool) (ms : List Moment) :
    ∃ ρ, (new.run (new.project (.at S) (Call.staysIn S) ms)).PartOf (new.run ms) (.at S) ρ ∧
      new.Retraces new (.at S) (Call.staysIn S) (Call.isFor S) ms ρ := by
  have hserved : new.served = [] := by rw [served, hnew.walks_eq]; rfl
  have R : Restricts new new [] (.at S) id :=
    hnew.holds.restricts_self fun p hp => by rw [hserved] at hp; cases hp
  obtain ⟨ρ, l, _, R', hretraces⟩ := R.run_project ms fun _ _ _ _ => fits_at S _
  exact ⟨ρ, R'.partOf, hretraces ρ (.refl _ _)⟩

/-- A run with two peers, of which the first is removed again. -/
def mixedRun : List Moment := [
  ⟨.call (.addPeer (.record otherPeer)), 0.0⟩,
  ⟨.call (.addPeer (.record samplePeer)), 0.0⟩,
  ⟨.turn 0 {} true, 0.0⟩,
  ⟨.turn 1 {} true, 0.0⟩,
  ⟨.call .sessions, 1.0⟩,
  ⟨.turn 1 {} true, 2.0⟩,
  ⟨.call (.removePeer otherPeer.address), 3.0⟩]

/-- The run that is left of it for the second peer. -/
def mixedRunLeft : List Moment := [
  ⟨.call (.addPeer (.record samplePeer)), 0.0⟩,
  ⟨.turn 0 {} true, 0.0⟩,
  ⟨.call .sessions, 1.0⟩,
  ⟨.turn 0 {} true, 2.0⟩]

/-- Without the first peer the second has the first generation, and its walk the first number. -/
theorem peers_are_isolated_mixedRun :
    IsNew {} ∧ ∃ ρ : Int → Int, ρ 2 = 1 ∧
      (({} : Engine).run mixedRunLeft).PartOf (({} : Engine).run mixedRun)
        (.at sampleAddress.eqv) ρ := by
  have hnew : IsNew {} := ⟨rfl, rfl, rfl, rfl⟩
  obtain ⟨ρ, hpart, _⟩ := hnew.peers_are_isolated sampleAddress.eqv mixedRun
  have hleft : ({} : Engine).project (.at sampleAddress.eqv) (Call.staysIn sampleAddress.eqv)
      mixedRun = mixedRunLeft := rfl
  rw [hleft] at hpart
  have hgenerations : [(sampleAddress, Value.int 1)] = [(sampleAddress, Value.int (ρ 2))] :=
    hpart.generations_eq
  have hρ : ρ 2 = 1 := by simpa using hgenerations.symm
  exact ⟨hnew, ρ, hρ, hpart⟩

end Engine

end Peering
