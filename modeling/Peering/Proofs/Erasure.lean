import Peering.Proofs.Projection
import Peering.Monitor

/-!
# What leaves no trace

A request that is refused may be deleted from a run. Nothing that comes later shows the difference
but generations, and the count of failures that the fault switch has caused. This file says when an
engine resembles another one in this way, and shows so of the two runs.
-/

namespace Peering

open Registration

/-- The call reads the fault switch, which shows how many failures it has caused. -/
def Call.readsFaults : Call → Bool
  | .faults => true
  | _ => false

namespace Engine

/-- Two engines are the same but for generations and former walks: those walks of the second one
that do not count are not on the first. -/
structure Resembles (e' e : Engine) (K : Choice) (ρ : Int → Int) : Prop where
  /-- Both have the same peers in the same order. -/
  peers_eq : e'.registry.peerOf = e.registry.peerOf
  /-- Both have the same sessions in the same order. -/
  sessions_eq : e'.registry.sessionOf = e.registry.sessionOf
  /-- Generations are others, under the same addresses. -/
  generations_eq : e'.registry.generationOf =
    e.registry.generationOf.map fun entry => (entry.1, entry.2.renumbered ρ)
  /-- Walks that count are the same. -/
  walks_eq : e'.walks = (e.walks.filter fun w => K w.serves).map (Walk.renumbered ρ)
  /-- The same addresses have a walk, in the same order. -/
  walkOf_keys : e'.walkOf.keys = e.walkOf.keys
  /-- At each address the same walk is found. -/
  walkAt?_eq : ∀ v, e'.walkAt? v = (e.walkAt? v).map (Walk.renumbered ρ)
  /-- The running configuration is the same. -/
  runningConfig_eq : e'.runningConfig = e.runningConfig
  /-- Both have the same settings. -/
  settings : e'.SameSettings e
  /-- Later registrations have greater generations on both. -/
  increasing : StrictMonoOn ρ (e.generations K)

variable {e e' : Engine} {l : List Registration} {K : Choice} {ρ : Int → Int}

/-- An engine that has all registrations of another one resembles it. -/
theorem Restricts.resembles (R : Restricts e' e l K ρ)
    (hall : ∀ v, K (v, e.generationAt v) = true) : e'.Resembles e K ρ := by
  obtain ⟨starts, h⟩ := R.holds
  have hcounts (r : Registration) (hr : r ∈ l) : K r.start.values = true :=
    R.counts (hall _) (h.at?_of_mem hr)
  have hpeers := R.peerOf_eq hcounts
  constructor
  case peers_eq => exact hpeers
  case sessions_eq => exact R.sessionOf_eq hcounts
  case generations_eq =>
    rw [R.registry_eq_of_all hcounts, h.registry_eq]
    simp only [Registry.ofList, column, List.map_map]
    rfl
  case walks_eq => exact R.walks_eq
  case walkOf_keys =>
    have hfilter : e.walkOf.filter (fun entry => (e.served[entry.2]?).any K) = e.walkOf :=
      List.filter_eq_self.mpr fun _ => h.any_served hcounts
    rw [R.walkOf_eq, Table.select, hfilter, Table.keys, List.map_map]
    rfl
  case walkAt?_eq => exact fun v => R.walkAt?_eq (hall v)
  case runningConfig_eq =>
    simp only [runningConfig, getAllPeers, Registry.peers, hpeers, report, source,
      R.settings.routerAsn_eq]
  case settings => exact R.settings
  case increasing => exact R.increasing

/-- A monitor sees the same on both. -/
theorem Resembles.poll_eq (h : e'.Resembles e K ρ) (M : Monitor) (now : Float)
    (callback : Option EventObserver) : M.poll e' now callback = M.poll e now callback := by
  have hsessions : e'.getAllSessions now = e.getAllSessions now := by
    simp only [getAllSessions, Registry.snapshotSessions, Registry.sessions, h.sessions_eq, report,
      source, h.settings.routerAsn_eq]
  rw [Monitor.poll, Monitor.poll, hsessions]

/-- Where everything counts that is registered, all calls are kept, and all but the reads of the
fault switch may be looked at. -/
theorem fits_whole (hK : ∀ v, K (v, e.generationAt v) = true) :
    e.Fits K (fun _ => true) fun c => !c.readsFaults where
  keeps_eq _ v _ := (hK v).symm
  keeps_overview _ _ := rfl
  keeps_of_shown _ _ := rfl
  not_shown_faults := rfl
  all_of_shown _ _ _ a _ hlive := hlive.generationAt_eq ▸ hK a

section Refusals

variable {c : Call} {now : Float} {err : EngineError}

/-- A request that is refused changes nothing but the fault switch, which may count it, and the
generation that is given out next. -/
private theorem Holds.sameTables_of_refused {starts : List Start} (h : e.Holds l starts)
    (hrequest : c.isRequest = true)
    (hrefused : (c.perform e now).result = .error (.refused err)) :
    (c.perform e now).engine.SameTables e ∧ (c.perform e now).engine.SameSettings e := by
  obtain ⟨v, hv⟩ := Call.exists_target hrequest
  obtain ⟨out, hout, hedited, hresult⟩ := perform_follows h.registry_eq hrequest hv now
  rw [hout] at hrefused ⊢
  have hplan : (c.plan e.faults.isOn (at? l v) now).2 = .error (.refused err) := by
    rw [← hresult]
    simp only [Call.changing] at hrefused
    cases hout : out.result with
    | error f =>
      rw [hout] at hrefused
      exact congrArg Except.error (Except.error.inj hrefused)
    | ok _ =>
      rw [hout] at hrefused
      cases hrefused
  rw [(Call.settles hrequest _ _ _).keep_of_refused hplan] at hedited
  cases hedited with
  | keep htables hsettings => exact ⟨htables, hsettings⟩

/-- A request that is refused can be deleted. It leaves the peers, the sessions, the generations and
all walks as they were. In whatever follows, each call is answered as it would be without the
request, the walks ask for the same, and peers, sessions and walks are the same; so is what a
monitor finds. The reads of the fault switch are left aside, and generations may be others. -/
theorem Reachable.refused_requests_leave_no_trace (he : e.Reachable) (hrequest : c.isRequest = true)
    (hrefused : (c.perform e now).result = .error (.refused err)) :
    (c.perform e now).engine.SameTables e ∧
      ∀ ms, ∃ ρ, (e.run ms).Resembles ((c.perform e now).engine.run ms) .all ρ ∧
        e.outcomes (fun c => !c.readsFaults) ms =
          ((c.perform e now).engine.outcomes (fun c => !c.readsFaults) ms).map
            (Answered.renumbered ρ) ∧
        e.asks .all ms =
          ((c.perform e now).engine.asks .all ms).map (Effect.renumbered ρ) ∧
        ∀ (M : Monitor) later callback, M.poll (e.run ms) later callback =
          M.poll ((c.perform e now).engine.run ms) later callback := by
  obtain ⟨l, starts, h⟩ := he.exists_holds
  obtain ⟨htables, hsettings⟩ := h.sameTables_of_refused hrequest hrefused
  refine ⟨htables, fun ms => ?_⟩
  have R : Restricts e (c.perform e now).engine l .all id :=
    (h.restricts_self fun _ _ => rfl).of_sameTables ⟨starts, h.of_sameTables htables⟩ htables
      (.refl e) hsettings.symm
  obtain ⟨ρ, l', _, R', hretraces⟩ := R.run_project ms fun _ _ _ _ => fits_whole fun _ => rfl
  obtain ⟨houtcomes, hasks⟩ := hretraces ρ (.refl _ _)
  rw [project_all] at R' houtcomes hasks
  have hresembles := R'.resembles fun _ => rfl
  exact ⟨ρ, hresembles, houtcomes, hasks, hresembles.poll_eq⟩

/-- The address is taken, so that to add it is refused. The registration that is made after it has
been removed has a greater generation then. -/
theorem refused_requests_leave_no_trace_readded :
    readded.Reachable ∧
      ((Call.addPeer (.record samplePeer)).perform readded 2.0).result =
        .error (.refused (EngineError.duplicatePeer sampleAddress)) ∧
      ∃ ρ : Int → Int, ρ 4 = 3 ∧
        (readded.run [⟨.call (.removePeer sampleAddress), 3.0⟩,
          ⟨.call (.addPeer (.record samplePeer)), 4.0⟩]).Resembles
          (((Call.addPeer (.record samplePeer)).perform readded 2.0).engine.run
            [⟨.call (.removePeer sampleAddress), 3.0⟩,
              ⟨.call (.addPeer (.record samplePeer)), 4.0⟩]) .all ρ := by
  have hrefused : ((Call.addPeer (.record samplePeer)).perform readded 2.0).result =
      .error (.refused (EngineError.duplicatePeer sampleAddress)) := rfl
  obtain ⟨_, hlater⟩ := reachable_readded.refused_requests_leave_no_trace rfl hrefused
  obtain ⟨ρ, hresembles, _⟩ := hlater [⟨.call (.removePeer sampleAddress), 3.0⟩,
    ⟨.call (.addPeer (.record samplePeer)), 4.0⟩]
  have hgenerations : [(sampleAddress, Value.int 3)] = [(sampleAddress, Value.int (ρ 4))] :=
    hresembles.generations_eq
  have hρ : ρ 4 = 3 := by simpa using hgenerations.symm
  exact ⟨reachable_readded, hrefused, ρ, hρ, hresembles⟩

end Refusals

end Engine

end Peering
