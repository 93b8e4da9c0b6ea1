import Peering.Proofs.Admission
import Peering.Proofs.Marching

/-!
# The peers of a simulation

A simulation begins with adding the peers of its settings, before anybody else has a turn. Peers of
valid settings that can be copied are all added, and their walks wait for their first turns in the
queue. While faults are injected every peer is refused.
-/

namespace Peering

namespace Timed

variable {settings : Settings} {ms ms' : List Member} {s : Timed} {k : Nat}
  {ts : List (Timer Party)} {p : Peer} {a : String} {seen : List String} {peers : List Peer}

/-- The engine may be replaced by one that has members. -/
theorem Simulates.withEngine (h : s.Simulates settings ms) {e : Engine} (hmarches : e.Marches ms')
    (hdelay : e.stateDelay = s.engine.stateDelay) (hasn : e.routerAsn = s.engine.routerAsn)
    (effects : List Effect) :
    ({ s with toStation := { s.toStation with engine := e }.record effects } :
      Timed).Simulates settings ms' where
  marches := hmarches
  stateDelay_eq := hdelay.trans h.stateDelay_eq
  routerAsn_eq := hasn.trans h.routerAsn_eq
  observers_eq := h.observers_eq
  onEvent_eq := h.onEvent_eq
  clockAt_eq := h.clockAt_eq
  loops_eq := h.loops_eq
  isProper := h.isProper

/-- Where the walks stand does not depend on the station. -/
theorem Rests.of_station (h : s.Rests settings ms k ts) {station : Station}
    (hsimulates : ({ s with toStation := station } : Timed).Simulates settings
      (ms.map (.after k))) :
    ({ s with toStation := station } : Timed).Rests settings ms k ts := by
  refine ⟨hsimulates, h.left_eq, ?_⟩
  cases h.stands with
  | ready hk htime horder hqueue hkeeps => exact .ready hk htime horder hqueue hkeeps
  | asleep hpos hk htime hqueue hkeeps => exact .asleep hpos hk htime hqueue hkeeps
  | ended hk hqueue hkeeps => exact .ended hk hqueue hkeeps

/-- What is put on the trace changes nothing else. -/
theorem Rests.record (h : s.Rests settings ms k ts) (effects : List Effect) :
    ({ s with toStation := s.toStation.record effects } : Timed).Rests settings ms k ts :=
  h.of_station (h.simulates.withEngine h.simulates.marches rfl rfl effects)

/-- A simulation is opened without members. -/
theorem exists_opening (hdelay : ¬settings.delay < 0.0) :
    ∃ e, Simulation.engineOf settings = .ok e ∧
      (Simulation.opening settings e).Rests settings [] 0 [] ∧
      (Simulation.opening settings e).engine.faults.isOn = settings.errorInjection.isTruthy := by
  refine ⟨_, if_neg hdelay, ⟨?_, rfl, ?_⟩, rfl⟩
  · constructor
    case marches =>
      constructor
      case nodup => exact List.nodup_nil
      case turns_le => exact fun m hm => absurd hm List.not_mem_nil
      all_goals rfl
    case isProper =>
      exact ⟨⟨fun v hv => absurd hv List.not_mem_nil, List.nodup_nil⟩,
        fun x hx => absurd hx List.not_mem_nil⟩
    all_goals rfl
  · exact .ready (Nat.zero_le 5) rfl List.Perm.nil rfl Timers.keeps_empty

/-- Walks that are ready have not had the time go on. -/
theorem Rests.time_eq (h : s.Rests settings ms 0 []) : s.time = 0.0 := by
  cases h.stands with
  | ready _ htime => exact htime
  | asleep hpos => exact absurd hpos (Nat.lt_irrefl 0)
  | ended hk => cases hk

private theorem call_addPeer {e : Engine} {effects : List Effect} {result : Except Failure Unit}
    (hadd : s.engine.addPeer (.record p) s.clock = ⟨e, effects, result⟩) :
    s.call (.addPeer (.record p)) =
      (effects.foldl note { s with toStation := { s.toStation with engine := e }.record effects },
        result.map fun _ => .done) := by
  simp only [call, Station.call, Call.perform, Call.changing, hadd]

private theorem addPeer_of_ok {e : Engine} {effects : List Effect}
    (hadd : s.engine.addPeer (.record p) s.clock = ⟨e, effects, .ok ()⟩) :
    Simulation.addPeer s p = .ok (effects.foldl note
      { s with toStation := { s.toStation with engine := e }.record effects }, true) := by
  rw [Simulation.addPeer, call_addPeer hadd]
  rfl

private theorem addPeer_of_refused {e : Engine} {effects : List Effect} {err : EngineError}
    (hadd : s.engine.addPeer (.record p) s.clock = ⟨e, effects, .error (.refused err)⟩) :
    Simulation.addPeer s p = .ok (Simulation.tell (effects.foldl note
      { s with toStation := { s.toStation with engine := e }.record effects }) .error
        ("Failed to add peer " ++ p.address.plain ++ ": " ++ err.message), false) := by
  rw [Simulation.addPeer, call_addPeer hadd]
  rfl

/-- A new valid peer that can be copied is added, and its walk joins the queue. -/
theorem Rests.addPeer_off (h : s.Rests settings ms 0 []) (hoff : s.engine.faults.isOn = false)
    (hvalid : p.validate = .ok a) (hnew : a ∉ ms.map Member.address)
    (hcopy : p.isCopyable = true) :
    ∃ t g, Simulation.addPeer s p = .ok (t, true) ∧ t.engine.faults = s.engine.faults ∧
      t.Rests settings (ms ++ [⟨a, Registry.created p Simulation.now, g, 0⟩]) 0 [] := by
  have hclock : s.clock = Simulation.now := by rw [clock, h.simulates.clockAt_eq]
  have hnew' : a ∉ (ms.map (Member.after 0)).map Member.address := by
    rw [List.map_map]
    exact hnew
  obtain ⟨r, r', hadded⟩ := h.simulates.marches.addPeer_new hoff hvalid hnew' hcopy
  have hsimulates := h.simulates.withEngine (h.simulates.marches.enrolled hnew' p) rfl rfl
    [.report r, .started (ms.map (Member.after 0)).length, .report r']
  rw [← hclock] at hadded
  refine ⟨_, s.engine.nextGeneration, addPeer_of_ok hadded, rfl, ?_, h.left_eq, ?_⟩
  · rw [hclock, List.map_append]
    exact hsimulates.of_eq rfl rfl rfl
  · cases h.stands with
    | @ready order hk htime horder hqueue hkeeps =>
      have hjoined : (order ++ [ms.length]).Perm (List.range (ms.length + 1)) := by
        rw [List.range_succ]
        exact horder.append_right _
      rw [List.length_append]
      refine .ready hk htime hjoined ?_ hkeeps
      simp [note, enqueue, hqueue, walkers]
    | asleep hpos => exact absurd hpos (Nat.lt_irrefl 0)
    | ended hk => cases hk

/-- A new valid peer that cannot be copied makes the simulation fail. -/
theorem Rests.addPeer_deep (h : s.Rests settings ms 0 []) (hoff : s.engine.faults.isOn = false)
    (hvalid : p.validate = .ok a) (hnew : a ∉ ms.map Member.address)
    (hcopy : p.isCopyable = false) : Simulation.addPeer s p = .error .tooDeep := by
  have hnone : Registration.at? ((ms.map (Member.after 0)).map Member.registration) (.text a) =
      none := by
    rw [Registration.at?_eq_none]
    rintro r hr heq
    obtain ⟨m', hm', rfl⟩ := List.mem_map.mp hr
    obtain ⟨m, hm, rfl⟩ := List.mem_map.mp hm'
    exact hnew (List.mem_map.mpr ⟨m, hm, (Value.text.inj heq).symm⟩)
  have hinput : (PeerInput.record p).peer = .ok p := rfl
  have hadd := Engine.addPeer_of_notCopyable h.simulates.marches.registry_eq hoff hinput hvalid
    hnone hcopy s.clock
  rw [Simulation.addPeer, call_addPeer hadd]
  rfl

private theorem addPeers_cons {t u : Timed} {added others : Bool}
    (hadd : Simulation.addPeer s p = .ok (t, added))
    (hadds : Simulation.addPeers t peers = .ok (u, others)) :
    Simulation.addPeers s (p :: peers) = .ok (u, added && others) := by
  rw [Simulation.addPeers, hadd]
  change (Simulation.addPeers t peers >>= fun r => pure (r.1, added && r.2)) = _
  rw [hadds]
  rfl

private theorem mem_cons_iff {m : Member} (hseen : ∀ a, a ∈ seen ↔ a ∈ ms.map Member.address)
    (b : String) : b ∈ m.address :: seen ↔ b ∈ (ms ++ [m]).map Member.address := by
  rw [List.mem_cons, hseen b, List.map_append, List.mem_append, or_comm]
  exact or_congr_right List.mem_singleton.symm

/-- The peers of valid settings are all added if they can be copied. -/
theorem Rests.addPeers_off (h : s.Rests settings ms 0 []) (hoff : s.engine.faults.isOn = false)
    (hseen : ∀ a, a ∈ seen ↔ a ∈ ms.map Member.address)
    (hpeers : Settings.checkPeers seen peers = .ok ())
    (hcopy : ∀ p ∈ peers, p.isCopyable = true) :
    ∃ t ms', Simulation.addPeers s peers = .ok (t, true) ∧ t.Rests settings ms' 0 [] ∧
      ms'.map Member.peer =
        ms.map Member.peer ++ peers.map (Registry.created · Simulation.now) := by
  induction peers generalizing s ms seen with
  | nil => exact ⟨s, ms, rfl, h, (List.append_nil _).symm⟩
  | cons p rest ih =>
    obtain ⟨a, hvalid, hmem, hrest⟩ := Settings.exists_of_checkPeers hpeers
    obtain ⟨t, g, hadd, hfaults, hrests⟩ := h.addPeer_off hoff hvalid (mt (hseen a).mpr hmem)
      (hcopy p List.mem_cons_self)
    obtain ⟨u, ms', hadds, hrests', hmembers⟩ := ih hrests (hfaults ▸ hoff) (mem_cons_iff hseen)
      hrest fun q hq => hcopy q (List.mem_cons_of_mem p hq)
    refine ⟨u, ms', addPeers_cons hadd hadds, hrests', ?_⟩
    rw [hmembers, List.map_append, List.append_assoc]
    rfl

/-- If one of the peers of valid settings cannot be copied, the simulation fails. -/
theorem Rests.addPeers_deep (h : s.Rests settings ms 0 []) (hoff : s.engine.faults.isOn = false)
    (hseen : ∀ a, a ∈ seen ↔ a ∈ ms.map Member.address)
    (hpeers : Settings.checkPeers seen peers = .ok ())
    (hdeep : ∃ p ∈ peers, p.isCopyable = false) :
    Simulation.addPeers s peers = .error .tooDeep := by
  induction peers generalizing s ms seen with
  | nil =>
    obtain ⟨p, hp, _⟩ := hdeep
    exact absurd hp List.not_mem_nil
  | cons p rest ih =>
    obtain ⟨a, hvalid, hmem, hrest⟩ := Settings.exists_of_checkPeers hpeers
    have hnew := mt (hseen a).mpr hmem
    cases hcopy : p.isCopyable with
    | false =>
      rw [Simulation.addPeers, h.addPeer_deep hoff hvalid hnew hcopy]
      rfl
    | true =>
      obtain ⟨t, g, hadd, hfaults, hrests⟩ := h.addPeer_off hoff hvalid hnew hcopy
      have hdeep' : ∃ q ∈ rest, q.isCopyable = false := by
        obtain ⟨q, hq, hcopy'⟩ := hdeep
        rcases List.mem_cons.mp hq with rfl | hq
        · exact absurd (hcopy.symm.trans hcopy') Bool.noConfusion
        · exact ⟨q, hq, hcopy'⟩
      have hfails := ih hrests (hfaults ▸ hoff) (mem_cons_iff hseen) hrest hdeep'
      rw [Simulation.addPeers, hadd]
      change (Simulation.addPeers t rest >>= fun r => pure (r.1, true && r.2)) = _
      rw [hfails]
      rfl

/-- While faults are injected, a peer is refused. -/
theorem Rests.addPeer_on (h : s.Rests settings [] 0 []) (hon : s.engine.faults.isOn = true)
    (p : Peer) :
    ∃ t, Simulation.addPeer s p = .ok (t, false) ∧ t.engine.faults.isOn = true ∧
      t.Rests settings [] 0 [] := by
  have hadd : ∃ r r' err, s.engine.addPeer (.record p) s.clock =
      ⟨{ s.engine with faults.injected := s.engine.faults.injected + 1 },
        [.report r, .report r'], .error (.refused err)⟩ := by
    simp only [Engine.addPeer, Engine.unlessFaulty, FaultSwitch.check, hon, if_true, Engine.refuse]
    exact ⟨_, _, _, rfl⟩
  obtain ⟨r, r', err, hadd⟩ := hadd
  have hmarches := h.simulates.marches
  have hrests := h.of_station (h.simulates.withEngine
    (e := { s.engine with faults.injected := s.engine.faults.injected + 1 })
    ⟨hmarches.registry_eq, hmarches.walks_eq, hmarches.walkOf_eq, hmarches.nodup,
      hmarches.turns_le⟩ rfl rfl [.report r, .report r'])
  exact ⟨_, addPeer_of_refused hadd, hon, hrests.record _⟩

/-- While faults are injected, every peer is refused. -/
theorem Rests.addPeers_on (h : s.Rests settings [] 0 []) (hon : s.engine.faults.isOn = true)
    (peers : List Peer) :
    ∃ t, Simulation.addPeers s peers = .ok (t, peers.isEmpty) ∧ t.Rests settings [] 0 [] := by
  induction peers generalizing s with
  | nil => exact ⟨s, rfl, h⟩
  | cons p rest ih =>
    obtain ⟨t, hadd, hon', hrests⟩ := h.addPeer_on hon p
    obtain ⟨u, hadds, hrests'⟩ := ih hrests hon'
    exact ⟨u, addPeers_cons hadd hadds, hrests'⟩

end Timed

end Peering
