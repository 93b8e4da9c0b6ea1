import Peering.Proofs.Copies
import Peering.Proofs.Registrations
import Peering.Proofs.Turns

/-!
# What a request does

While the fault switch is off, each request either fails, which changes no registration and no
walk, or does one plain thing to the list of registrations. This file says of each request when
it does which, and that no request calls an observer of walks.
-/

namespace Peering

open Registration

namespace Engine

/-- Nothing but the fault switch differs, and generations that have been used up. -/
structure SameTables (e' e : Engine) : Prop where
  registry_eq : e'.registry = e.registry
  walks_eq : e'.walks = e.walks
  walkOf_eq : e'.walkOf = e.walkOf
  next_le : e.nextGeneration ≤ e'.nextGeneration

/-- An engine has its own tables. -/
theorem SameTables.refl (e : Engine) : e.SameTables e := ⟨rfl, rfl, rfl, Int.le_refl _⟩

/-- The engine after a generation has been used up. -/
def spent (e : Engine) : Engine := { e with nextGeneration := e.nextGeneration + 1 }

/-- The engine with a peer registered after those of a list, and its walk started. -/
def enrolled (e : Engine) (l : List Registration) (a : String) (p : Peer) (now : Float) : Engine :=
  { e.spent with
    registry := .ofList (l ++ [Registration.initial a p e.nextGeneration now])
    walks := e.walks ++ [{
      address := .text a, generation := .int e.nextGeneration, delay := e.stateDelay }]
    walkOf := e.walkOf.set (.text a) e.walks.length }

/-- The engine with the registrations replaced. -/
def withList (e : Engine) (l : List Registration) : Engine := { e with registry := .ofList l }

variable {e : Engine} {l : List Registration}

/-- A refusal changes nothing. -/
@[simp] theorem engine_refuse (request : String) (address : Value) (err : EngineError) :
    (e.refuse request address err).engine = e := rfl

/-- The result of a refusal is the refusal. -/
@[simp] theorem result_refuse (request : String) (address : Value) (err : EngineError) :
    (e.refuse request address err).result = .error (.refused err) := rfl

/-- A failure changes nothing. -/
@[simp] theorem engine_fail (request : String) (address : Value) (f : Failure) :
    (e.fail request address f).engine = e := by
  cases f <;> rfl

/-- The result of a failure is the failure. -/
@[simp] theorem result_fail (request : String) (address : Value) (f : Failure) :
    (e.fail request address f).result = .error f := by
  cases f <;> rfl

/-- While the fault switch is on, a request fails and is counted. -/
theorem unlessFaulty_of_on (hon : e.faults.isOn = true) (operation request : String)
    (address : Value) (body : Engine → Outcome Unit) :
    (e.unlessFaulty operation request address body).engine =
        { e with faults.injected := e.faults.injected + 1 } ∧
      (e.unlessFaulty operation request address body).result =
        .error (.refused (EngineError.simulated (.text operation) address)) := by
  simp [unlessFaulty, FaultSwitch.check, hon]

/-- While the fault switch is off, a request is let through. -/
theorem unlessFaulty_of_off (hoff : e.faults.isOn = false) (operation request : String)
    (address : Value) (body : Engine → Outcome Unit) :
    e.unlessFaulty operation request address body = body e := by
  simp [unlessFaulty, FaultSwitch.check, hoff]

section Add

variable {input : PeerInput} {p : Peer} {a : String}

/-- What describes no peer adds none. -/
theorem addPeer_of_noPeer (hoff : e.faults.isOn = false) {f : Failure}
    (hp : input.peer = .error f) (now : Float) :
    e.addPeer input now = e.fail "add peer" input.address f := by
  simp only [addPeer, unlessFaulty_of_off hoff, hp]

/-- A peer that does not pass its check is not registered. -/
theorem addPeer_of_invalid (hoff : e.faults.isOn = false) {f : Failure}
    (hp : input.peer = .ok p) (hcheck : p.check = .error f) (now : Float) :
    e.addPeer input now = e.fail "add peer" input.address f := by
  simp only [addPeer, unlessFaulty_of_off hoff, hp, hcheck]

/-- An address that is registered already is refused, and a generation is used up. -/
theorem addPeer_of_registered (he : e.registry = .ofList l) (hoff : e.faults.isOn = false)
    (hp : input.peer = .ok p) (hvalid : p.validate = .ok a) {r : Registration}
    (hr : at? l (.text a) = some r) (now : Float) :
    e.addPeer input now =
      e.spent.refuse "add peer" input.address (EngineError.duplicatePeer (.text a)) := by
  have haddress := Peer.address_of_validate hvalid
  have hcheck := Peer.check_eq_ok_iff_validate.mpr hvalid
  have hinsert := Registry.insert_of_some (haddress ▸ hr) e.nextGeneration now
  simp only [addPeer, unlessFaulty_of_off hoff, hp, hcheck, register, he, hinsert, haddress]
  rfl

/-- A peer that cannot be copied is not registered, and a generation is used up. -/
theorem addPeer_of_notCopyable (he : e.registry = .ofList l) (hoff : e.faults.isOn = false)
    (hp : input.peer = .ok p) (hvalid : p.validate = .ok a) (hnone : at? l (.text a) = none)
    (hcopy : p.isCopyable = false) (now : Float) :
    e.addPeer input now = e.spent.fail "add peer" input.address .tooDeep := by
  have haddress := Peer.address_of_validate hvalid
  have hcheck := Peer.check_eq_ok_iff_validate.mpr hvalid
  have hinsert := Registry.insert_of_none haddress hnone e.nextGeneration now
  simp only [hcopy, Bool.false_eq_true, if_false] at hinsert
  simp only [addPeer, unlessFaulty_of_off hoff, hp, hcheck, register, he, hinsert]
  rfl

/-- So a new engine does not register a peer in whose password too many lists stand one inside of
the other. -/
theorem addPeer_deepPeer (now : Float) : ({} : Engine).addPeer (.record deepPeer) now =
    ({} : Engine).spent.fail "add peer" deepPeer.address .tooDeep :=
  addPeer_of_notCopyable (l := []) (a := "192.0.2.2") rfl rfl rfl (by rfl) rfl
    isCopyable_deepPeer now

/-- Every other valid peer is registered at the end, and its walk is started. -/
theorem addPeer_of_new (he : e.registry = .ofList l) (hoff : e.faults.isOn = false)
    (hp : input.peer = .ok p) (hvalid : p.validate = .ok a) (hnone : at? l (.text a) = none)
    (hcopy : p.isCopyable = true) (now : Float) :
    (e.addPeer input now).engine = e.enrolled l a p now ∧
      (e.addPeer input now).result = .ok () := by
  have haddress := Peer.address_of_validate hvalid
  have hcheck := Peer.check_eq_ok_iff_validate.mpr hvalid
  have hinsert := Registry.insert_of_none haddress hnone e.nextGeneration now
  simp only [hcopy, if_true] at hinsert
  simp only [addPeer, unlessFaulty_of_off hoff, hp, hcheck, register, he, hinsert, Roster.start,
    haddress]
  exact ⟨rfl, rfl⟩

/-- What describes no peer updates none. -/
theorem updatePeer_of_noPeer (hoff : e.faults.isOn = false) {f : Failure}
    (hp : input.peer = .error f) (now : Float) :
    e.updatePeer input now = e.fail "update peer" input.address f := by
  simp only [updatePeer, unlessFaulty_of_off hoff, hp]

/-- An update of an address that is not registered fails before its peer is checked. -/
theorem updatePeer_of_missing (he : e.registry = .ofList l) (hoff : e.faults.isOn = false)
    (hp : input.peer = .ok p) (hnone : at? l p.address = none) (now : Float) :
    e.updatePeer input now = e.fail "update peer" input.address
      (if p.address.isKey then .refused (EngineError.peerNotFound p.address)
        else .wrongType) := by
  simp only [updatePeer, unlessFaulty_of_off hoff, hp, replace, he,
    Registry.getPeer_of_none hnone]

/-- A peer that does not pass its check replaces none. -/
theorem updatePeer_of_invalid (he : e.registry = .ofList l) (hoff : e.faults.isOn = false)
    (hp : input.peer = .ok p) {r : Registration} (hr : at? l p.address = some r)
    {f : Failure} (hcheck : p.check = .error f) (now : Float) :
    e.updatePeer input now = e.fail "update peer" input.address f := by
  simp only [updatePeer, unlessFaulty_of_off hoff, hp, replace, he,
    Registry.getPeer_of_some hr, hcheck]

/-- A peer that cannot be copied replaces none. -/
theorem updatePeer_of_notCopyable (he : e.registry = .ofList l) (hoff : e.faults.isOn = false)
    (hp : input.peer = .ok p) {r : Registration} (hr : at? l p.address = some r)
    (hvalid : p.validate = .ok a) (hcopy : p.isCopyable = false) (now : Float) :
    e.updatePeer input now = e.fail "update peer" input.address .tooDeep := by
  have hcheck := Peer.check_eq_ok_iff_validate.mpr hvalid
  have hreplace := Registry.replace_of_some hr now
  simp only [hcopy, Bool.false_eq_true, if_false] at hreplace
  simp only [updatePeer, unlessFaulty_of_off hoff, hp, replace, he,
    Registry.getPeer_of_some hr, hcheck, hreplace]

/-- Every other update replaces the peer of a registration. -/
theorem updatePeer_of_registered (he : e.registry = .ofList l) (hoff : e.faults.isOn = false)
    (hp : input.peer = .ok p) {r : Registration} (hr : at? l p.address = some r)
    (hvalid : p.validate = .ok a) (hcopy : p.isCopyable = true) (now : Float) :
    (e.updatePeer input now).engine =
        e.withList (adjust l p.address fun s =>
          { s with peer := Registry.updated r.peer p now }) ∧
      (e.updatePeer input now).result = .ok () := by
  have hcheck := Peer.check_eq_ok_iff_validate.mpr hvalid
  have hreplace := Registry.replace_of_some hr now
  simp only [hcopy, if_true] at hreplace
  simp only [updatePeer, unlessFaulty_of_off hoff, hp, replace, he,
    Registry.getPeer_of_some hr, hcheck, hreplace]
  exact ⟨rfl, rfl⟩

end Add

section Address

variable {v : Value}

/-- An address that is not registered is not removed. -/
theorem removePeer_of_missing (he : e.registry = .ofList l) (hoff : e.faults.isOn = false)
    (hnone : at? l v = none) :
    e.removePeer v = e.fail "remove peer" v
      (if v.isKey then .refused (EngineError.peerNotFound v) else .wrongType) := by
  simp only [removePeer, unlessFaulty_of_off hoff, he, Registry.delete_of_none hnone]

/-- A registered peer is taken out of all tables, and its walk is cancelled. -/
theorem removePeer_of_registered (he : e.registry = .ofList l) (hoff : e.faults.isOn = false)
    {r : Registration} (hr : at? l v = some r) :
    (e.removePeer v).engine =
        { e with
          toRoster :=
            (Roster.cancelAll ⟨.ofList (without l v), e.walks⟩ (e.walkNumber? v).toList).1
          walkOf := e.walkOf.erase v } ∧
      (e.removePeer v).result = .ok () := by
  simp only [removePeer, unlessFaulty_of_off hoff, he, Registry.delete_of_some hr]
  exact ⟨rfl, rfl⟩

/-- An error is not noted for an address that is not registered. -/
theorem setSessionError_of_missing (he : e.registry = .ofList l) (hoff : e.faults.isOn = false)
    (hnone : at? l v = none) (message : Value) :
    e.setSessionError v message = e.fail "set session error" v
      (if v.isKey then .refused (EngineError.sessionNotFound v) else .wrongType) := by
  simp only [setSessionError, unlessFaulty_of_off hoff, he, Registry.getSession_of_none hnone]

/-- An error is noted in the session of a registered address. -/
theorem setSessionError_of_registered (he : e.registry = .ofList l)
    (hoff : e.faults.isOn = false) {r : Registration} (hr : at? l v = some r) (message : Value) :
    (e.setSessionError v message).engine =
        e.withList (adjust l v fun s =>
          { s with session := { r.session with lastError := message } }) ∧
      (e.setSessionError v message).result = .ok () := by
  simp only [setSessionError, unlessFaulty_of_off hoff, he, Registry.getSession_of_some hr,
    Registry.setSession_of_some hr]
  exact ⟨rfl, rfl⟩

/-- Increments that cannot be compared with zero fail first. -/
theorem incrementCounters_of_error (hoff : e.faults.isOn = false) {received sent : Value}
    {f : Failure} (hnegative : anyNegative received sent = .error f) :
    e.incrementCounters v received sent = e.fail "increment counters" v f := by
  simp only [incrementCounters, unlessFaulty_of_off hoff, hnegative]

/-- A negative increment is refused. -/
theorem incrementCounters_of_negative (hoff : e.faults.isOn = false) {received sent : Value}
    (hnegative : anyNegative received sent = .ok true) :
    e.incrementCounters v received sent = e.refuse "increment counters" v
      (EngineError.negativeIncrement received sent v) := by
  simp only [incrementCounters, unlessFaulty_of_off hoff, hnegative]

/-- Nothing is counted for an address that is not registered. -/
theorem incrementCounters_of_missing (he : e.registry = .ofList l)
    (hoff : e.faults.isOn = false) {received sent : Value}
    (hnegative : anyNegative received sent = .ok false) (hnone : at? l v = none) :
    e.incrementCounters v received sent = e.fail "increment counters" v
      (if v.isKey then .refused (EngineError.sessionNotFound v) else .wrongType) := by
  simp only [incrementCounters, unlessFaulty_of_off hoff, hnegative, he,
    Registry.getSession_of_none hnone]

/-- Increments that are not negative are counted in the session, whatever comes of it. -/
theorem incrementCounters_of_registered (he : e.registry = .ofList l)
    (hoff : e.faults.isOn = false) {received sent : Value}
    (hnegative : anyNegative received sent = .ok false) {r : Registration}
    (hr : at? l v = some r) :
    (e.incrementCounters v received sent).engine =
        e.withList (adjust l v fun s =>
          { s with session := (r.session.count received sent).1 }) ∧
      (e.incrementCounters v received sent).result = (r.session.count received sent).2 := by
  simp only [incrementCounters, unlessFaulty_of_off hoff, hnegative, he,
    Registry.getSession_of_some hr, Registry.setSession_of_some hr]
  exact ⟨rfl, trivial⟩

end Address

end Engine

end Peering
