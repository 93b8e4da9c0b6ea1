import Peering.Engine.Basic

/-!
# Requests that change something

Five requests change the state: adding, updating and removing a peer, noting an
error of a session, and counting messages. Each is refused at once while the
fault switch is on, and a refused request is reported and leaves peers, sessions
and walks as they were.
-/

namespace Peering.Engine

/-- The engine refuses a request. -/
def refuse (e : Engine) (request : String) (address : Value) (err : EngineError) :
    Outcome Unit :=
  ⟨e, [e.report .warning ("Rejected " ++ request ++ " " ++ address.plain ++ ": " ++ err.message)],
    .error (.refused err)⟩

/-- A request that is done. -/
def done (e : Engine) (effects : List Effect) : Outcome Unit := ⟨e, effects, .ok ()⟩

/-- A request that fails, which is reported if it is refused. -/
def fail (e : Engine) (request : String) (address : Value) : Failure → Outcome Unit
  | .refused err => e.refuse request address err
  | f => ⟨e, [], .error f⟩

/-- Lets a request through unless the fault switch is on. -/
def unlessFaulty (e : Engine) (operation request : String) (address : Value)
    (body : Engine → Outcome Unit) : Outcome Unit :=
  match e.faults.check (.text operation) address with
  | (faults, .error err) =>
    let o := refuse { e with faults } request address err
    { o with
      effects := .report (FaultSwitch.injectedRecord (.text operation) address) :: o.effects }
  | (faults, .ok ()) => body { e with faults }

/-- Registers a valid peer under the next generation and starts its walk. The generation is
used up even if the address is registered already. -/
def register (e : Engine) (shown : Value) (p : Peer) (now : Float) : Outcome Unit :=
  let generation := Value.int e.nextGeneration
  let e := { e with nextGeneration := e.nextGeneration + 1 }
  match e.registry.insert p generation now with
  | .error f => e.fail "add peer" shown f
  | .ok registry =>
    let number := e.walks.length
    let (roster, effects) := Roster.start ⟨registry, e.walks⟩
      { address := p.address, generation, delay := e.stateDelay }
    let e := { e with toRoster := roster, walkOf := e.walkOf.set p.address number }
    e.done (.report (Registry.insertedRecord p.address generation) :: effects ++
      [e.report .info ("Added peer " ++ p.address.plain ++ " AS" ++ p.remoteAsn.plain ++ " (" ++
        (if p.isInternal then "iBGP" else "eBGP") ++ ")")])

/-- Adds a peer: checks its configuration, then registers it. -/
def addPeer (e : Engine) (input : PeerInput) (now : Float) : Outcome Unit :=
  e.unlessFaulty "add peer" "add peer" input.address fun e =>
    match input.peer with
    | .error f => e.fail "add peer" input.address f
    | .ok p =>
      match p.check with
      | .error f => e.fail "add peer" input.address f
      | .ok _ => e.register input.address p now

/-- Removes a peer with its session and cancels its walk. -/
def removePeer (e : Engine) (address : Value) : Outcome Unit :=
  e.unlessFaulty "remove peer" "remove peer" address fun e =>
    match e.registry.delete address with
    | .error f => e.fail "remove peer" address f
    | .ok registry =>
      let (roster, effects) :=
        Roster.cancelAll ⟨registry, e.walks⟩ (e.walkNumber? address).toList
      let e := { e with
        toRoster := roster, walkOf := e.walkOf.erase address }
      e.done (effects ++ [e.report .info ("Removed peer " ++ address.plain)])

/-- Replaces the configuration of a registered peer. That the peer is registered is checked
before the new configuration. -/
def replace (e : Engine) (shown : Value) (p : Peer) (now : Float) : Outcome Unit :=
  match e.registry.getPeer p.address with
  | .error f => e.fail "update peer" shown f
  | .ok _ =>
    match p.check with
    | .error f => e.fail "update peer" shown f
    | .ok _ =>
      match e.registry.replace p now with
      | .error f => e.fail "update peer" shown f
      | .ok registry =>
        let e := { e with registry }
        e.done [e.report .info ("Updated peer " ++ p.address.plain)]

/-- Updates the configuration of a peer. -/
def updatePeer (e : Engine) (input : PeerInput) (now : Float) : Outcome Unit :=
  e.unlessFaulty "update peer" "update peer" input.address fun e =>
    match input.peer with
    | .error f => e.fail "update peer" input.address f
    | .ok p => e.replace input.address p now

/-- Notes the last error of a session. Its state stays as it is. -/
def setSessionError (e : Engine) (address message : Value) : Outcome Unit :=
  e.unlessFaulty "set session error" "set session error" address fun e =>
    match e.registry.getSession address with
    | .error f => e.fail "set session error" address f
    | .ok session =>
      let e := { e with
        registry := e.registry.setSession address { session with lastError := message } }
      e.done [e.report .warning ("Session " ++ address.plain ++ " error: " ++ message.plain)]

/-- One of two increments is below zero. The second is looked at only if the first is not,
and what is no number cannot be compared. -/
def anyNegative (received sent : Value) : Except Failure Bool :=
  match received.number? with
  | none => .error .wrongType
  | some r =>
    if r.isNegative then .ok true
    else match sent.number? with
      | none => .error .wrongType
      | some s => .ok s.isNegative

/-- Adds to the message counters of a session. What is counted before a sum cannot be formed
stays counted. -/
def incrementCounters (e : Engine) (address received sent : Value) : Outcome Unit :=
  let request := "increment counters"
  e.unlessFaulty "increment session counters" request address fun e =>
    match anyNegative received sent with
    | .error f => e.fail request address f
    | .ok true => e.refuse request address (EngineError.negativeIncrement received sent address)
    | .ok false =>
      match e.registry.getSession address with
      | .error f => e.fail request address f
      | .ok session =>
        let (session, counted) := session.count received sent
        ⟨{ e with registry := e.registry.setSession address session }, [], counted⟩

/-- Turns the fault switch on or off. -/
def setFaults (e : Engine) (enabled : Bool) : Outcome Unit :=
  if enabled then done { e with faults := e.faults.enable } [.report FaultSwitch.enabledRecord]
  else done { e with faults := e.faults.disable } [.report FaultSwitch.disabledRecord]

/-- Forgets all walks and requests their cancellation. Peers and sessions stay. -/
def close (e : Engine) : Engine × List Effect :=
  let (roster, effects) := e.toRoster.cancelAll e.walkOf.values
  ({ e with toRoster := roster, walkOf := [] }, effects)

/-- What is reported once the walks of a closed engine are over. -/
def closedReport (e : Engine) (walks : Nat) : Effect :=
  e.report .debug ("Closed (" ++ intText walks ++ " walks stopped)")

end Peering.Engine
