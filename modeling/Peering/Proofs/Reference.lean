import Peering.Proofs.Copies
import Peering.Proofs.Course
import Peering.Proofs.Succession

/-!
# A reference for the outcomes of calls

For the outcomes of calls an engine is no more than an ordered map from addresses to
configurations and a fault switch. The reference in this file is just that: it has no sessions,
generations, walks or clock, and it keeps configurations as they are given, where the engine keeps
copies. The file shows that every request does to the reference what it does to the engine, and with
the same outcome.
-/

namespace Peering

open Registration

/-- The peer without the times of its registration and its last update. -/
def Peer.untimed (p : Peer) : Peer := { p with createdAt := .null, updatedAt := .null }

namespace Table

variable {α β : Type}

/-- The table with a function applied to its values. -/
def mapValues (t : Table α) (f : α → β) : Table β := t.map fun entry => (entry.1, f entry.2)

variable {t : Table α} {f : α → β} {key : Value}

/-- The keys stay. -/
theorem contains_mapValues : (t.mapValues f).contains key = t.contains key := by
  simp only [contains, mapValues, List.any_map]
  rfl

/-- What is set goes through the function. -/
theorem mapValues_set (x : α) : (t.set key x).mapValues f = (t.mapValues f).set key (f x) := by
  unfold set
  rw [contains_mapValues]
  split
  · simp only [mapValues, List.map_map]
    apply List.map_congr_left
    intro entry _
    simp only [Function.comp_apply]
    split <;> rfl
  · simp [mapValues]

/-- What is taken out is taken out of both. -/
theorem mapValues_erase : (t.erase key).mapValues f = (t.mapValues f).erase key := by
  simp only [mapValues, erase, List.filter_map]
  rfl

/-- What is required goes through the function. -/
theorem require_mapValues (missing : Value → EngineError) :
    (t.mapValues f).require key missing = (t.require key missing).map f := by
  have hget : (t.mapValues f).get? key = (t.get? key).map f := by
    simp only [mapValues, get?, List.find?_map, Option.map_map]
    rfl
  unfold require lookUp
  rw [hget]
  split_ifs
  · cases t.get? key <;> rfl
  · rfl

/-- A function that does nothing to the values does nothing to the table. -/
theorem mapValues_eq_self {g : α → α} (hg : ∀ entry ∈ t, g entry.2 = entry.2) :
    t.mapValues g = t := by
  refine (List.map_congr_left fun entry hentry => ?_).trans (List.map_id t)
  rw [hg entry hentry]
  rfl

end Table

/-- An ordered map from addresses to configurations, and a fault switch. -/
structure Reference where
  /-- The configuration at each address. -/
  peers : Table Peer := []
  /-- The fault switch. -/
  faults : FaultSwitch := {}

namespace Reference

/-- Sets the configuration at the address of a peer, if it can be copied. -/
def put (R : Reference) (p : Peer) : Except Failure Reference :=
  if p.isCopyable then .ok { R with peers := R.peers.set p.address p.untimed }
  else .error .tooDeep

/-- Adds a configuration: first it must be valid, then its address must be free. -/
def add (R : Reference) (p : Peer) : Except Failure Reference :=
  match p.check with
  | .error f => .error f
  | .ok _ =>
    if R.peers.contains p.address then
      .error (.refused (EngineError.duplicatePeer p.address))
    else R.put p

/-- Replaces a configuration: first its address must be there, then it must be valid. -/
def update (R : Reference) (p : Peer) : Except Failure Reference :=
  match R.peers.require p.address EngineError.peerNotFound with
  | .error f => .error f
  | .ok _ =>
    match p.check with
    | .error f => .error f
    | .ok _ => R.put p

/-- Takes out the configuration at an address, which must be there. -/
def remove (R : Reference) (address : Value) : Except Failure Reference :=
  match R.peers.require address EngineError.peerNotFound with
  | .error f => .error f
  | .ok _ => .ok { R with peers := R.peers.erase address }

/-- Does nothing, but the address must be there. -/
def touch (R : Reference) (address : Value) : Except Failure Reference :=
  match R.peers.require address EngineError.sessionNotFound with
  | .error f => .error f
  | .ok _ => .ok R

/-- The value is an integer below zero. -/
def isBelowZero : Value → Bool
  | .int n => n < 0
  | _ => false

/-- Does nothing, but increments must not be negative and the address must be there. -/
def increment (R : Reference) (address received sent : Value) : Except Failure Reference :=
  if isBelowZero received || isBelowZero sent then
    .error (.refused (EngineError.negativeIncrement received sent address))
  else R.touch address

/-- Lets a request through unless the fault switch is on; a request that fails changes nothing. -/
def request (R : Reference) (operation : String) (address : Value)
    (body : Except Failure Reference) : Reference × Except Failure Unit :=
  if R.faults.isOn then
    ({ R with faults.injected := R.faults.injected + 1 },
      .error (.refused (EngineError.simulated (.text operation) address)))
  else
    match body with
    | .ok R' => (R', .ok ())
    | .error f => (R, .error f)

/-- The reference after a call and the outcome of the call, which for a read is none. -/
def perform (R : Reference) : Call → Reference × Except Failure Unit
  | .addPeer input => R.request "add peer" input.address (input.peer.bind R.add)
  | .updatePeer input => R.request "update peer" input.address (input.peer.bind R.update)
  | .removePeer address => R.request "remove peer" address (R.remove address)
  | .setSessionError address _ => R.request "set session error" address (R.touch address)
  | .incrementCounters address received sent =>
    R.request "increment session counters" address (R.increment address received sent)
  | .setFaults true => ({ R with faults := R.faults.enable }, .ok ())
  | .setFaults false => ({ R with faults := R.faults.disable }, .ok ())
  | _ => (R, .ok ())

/-- The reference after a moment. Turns of walks and the closing of the engine do nothing. -/
def after (R : Reference) (m : Moment) : Reference :=
  match m.move with
  | .call c => (R.perform c).1
  | .turn _ _ _ | .close => R

/-- The reference after several moments. -/
def run (R : Reference) (ms : List Moment) : Reference := ms.foldl after R

/-- A list of registrations has copies of the configurations of the reference, and its message
counters are integers. -/
structure Shows (R : Reference) (l : List Registration) : Prop where
  copies_eq : R.peers.mapValues Registry.kept = column l fun r => r.peer.untimed
  counts : ∀ r ∈ l, r.session.CountsIntegers

variable {R : Reference} {l : List Registration}

/-- The same addresses are there. -/
theorem Shows.contains_eq (h : R.Shows l) (v : Value) :
    R.peers.contains v = (at? l v).isSome := by
  rw [← Table.contains_mapValues, h.copies_eq, contains_column]

/-- A new registration comes in at the end of both. -/
theorem Shows.append (h : R.Shows l) {p : Peer} {a : String} (haddress : p.address = .text a)
    (hnone : at? l (.text a) = none) (g : Int) (now : Float) :
    { R with peers := R.peers.set p.address p.untimed }.Shows
      (l ++ [Registration.initial a p g now]) where
  copies_eq := by
    rw [haddress, Table.mapValues_set, h.copies_eq, set_column_of_none hnone, column, column,
      List.map_append]
    rfl
  counts := by
    intro r hr
    rcases List.mem_append.mp hr with hr | hr
    · exact h.counts r hr
    · obtain rfl := List.mem_singleton.mp hr
      exact Session.countsIntegers_initial _ _

/-- An update replaces the configuration in both. -/
theorem Shows.update (h : R.Shows l) {p : Peer} {r : Registration}
    (hr : at? l p.address = some r) (now : Float) :
    { R with peers := R.peers.set p.address p.untimed }.Shows
      (adjust l p.address fun s => { s with peer := Registry.updated r.peer p now }) where
  copies_eq := by
    rw [Table.mapValues_set, h.copies_eq]
    exact set_column_of_some hr (fun _ => rfl) (fun _ => rfl)
  counts := forall_mem_adjust h.counts fun s hs _ => h.counts s hs

/-- A removal takes out the same from both. -/
theorem Shows.remove (h : R.Shows l) (v : Value) :
    { R with peers := R.peers.erase v }.Shows (without l v) where
  copies_eq := by rw [Table.mapValues_erase, h.copies_eq, erase_column]
  counts := fun r hr => h.counts r (List.mem_of_mem_filter hr)

/-- What is written into a session does not show, if its counters stay integers. -/
theorem Shows.write (h : R.Shows l) (v : Value) {s : Session} (hs : s.CountsIntegers) :
    R.Shows (adjust l v fun r => { r with session := s }) where
  copies_eq := by
    rw [h.copies_eq]
    symm
    apply column_adjust <;> intro r <;> rfl
  counts := forall_mem_adjust h.counts fun _ _ _ => hs

/-- What is required of the reference at a registered address is there, and the registration has a
copy of it. -/
theorem Shows.require_of_some (h : R.Shows l) {v : Value} {r : Registration}
    (hr : at? l v = some r) (missing : Value → EngineError) :
    ∃ p, R.peers.require v missing = .ok p ∧ Registry.kept p = r.peer.untimed := by
  have hcopy := require_column_of_some hr (fun r => r.peer.untimed) missing
  rw [← h.copies_eq, Table.require_mapValues] at hcopy
  cases hfound : R.peers.require v missing with
  | error f =>
    rw [hfound] at hcopy
    cases hcopy
  | ok p =>
    rw [hfound] at hcopy
    exact ⟨p, rfl, Except.ok.inj hcopy⟩

/-- What is required of the reference at another address fails as it does on the engine. -/
theorem Shows.require_of_none (h : R.Shows l) {v : Value} (hnone : at? l v = none)
    (missing : Value → EngineError) : R.peers.require v missing =
      .error (if v.isKey then .refused (missing v) else .wrongType) := by
  have hcopy := require_column_of_none hnone (fun r => r.peer.untimed) missing
  rw [← h.copies_eq, Table.require_mapValues] at hcopy
  cases hfound : R.peers.require v missing with
  | error f =>
    rw [hfound] at hcopy
    exact congrArg Except.error (Except.error.inj hcopy)
  | ok p =>
    rw [hfound] at hcopy
    cases hcopy

end Reference

/-- What a request leaves of the engine, and its outcome, are what it leaves of a reference, and
its outcome there. -/
structure Outcome.Agrees (out : Outcome Unit) (R : Reference × Except Failure Unit) : Prop where
  result_eq : out.result = R.2
  faults_eq : out.engine.faults = R.1.faults
  shows : ∃ l, out.engine.registry = .ofList l ∧ R.1.Shows l

namespace Engine

open Reference

variable {e : Engine} {R : Reference} {l : List Registration}

section Requests

variable (he : e.registry = .ofList l) (hfaults : e.faults = R.faults) (hR : R.Shows l)
include he hfaults hR

/-- While the fault switch is on, both fail. -/
private theorem agrees_of_on (hon : e.faults.isOn = true) {operation request : String}
    {address : Value} {body : Engine → Outcome Unit} {body' : Except Failure Reference} :
    (e.unlessFaulty operation request address body).Agrees
      (R.request operation address body') := by
  obtain ⟨hengine, hresult⟩ := unlessFaulty_of_on hon operation request address body
  have hon' : R.faults.isOn = true := hfaults ▸ hon
  simp only [Reference.request, hon', if_true]
  refine ⟨hresult, ?_, l, ?_, ⟨hR.copies_eq, hR.counts⟩⟩
  · rw [hengine, ← hfaults]
  · rw [hengine]
    exact he

/-- A request that fails on both changes nothing that shows. -/
private theorem agrees_of_fail (hoff : e.faults.isOn = false) {e' : Engine}
    (hregistry : e'.registry = e.registry) (hfaults' : e'.faults = e.faults)
    {body' : Except Failure Reference} {f : Failure} (hbody : body' = .error f)
    {request operation : String} {shown address : Value} :
    (e'.fail request shown f).Agrees (R.request operation address body') := by
  have hoff' : R.faults.isOn = false := hfaults ▸ hoff
  simp only [Reference.request, hoff', hbody, Bool.false_eq_true, if_false]
  refine ⟨result_fail request shown f, ?_, l, ?_, hR⟩
  · rw [engine_fail, hfaults', hfaults]
  · rw [engine_fail, hregistry, he]

omit he hR in
/-- A request that succeeds on both. -/
private theorem agrees_of_ok (hoff : e.faults.isOn = false) {out : Outcome Unit}
    {R' : Reference} {body' : Except Failure Reference} {l' : List Registration}
    (hresult : out.result = .ok ()) (hbody : body' = .ok R')
    (hfaults' : out.engine.faults = e.faults) (hR' : R'.faults = R.faults)
    (hregistry : out.engine.registry = .ofList l') (hshows : R'.Shows l')
    {operation : String} {address : Value} :
    out.Agrees (R.request operation address body') := by
  have hoff' : R.faults.isOn = false := hfaults ▸ hoff
  simp only [Reference.request, hoff', hbody, Bool.false_eq_true, if_false]
  exact ⟨hresult, by rw [hfaults', hfaults, hR'], l', hregistry, hshows⟩

/-- Adding a peer has the outcome that it has on the reference. -/
theorem addPeer_agrees (input : PeerInput) (now : Float) :
    (e.addPeer input now).Agrees (R.perform (.addPeer input)) := by
  rcases e.faults.isOn.eq_false_or_eq_true with hon | hoff
  · exact agrees_of_on he hfaults hR hon
  cases hp : input.peer with
  | error f =>
    rw [addPeer_of_noPeer hoff hp]
    exact agrees_of_fail he hfaults hR hoff rfl rfl (by rw [hp]; rfl)
  | ok p =>
    have hbody : input.peer.bind R.add = R.add p := by rw [hp]; rfl
    cases hcheck : p.check with
    | error f =>
      rw [addPeer_of_invalid hoff hp hcheck]
      have hadd : R.add p = .error f := by simp only [add, hcheck]
      exact agrees_of_fail he hfaults hR hoff rfl rfl (hbody.trans hadd)
    | ok a =>
      have hvalid := Peer.check_eq_ok_iff_validate.mp hcheck
      have haddress := Peer.address_of_validate hvalid
      have hcontains := hR.contains_eq p.address
      rw [haddress] at hcontains
      cases hat : at? l (.text a) with
      | some r =>
        rw [addPeer_of_registered he hoff hp hvalid hat]
        have hadd : R.add p = .error (.refused (EngineError.duplicatePeer (.text a))) := by
          simp [add, hcheck, haddress, hcontains, hat]
        have hspent : e.spent.registry = e.registry := rfl
        exact agrees_of_fail he hfaults hR hoff hspent rfl (hbody.trans hadd)
      | none =>
        cases hcopy : p.isCopyable with
        | false =>
          rw [addPeer_of_notCopyable he hoff hp hvalid hat hcopy]
          have hadd : R.add p = .error .tooDeep := by
            simp [add, put, hcheck, haddress, hcontains, hat, hcopy]
          have hspent : e.spent.registry = e.registry := rfl
          exact agrees_of_fail he hfaults hR hoff hspent rfl (hbody.trans hadd)
        | true =>
          obtain ⟨hengine, hresult⟩ := addPeer_of_new he hoff hp hvalid hat hcopy now
          have hadd : R.add p =
              .ok { R with peers := R.peers.set p.address p.untimed } := by
            simp [add, put, hcheck, haddress, hcontains, hat, hcopy]
          refine agrees_of_ok hfaults hoff hresult (hbody.trans hadd) (by rw [hengine]; rfl) rfl
            (by rw [hengine]; rfl) (hR.append haddress hat e.nextGeneration now)

/-- Updating a peer has the outcome that it has on the reference. -/
theorem updatePeer_agrees (input : PeerInput) (now : Float) :
    (e.updatePeer input now).Agrees (R.perform (.updatePeer input)) := by
  rcases e.faults.isOn.eq_false_or_eq_true with hon | hoff
  · exact agrees_of_on he hfaults hR hon
  cases hp : input.peer with
  | error f =>
    rw [updatePeer_of_noPeer hoff hp]
    exact agrees_of_fail he hfaults hR hoff rfl rfl (by rw [hp]; rfl)
  | ok p =>
    have hbody : input.peer.bind R.update = R.update p := by rw [hp]; rfl
    cases hat : at? l p.address with
    | none =>
      rw [updatePeer_of_missing he hoff hp hat]
      have hrequire := hR.require_of_none hat EngineError.peerNotFound
      exact agrees_of_fail he hfaults hR hoff rfl rfl
        (hbody.trans (by simp only [update, hrequire]))
    | some r =>
      obtain ⟨q, hrequire, -⟩ := hR.require_of_some hat EngineError.peerNotFound
      cases hcheck : p.check with
      | error f =>
        rw [updatePeer_of_invalid he hoff hp hat hcheck]
        have hupdate : R.update p = .error f := by simp only [update, hrequire, hcheck]
        exact agrees_of_fail he hfaults hR hoff rfl rfl (hbody.trans hupdate)
      | ok a =>
        have hvalid := Peer.check_eq_ok_iff_validate.mp hcheck
        cases hcopy : p.isCopyable with
        | false =>
          rw [updatePeer_of_notCopyable he hoff hp hat hvalid hcopy]
          have hupdate : R.update p = .error .tooDeep := by
            simp [update, put, hrequire, hcheck, hcopy]
          exact agrees_of_fail he hfaults hR hoff rfl rfl (hbody.trans hupdate)
        | true =>
          obtain ⟨hengine, hresult⟩ := updatePeer_of_registered he hoff hp hat hvalid hcopy now
          have hupdate : R.update p =
              .ok { R with peers := R.peers.set p.address p.untimed } := by
            simp [update, put, hrequire, hcheck, hcopy]
          exact agrees_of_ok hfaults hoff hresult (hbody.trans hupdate) (by rw [hengine]; rfl) rfl
            (by rw [hengine]; rfl) (hR.update hat now)

/-- Removing a peer has the outcome that it has on the reference. -/
theorem removePeer_agrees (v : Value) :
    (e.removePeer v).Agrees (R.perform (.removePeer v)) := by
  rcases e.faults.isOn.eq_false_or_eq_true with hon | hoff
  · exact agrees_of_on he hfaults hR hon
  cases hat : at? l v with
  | none =>
    rw [removePeer_of_missing he hoff hat]
    have hrequire := hR.require_of_none hat EngineError.peerNotFound
    exact agrees_of_fail he hfaults hR hoff rfl rfl (by simp only [remove, hrequire])
  | some r =>
    obtain ⟨hengine, hresult⟩ := removePeer_of_registered he hoff hat
    obtain ⟨q, hrequire, -⟩ := hR.require_of_some hat EngineError.peerNotFound
    have hremove : R.remove v = .ok { R with peers := R.peers.erase v } := by
      simp only [remove, hrequire]
    obtain ⟨hregistry, _, _⟩ :=
      Roster.cancelAll_eq ⟨.ofList (without l v), e.walks⟩ (e.walkNumber? v).toList
    exact agrees_of_ok hfaults hoff hresult hremove (by rw [hengine]) rfl
      (by rw [hengine]; exact hregistry) (hR.remove v)

/-- Noting an error has the outcome that it has on the reference. -/
theorem setSessionError_agrees (v message : Value) :
    (e.setSessionError v message).Agrees (R.perform (.setSessionError v message)) := by
  rcases e.faults.isOn.eq_false_or_eq_true with hon | hoff
  · exact agrees_of_on he hfaults hR hon
  cases hat : at? l v with
  | none =>
    rw [setSessionError_of_missing he hoff hat]
    have hrequire := hR.require_of_none hat EngineError.sessionNotFound
    exact agrees_of_fail he hfaults hR hoff rfl rfl (by simp only [touch, hrequire])
  | some r =>
    obtain ⟨hengine, hresult⟩ := setSessionError_of_registered he hoff hat message
    obtain ⟨q, hrequire, -⟩ := hR.require_of_some hat EngineError.sessionNotFound
    have htouch : R.touch v = .ok R := by simp only [touch, hrequire]
    have hcounts : { r.session with lastError := message }.CountsIntegers :=
      hR.counts r (mem_of_at? hat).1
    exact agrees_of_ok hfaults hoff hresult htouch (by rw [hengine]; rfl) rfl
      (by rw [hengine]; rfl) (hR.write v hcounts)

/-- Counting messages has the outcome that it has on the reference. -/
theorem incrementCounters_agrees (v : Value) (i j : Int) :
    (e.incrementCounters v (.int i) (.int j)).Agrees
      (R.perform (.incrementCounters v (.int i) (.int j))) := by
  rcases e.faults.isOn.eq_false_or_eq_true with hon | hoff
  · unfold incrementCounters
    exact agrees_of_on he hfaults hR hon
  have hnegative : anyNegative (.int i) (.int j) =
      .ok (isBelowZero (.int i) || isBelowZero (.int j)) := by
    by_cases hi : i < 0 <;>
      simp [anyNegative, Value.number?, Number.isNegative, isBelowZero, hi]
  cases hbelow : isBelowZero (.int i) || isBelowZero (.int j) with
  | true =>
    rw [hbelow] at hnegative
    rw [incrementCounters_of_negative hoff hnegative]
    have hincrement : R.increment v (.int i) (.int j) =
        .error (.refused (EngineError.negativeIncrement (.int i) (.int j) v)) := by
      simp only [increment, hbelow, if_true]
    exact agrees_of_fail he hfaults hR hoff rfl rfl hincrement
  | false =>
    rw [hbelow] at hnegative
    have hincrement : R.increment v (.int i) (.int j) = R.touch v := by
      simp only [increment, hbelow, Bool.false_eq_true, if_false]
    cases hat : at? l v with
    | none =>
      rw [incrementCounters_of_missing he hoff hnegative hat]
      have hrequire := hR.require_of_none hat EngineError.sessionNotFound
      exact agrees_of_fail he hfaults hR hoff rfl rfl
        (hincrement.trans (by simp only [touch, hrequire]))
    | some r =>
      obtain ⟨hengine, hresult⟩ := incrementCounters_of_registered he hoff hnegative hat
      obtain ⟨m, n, hm, hn⟩ := hR.counts r (mem_of_at? hat).1
      rw [Session.count_integers hm hn] at hengine hresult
      obtain ⟨q, hrequire, -⟩ := hR.require_of_some hat EngineError.sessionNotFound
      have htouch : R.touch v = .ok R := by simp only [touch, hrequire]
      exact agrees_of_ok hfaults hoff hresult (hincrement.trans htouch) (by rw [hengine]; rfl) rfl
        (by rw [hengine]; rfl) (hR.write v ⟨_, _, rfl, rfl⟩)

end Requests

end Engine

end Peering
