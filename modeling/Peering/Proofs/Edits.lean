import Peering.Proofs.Steps

/-!
# Requests as edits

A request looks at the fault switch and at the registration at one address, and at nothing else of
the engine. From these it is settled what the answer is, and what is edited: one registration at
most. This file writes down what is settled, as data, and shows that requests do just that. What is
compared of two engines, or summed up over a run, then follows from the edits.
-/

namespace Peering

open Registration

/-- What a request makes of the registration at its address. -/
inductive Edit where
  /-- It stays as it is, if there is one. -/
  | keep
  /-- A peer is registered there. -/
  | enroll (address : String) (p : Peer)
  /-- It is taken out. -/
  | drop
  /-- Its peer is replaced. -/
  | configure (p : Peer)
  /-- Its session is replaced. -/
  | record (s : Session)

/-- The registrations after an edit at an address. A new one gets the generation. -/
def Edit.apply (l : List Registration) (v : Value) (g : Int) (now : Float) :
    Edit → List Registration
  | keep => l
  | enroll a p => l ++ [Registration.initial a p g now]
  | drop => without l v
  | configure p => adjust l v fun r => { r with peer := p }
  | record s => adjust l v fun r => { r with session := s }

/-- The address that a request with this input acts on. -/
def PeerInput.target : PeerInput → Value
  | .record p => p.address
  | .mapping m => (Peer.ofMapping m).address
  | .other => .null

/-- The address that a request is for is that of the peer given. -/
theorem PeerInput.address_of_peer {input : PeerInput} {p : Peer} (hp : input.peer = .ok p) :
    p.address = input.target := by
  cases input with
  | record q => exact congrArg Peer.address (Except.ok.inj hp).symm
  | mapping m => exact congrArg Peer.address (Except.ok.inj hp).symm
  | other => cases hp

/-- The failure of a request that finds no registration at its address. -/
def notFound (v : Value) (missing : Value → EngineError) : Failure :=
  if v.isKey then .refused (missing v) else .wrongType

/-- Counting fails because numbers cannot be added, and never because it is refused. -/
theorem Session.count_not_refused (s : Session) (received sent : Value) (err : EngineError) :
    (s.count received sent).2 ≠ .error (.refused err) := by
  have hincreased (counter increment : Value) :
      increased counter increment ≠ .error (.refused err) := by
    unfold increased
    split
    · split <;> simp
    · simp
  unfold count
  split
  · rename_i f hf
    rintro ⟨⟩
    exact hincreased _ _ hf
  · simp only
    split
    · rename_i f hf
      rintro ⟨⟩
      exact hincreased _ _ hf
    · simp

namespace Call

/-- The address that a call is for, if it is for one. -/
def target? : Call → Option Value
  | .addPeer input | .updatePeer input => some input.target
  | .removePeer v | .setSessionError v _ | .incrementCounters v _ _ => some v
  | .session v | .peer v | .walk v => some v
  | .setFaults _ | .sessions | .peers | .counts | .runningConfig | .statistics | .faults
  | .describe => none

/-- A request is for an address. -/
theorem exists_target {c : Call} (hc : c.isRequest = true) : ∃ v, c.target? = some v := by
  cases c with
  | addPeer | updatePeer | removePeer | setSessionError | incrementCounters => exact ⟨_, rfl⟩
  | setFaults | session | sessions | peer | peers | counts | runningConfig | statistics | walk
  | faults | describe => cases hc

/-- The request fails and edits nothing. -/
def fails (f : Failure) : Edit × Except Failure Unit := (.keep, .error f)

/-- What is settled when a peer is to be added. -/
def planAdd (input : PeerInput) (found : Option Registration) : Edit × Except Failure Unit :=
  match input.peer with
  | .error f => fails f
  | .ok p =>
    match p.check with
    | .error f => fails f
    | .ok a =>
      match found with
      | some _ => fails (.refused (EngineError.duplicatePeer (.text a)))
      | none => if p.isCopyable then (.enroll a p, .ok ()) else fails .tooDeep

/-- What is settled when a peer is to be updated. -/
def planUpdate (input : PeerInput) (found : Option Registration) (now : Float) :
    Edit × Except Failure Unit :=
  match input.peer with
  | .error f => fails f
  | .ok p =>
    match found with
    | none => fails (notFound p.address EngineError.peerNotFound)
    | some r =>
      match p.check with
      | .error f => fails f
      | .ok _ =>
        if p.isCopyable then (.configure (Registry.updated r.peer p now), .ok ())
        else fails .tooDeep

/-- What is settled when a peer is to be removed. -/
def planRemove (v : Value) : Option Registration → Edit × Except Failure Unit
  | none => fails (notFound v EngineError.peerNotFound)
  | some _ => (.drop, .ok ())

/-- What is settled when an error of a session is to be noted. -/
def planRemark (v message : Value) : Option Registration → Edit × Except Failure Unit
  | none => fails (notFound v EngineError.sessionNotFound)
  | some r => (.record { r.session with lastError := message }, .ok ())

/-- What is settled when messages are to be counted. -/
def planIncrement (v received sent : Value) (found : Option Registration) :
    Edit × Except Failure Unit :=
  match Engine.anyNegative received sent with
  | .error f => fails f
  | .ok true => fails (.refused (EngineError.negativeIncrement received sent v))
  | .ok false =>
    match found with
    | none => fails (notFound v EngineError.sessionNotFound)
    | some r => (.record (r.session.count received sent).1, (r.session.count received sent).2)

/-- What is settled of a request that the fault switch lets through, from the registration found
at its address. -/
def planned (found : Option Registration) (now : Float) : Call → Edit × Except Failure Unit
  | .addPeer input => planAdd input found
  | .updatePeer input => planUpdate input found now
  | .removePeer v => planRemove v found
  | .setSessionError v message => planRemark v message found
  | .incrementCounters v received sent => planIncrement v received sent found
  | .setFaults _ | .session _ | .sessions | .peer _ | .peers | .counts | .runningConfig
  | .statistics | .walk _ | .faults | .describe => (.keep, .ok ())

/-- The refusal of a request by the fault switch. -/
def injected : Call → EngineError
  | .addPeer input => EngineError.simulated (.text "add peer") input.address
  | .updatePeer input => EngineError.simulated (.text "update peer") input.address
  | .removePeer v => EngineError.simulated (.text "remove peer") v
  | .setSessionError v _ => EngineError.simulated (.text "set session error") v
  | .incrementCounters v _ _ => EngineError.simulated (.text "increment session counters") v
  | .setFaults _ | .session _ | .sessions | .peer _ | .peers | .counts | .runningConfig
  | .statistics | .walk _ | .faults | .describe => EngineError.simulated .null .null

/-- What is settled of a request. -/
def plan (c : Call) (faulty : Bool) (found : Option Registration) (now : Float) :
    Edit × Except Failure Unit :=
  if faulty then fails (.refused c.injected) else c.planned found now

/-- All that can be settled of a request, by what is found at its address. -/
inductive Settles (found : Option Registration) : Call → Edit × Except Failure Unit → Prop where
  /-- The request fails. -/
  | fails (c : Call) (f : Failure) : Settles found c (Call.fails f)
  /-- A valid peer is registered where nothing is. -/
  | enroll {input : PeerInput} {p : Peer} {a : String} (hp : input.peer = .ok p)
    (hvalid : p.validate = .ok a) (hfound : found = none) :
    Settles found (.addPeer input) (.enroll a p, .ok ())
  /-- What is found is taken out. -/
  | drop {r : Registration} (v : Value) (hfound : found = some r) :
    Settles found (.removePeer v) (.drop, .ok ())
  /-- The peer is replaced. -/
  | configure {r : Registration} (input : PeerInput) (p : Peer) (hfound : found = some r) :
    Settles found (.updatePeer input) (.configure p, .ok ())
  /-- An error is noted. -/
  | remark {r : Registration} (v message : Value) (hfound : found = some r) :
    Settles found (.setSessionError v message)
      (.record { r.session with lastError := message }, .ok ())
  /-- Messages are counted, whatever comes of it. -/
  | count {r : Registration} (v received sent : Value) (hfound : found = some r) :
    Settles found (.incrementCounters v received sent)
      (.record (r.session.count received sent).1, (r.session.count received sent).2)

/-- Nothing else can be settled. -/
theorem settles {c : Call} (hc : c.isRequest = true) (faulty : Bool)
    (found : Option Registration) (now : Float) : c.Settles found (c.plan faulty found now) := by
  cases faulty with
  | true => exact .fails c _
  | false =>
    cases c with
    | addPeer input =>
      change Settles found _ (planAdd input found)
      unfold planAdd
      split
      · exact .fails _ _
      rename_i p hp
      split
      · exact .fails _ _
      rename_i a hcheck
      split
      · exact .fails _ _
      split
      · exact .enroll hp (Peer.check_eq_ok_iff_validate.mp hcheck) rfl
      · exact .fails _ _
    | updatePeer input =>
      change Settles found _ (planUpdate input found now)
      unfold planUpdate
      split
      · exact .fails _ _
      split
      · exact .fails _ _
      split
      · exact .fails _ _
      split
      · exact .configure input _ rfl
      · exact .fails _ _
    | removePeer v =>
      cases found with
      | none => exact .fails _ _
      | some r => exact .drop v rfl
    | setSessionError v message =>
      cases found with
      | none => exact .fails _ _
      | some r => exact .remark v message rfl
    | incrementCounters v received sent =>
      change Settles found _ (planIncrement v received sent found)
      unfold planIncrement
      split
      · exact .fails _ _
      · exact .fails _ _
      split
      · exact .fails _ _
      · exact .count v received sent rfl
    | setFaults | session | sessions | peer | peers | counts | runningConfig | statistics | walk
    | faults | describe => cases hc

/-- A request that is refused edits nothing. -/
theorem Settles.keep_of_refused {found : Option Registration} {c : Call}
    {plan : Edit × Except Failure Unit} (h : c.Settles found plan) {err : EngineError}
    (hrefused : plan.2 = .error (.refused err)) : plan.1 = .keep := by
  cases h with
  | fails => rfl
  | enroll | drop | configure | remark => cases hrefused
  | @count r v received sent =>
    exact absurd hrefused (r.session.count_not_refused received sent err)

end Call

namespace Engine

variable {e e' : Engine} {l : List Registration} {now : Float}

/-- The settings of two engines are the same. The failures that the fault switch has caused may be
more on one of them. -/
structure SameSettings (e' e : Engine) : Prop where
  stateDelay_eq : e'.stateDelay = e.stateDelay
  routerAsn_eq : e'.routerAsn = e.routerAsn
  enabled_eq : e'.faults.enabled = e.faults.enabled

/-- An engine has its own settings. -/
theorem SameSettings.refl (e : Engine) : e.SameSettings e := ⟨rfl, rfl, rfl⟩

/-- Having the same settings goes both ways. -/
theorem SameSettings.symm (h : e'.SameSettings e) : e.SameSettings e' :=
  ⟨h.stateDelay_eq.symm, h.routerAsn_eq.symm, h.enabled_eq.symm⟩

/-- Having the same settings is transitive. -/
theorem SameSettings.trans {e'' : Engine} (h' : e''.SameSettings e') (h : e'.SameSettings e) :
    e''.SameSettings e where
  stateDelay_eq := h'.stateDelay_eq.trans h.stateDelay_eq
  routerAsn_eq := h'.routerAsn_eq.trans h.routerAsn_eq
  enabled_eq := h'.enabled_eq.trans h.enabled_eq

/-- The engine with the registration at an address taken out of a list, and its walk cancelled. -/
def dropped (e : Engine) (l : List Registration) (v : Value) : Engine :=
  { e with
    toRoster := (Roster.cancelAll ⟨.ofList (without l v), e.walks⟩ (e.walkNumber? v).toList).1
    walkOf := e.walkOf.erase v }

/-- The second engine is the first with the registration at an address edited, the walk started or
cancelled that belongs to the edit, and maybe a generation used up. -/
inductive Edited (e : Engine) (l : List Registration) (v : Value) (now : Float) :
    Edit → Engine → Prop where
  | keep {e' : Engine} (htables : e'.SameTables e) (hsettings : e'.SameSettings e) :
    Edited e l v now .keep e'
  | enroll {a : String} {p : Peer} (hv : v = .text a) (hnone : at? l v = none) :
    Edited e l v now (.enroll a p) (e.enrolled l a p now)
  | drop {r : Registration} (hr : at? l v = some r) : Edited e l v now .drop (e.dropped l v)
  | configure {p : Peer} {r : Registration} (hr : at? l v = some r) :
    Edited e l v now (.configure p) (e.withList (adjust l v fun r => { r with peer := p }))
  | record {s : Session} {r : Registration} (hr : at? l v = some r) :
    Edited e l v now (.record s) (e.withList (adjust l v fun r => { r with session := s }))

/-- The registrations after an edit are the edited ones. -/
theorem Edited.registry_eq {v : Value} {edit : Edit} (h : e.Edited l v now edit e')
    (he : e.registry = .ofList l) :
    e'.registry = .ofList (edit.apply l v e.nextGeneration now) := by
  cases h with
  | keep htables => exact htables.registry_eq.trans he
  | enroll | configure | record => rfl
  | drop => exact (Roster.cancelAll_eq _ _).1

/-- The outcome is the one that has been settled. -/
structure Follows (out : Outcome Unit) (e : Engine) (l : List Registration) (v : Value)
    (now : Float) (plan : Edit × Except Failure Unit) : Prop where
  edited : e.Edited l v now plan.1 out.engine
  result_eq : out.result = plan.2

variable {v : Value}

/-- A request that fails edits nothing. -/
private theorem follows_fail (htables : e'.SameTables e) (hsettings : e'.SameSettings e)
    (request : String) (address : Value) (f : Failure) :
    Follows (e'.fail request address f) e l v now (Call.fails f) where
  edited := by
    rw [engine_fail]
    exact .keep htables hsettings
  result_eq := result_fail request address f

/-- A request that the fault switch refuses edits nothing. -/
private theorem follows_of_on (hon : e.faults.isOn = true) {operation request : String}
    {address : Value} {body : Engine → Outcome Unit} :
    Follows (e.unlessFaulty operation request address body) e l v now
      (Call.fails (.refused (EngineError.simulated (.text operation) address))) := by
  obtain ⟨hengine, hresult⟩ := unlessFaulty_of_on hon operation request address body
  refine ⟨?_, hresult⟩
  rw [hengine]
  exact .keep ⟨rfl, rfl, rfl, Int.le_refl _⟩ ⟨rfl, rfl, rfl⟩

/-- What is settled of a request is told apart by the fault switch. -/
private theorem follows_plan {c : Call} {found : Option Registration} {out : Outcome Unit}
    (hon : e.faults.isOn = true → Follows out e l v now (Call.fails (.refused c.injected)))
    (hoff : e.faults.isOn = false → Follows out e l v now (c.planned found now)) :
    Follows out e l v now (c.plan e.faults.isOn found now) := by
  cases hfaults : e.faults.isOn with
  | true => exact hon hfaults
  | false => exact hoff hfaults

/-- A call that is no request changes nothing in the tables. -/
theorem sameTables_of_not_request {c : Call} (hc : c.isRequest = false) (e : Engine) (now : Float) :
    (c.perform e now).engine.SameTables e := by
  cases c with
  | addPeer | updatePeer | removePeer | setSessionError | incrementCounters => cases hc
  | setFaults enabled => cases enabled <;> exact ⟨rfl, rfl, rfl, Int.le_refl _⟩
  | session | sessions | peer | peers | counts | runningConfig | statistics | walk | faults
  | describe => exact .refl e

section Requests

variable (he : e.registry = .ofList l)
include he

/-- Adding a peer does what is planned. -/
theorem follows_addPeer (input : PeerInput) (now : Float) :
    Follows (e.addPeer input now) e l input.target now
      ((Call.addPeer input).plan e.faults.isOn (at? l input.target) now) := by
  refine follows_plan (fun hon => follows_of_on hon) fun hoff => ?_
  rw [Call.planned]
  cases hp : input.peer with
  | error f =>
    simp only [addPeer_of_noPeer hoff hp, Call.planAdd, hp]
    exact follows_fail (.refl e) (.refl e) _ _ f
  | ok p =>
    rw [← PeerInput.address_of_peer hp]
    cases hcheck : p.check with
    | error f =>
      simp only [addPeer_of_invalid hoff hp hcheck, Call.planAdd, hp, hcheck]
      exact follows_fail (.refl e) (.refl e) _ _ f
    | ok a =>
      have hvalid := Peer.check_eq_ok_iff_validate.mp hcheck
      have haddress := Peer.address_of_validate hvalid
      rw [haddress]
      cases hat : at? l (.text a) with
      | some r =>
        simp only [addPeer_of_registered he hoff hp hvalid hat, Call.planAdd, hp, hcheck]
        exact follows_fail (sameTables_spent e) ⟨rfl, rfl, rfl⟩ _ _ (.refused _)
      | none =>
        cases hcopy : p.isCopyable with
        | false =>
          simp only [addPeer_of_notCopyable he hoff hp hvalid hat hcopy, Call.planAdd, hp, hcheck,
            hcopy, Bool.false_eq_true, if_false]
          exact follows_fail (sameTables_spent e) ⟨rfl, rfl, rfl⟩ _ _ .tooDeep
        | true =>
          obtain ⟨hengine, hresult⟩ := addPeer_of_new he hoff hp hvalid hat hcopy now
          simp only [Call.planAdd, hp, hcheck, hcopy, if_true]
          exact ⟨hengine ▸ .enroll rfl hat, hresult⟩

/-- Updating a peer does what is planned. -/
theorem follows_updatePeer (input : PeerInput) (now : Float) :
    Follows (e.updatePeer input now) e l input.target now
      ((Call.updatePeer input).plan e.faults.isOn (at? l input.target) now) := by
  refine follows_plan (fun hon => follows_of_on hon) fun hoff => ?_
  rw [Call.planned]
  cases hp : input.peer with
  | error f =>
    simp only [updatePeer_of_noPeer hoff hp, Call.planUpdate, hp]
    exact follows_fail (.refl e) (.refl e) _ _ f
  | ok p =>
    rw [← PeerInput.address_of_peer hp]
    cases hat : at? l p.address with
    | none =>
      simp only [updatePeer_of_missing he hoff hp hat, Call.planUpdate, hp]
      exact follows_fail (.refl e) (.refl e) _ _ _
    | some r =>
      cases hcheck : p.check with
      | error f =>
        simp only [updatePeer_of_invalid he hoff hp hat hcheck, Call.planUpdate, hp, hcheck]
        exact follows_fail (.refl e) (.refl e) _ _ f
      | ok a =>
        have hvalid := Peer.check_eq_ok_iff_validate.mp hcheck
        cases hcopy : p.isCopyable with
        | false =>
          simp only [updatePeer_of_notCopyable he hoff hp hat hvalid hcopy, Call.planUpdate, hp,
            hcheck, hcopy, Bool.false_eq_true, if_false]
          exact follows_fail (.refl e) (.refl e) _ _ .tooDeep
        | true =>
          obtain ⟨hengine, hresult⟩ := updatePeer_of_registered he hoff hp hat hvalid hcopy now
          simp only [Call.planUpdate, hp, hcheck, hcopy, if_true]
          exact ⟨hengine ▸ .configure hat, hresult⟩

/-- Removing a peer does what is planned. -/
theorem follows_removePeer (v : Value) (now : Float) :
    Follows (e.removePeer v) e l v now
      ((Call.removePeer v).plan e.faults.isOn (at? l v) now) := by
  refine follows_plan (fun hon => follows_of_on hon) fun hoff => ?_
  rw [Call.planned]
  cases hat : at? l v with
  | none =>
    rw [removePeer_of_missing he hoff hat]
    exact follows_fail (.refl e) (.refl e) _ _ _
  | some r =>
    obtain ⟨hengine, hresult⟩ := removePeer_of_registered he hoff hat
    exact ⟨hengine ▸ .drop hat, hresult⟩

/-- Noting an error does what is planned. -/
theorem follows_setSessionError (v message : Value) (now : Float) :
    Follows (e.setSessionError v message) e l v now
      ((Call.setSessionError v message).plan e.faults.isOn (at? l v) now) := by
  refine follows_plan (fun hon => follows_of_on hon) fun hoff => ?_
  rw [Call.planned]
  cases hat : at? l v with
  | none =>
    rw [setSessionError_of_missing he hoff hat]
    exact follows_fail (.refl e) (.refl e) _ _ _
  | some r =>
    obtain ⟨hengine, hresult⟩ := setSessionError_of_registered he hoff hat message
    exact ⟨hengine ▸ .record hat, hresult⟩

/-- Counting messages does what is planned. -/
theorem follows_incrementCounters (v received sent : Value) (now : Float) :
    Follows (e.incrementCounters v received sent) e l v now
      ((Call.incrementCounters v received sent).plan e.faults.isOn (at? l v) now) := by
  refine follows_plan (fun hon => ?_) fun hoff => ?_
  · unfold incrementCounters
    exact follows_of_on hon
  rw [Call.planned]
  rcases hnegative : anyNegative received sent with f | _ | _
  · simp only [incrementCounters_of_error hoff hnegative, Call.planIncrement, hnegative]
    exact follows_fail (.refl e) (.refl e) _ _ f
  · cases hat : at? l v with
    | none =>
      simp only [incrementCounters_of_missing he hoff hnegative hat, Call.planIncrement, hnegative]
      exact follows_fail (.refl e) (.refl e) _ _ _
    | some r =>
      obtain ⟨hengine, hresult⟩ := incrementCounters_of_registered he hoff hnegative hat
      simp only [Call.planIncrement, hnegative]
      exact ⟨hengine ▸ .record hat, hresult⟩
  · simp only [incrementCounters_of_negative hoff hnegative, Call.planIncrement, hnegative]
    exact follows_fail (.refl e) (.refl e) _ _ (.refused _)

/-- Every request does what is settled from the fault switch and the registration found at its
address. -/
theorem perform_follows {c : Call} (hrequest : c.isRequest = true) {v : Value}
    (hv : c.target? = some v) (now : Float) :
    ∃ out, c.perform e now = Call.changing out ∧
      Follows out e l v now (c.plan e.faults.isOn (at? l v) now) := by
  cases c with
  | addPeer input =>
    obtain rfl := Option.some.inj hv
    exact ⟨_, rfl, follows_addPeer he input now⟩
  | updatePeer input =>
    obtain rfl := Option.some.inj hv
    exact ⟨_, rfl, follows_updatePeer he input now⟩
  | removePeer v =>
    obtain rfl := Option.some.inj hv
    exact ⟨_, rfl, follows_removePeer he v now⟩
  | setSessionError v message =>
    obtain rfl := Option.some.inj hv
    exact ⟨_, rfl, follows_setSessionError he v message now⟩
  | incrementCounters v received sent =>
    obtain rfl := Option.some.inj hv
    exact ⟨_, rfl, follows_incrementCounters he v received sent now⟩
  | setFaults | session | sessions | peer | peers | counts | runningConfig | statistics | walk
  | faults | describe => cases hrequest

end Requests

end Engine

end Peering
