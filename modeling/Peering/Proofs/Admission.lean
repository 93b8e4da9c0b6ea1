import Peering.Proofs.Answers
import Peering.Proofs.Requests
import Peering.Settings.Basic

/-!
# Settings and the engine agree on peers

Settings are checked with the addresses seen so far in mind, and the engine adds peers next to those
that it has registered. Both come to the same result: the peers of settings are accepted if they can
be added one after the other, and otherwise they are rejected because of the first one that is not
added, and for the same reason. This does not go for peers that cannot be copied. They are accepted
and cannot be added.
-/

namespace Peering

open Registration

/-- A peer can be copied if it is valid, and the number for which it is not admitted can be shown
if it is not. -/
structure Peer.IsPlain (p : Peer) : Prop where
  /-- A valid peer can be copied. -/
  copyable : p.IsValid → p.isCopyable = true
  /-- What is wrong with a peer can be shown. -/
  shown : ∀ f, p.offending? = some f → f.2.textFault? = none

namespace Engine

/-- The engine after peers have been added one after the other, each at a reading of the clock,
whatever has come of it. -/
def addAll (e : Engine) : List (Peer × Float) → Engine
  | [] => e
  | (p, now) :: rest => (e.addPeer (.record p) now).engine.addAll rest

/-- Peers can be added one after the other. -/
def AddsAll (e : Engine) : List (Peer × Float) → Prop
  | [] => True
  | (p, now) :: rest =>
    (e.addPeer (.record p) now).result = .ok () ∧ (e.addPeer (.record p) now).engine.AddsAll rest

/-- Of the peers that are added one after the other, one is the first that is not added. -/
def FailsFirstAt (e : Engine) (adds : List (Peer × Float)) (p : Peer) (f : Failure) : Prop :=
  ∃ before now rest, adds = before ++ (p, now) :: rest ∧ e.AddsAll before ∧
    ((e.addAll before).addPeer (.record p) now).result = .error f

/-- A verdict on peers agrees with what becomes of adding them. -/
structure AgreesWith (verdict : Except SettingsError Unit) (e : Engine)
    (adds : List (Peer × Float)) : Prop where
  /-- The peers are accepted if and only if all of them can be added. -/
  accepts_iff : verdict = .ok () ↔ e.AddsAll adds
  /-- If they are rejected, the first peer that is not added is refused, and the verdict gives the
  same reason: the validation error, or that the address is there already. -/
  rejects : ∀ err, verdict = .error err → ∃ p f, e.FailsFirstAt adds p (.refused f) ∧
    ((∃ field, f.kind = .validation field) ∧ err = .invalidPeer f ∧
        err.message = "invalid peer: " ++ f.message ∨
      f.kind = .duplicatePeer ∧ ∃ a, p.address = .text a ∧ err = .duplicateAddress a)

end Engine

/-- The number for which a peer is not admitted can be shown. -/
theorem Peer.IsPlain.showing_offending {p : Peer} (h : p.IsPlain) (err : SettingsError) :
    SettingsError.showing ((p.offending?.map Prod.snd).getD .null) err = err := by
  have hshown : ((p.offending?.map Prod.snd).getD .null).textFault? = none := by
    cases hoffending : p.offending? with
    | none => rfl
    | some f => exact h.shown f hoffending
  rw [SettingsError.showing, hshown]
  rfl

/-- Such a peer is refused as its fields are. -/
theorem Peer.IsPlain.check_of_invalid {p : Peer} (h : p.IsPlain) {f : EngineError}
    (hvalid : p.validate = .error f) : p.check = .error (.refused f) := by
  have hshown : p.hiddenFault? = none := Option.bind_eq_none_iff.mpr h.shown
  rw [Peer.check, hvalid, hshown]
  rfl

namespace Settings

variable {seen : List String} {p : Peer} {a : String}

/-- Where everything but the peers is valid, the peers decide. -/
theorem validate_eq_checkPeers {s : Settings}
    (hothers : validate { s with peers := [] } = .ok ()) :
    s.validate = checkPeers [] s.peers := by
  unfold validate at hothers ⊢
  split_ifs at hothers with hdelay hinjection hasn hlevel
  exact (if_neg hdelay).trans
    ((if_neg hinjection).trans ((if_neg hasn).trans (if_neg hlevel)))

/-- A peer that is not valid makes the check fail for that. -/
theorem checkPeers_of_invalid (hp : p.IsPlain) {f : EngineError} (hvalid : p.validate = .error f)
    (rest : List Peer) : checkPeers seen (p :: rest) = .error (.invalidPeer f) := by
  simp only [checkPeers, hvalid, hp.showing_offending]

/-- A valid peer with an address that has been seen makes the check fail for that. -/
theorem checkPeers_of_mem (hvalid : p.validate = .ok a) (hmem : a ∈ seen) (rest : List Peer) :
    checkPeers seen (p :: rest) = .error (.duplicateAddress a) := by
  simp only [checkPeers, hvalid, if_pos hmem]

/-- A valid peer with a new address passes, and its address counts as seen for the others. -/
theorem checkPeers_of_not_mem (hvalid : p.validate = .ok a) (hmem : a ∉ seen) (rest : List Peer) :
    checkPeers seen (p :: rest) = checkPeers (a :: seen) rest := by
  simp only [checkPeers, hvalid, if_neg hmem]

/-- The first of peers that are accepted is valid, its address has not been seen, and the others
are accepted after it. -/
theorem exists_of_checkPeers {rest : List Peer}
    (h : checkPeers seen (p :: rest) = .ok ()) :
    ∃ a, p.validate = .ok a ∧ a ∉ seen ∧ checkPeers (a :: seen) rest = .ok () := by
  cases hvalid : p.validate with
  | error f =>
    simp only [checkPeers, hvalid] at h
    cases h
  | ok a =>
    by_cases hmem : a ∈ seen
    · rw [checkPeers_of_mem hvalid hmem] at h
      cases h
    · exact ⟨a, rfl, hmem, (checkPeers_of_not_mem hvalid hmem rest).symm.trans h⟩

end Settings

namespace Engine

variable {e : Engine} {l : List Registration} {seen : List String} {p : Peer} {now : Float}
  {rest adds : List (Peer × Float)}

/-- Where the first peer is added, the verdict on the others decides. -/
private theorem AgreesWith.cons {verdict : Except SettingsError Unit}
    (hadded : (e.addPeer (.record p) now).result = .ok ())
    (h : (e.addPeer (.record p) now).engine.AgreesWith verdict rest) :
    e.AgreesWith verdict ((p, now) :: rest) where
  accepts_iff := by
    rw [h.accepts_iff, AddsAll, and_iff_right hadded]
  rejects err herr := by
    obtain ⟨q, f, ⟨before, moment, others, rfl, hbefore, hfails⟩, hreason⟩ := h.rejects err herr
    exact ⟨q, f, ⟨(p, now) :: before, moment, others, rfl, ⟨hadded, hbefore⟩, hfails⟩, hreason⟩

/-- Where the first peer is refused for the reason that the verdict gives, nothing else counts. -/
private theorem AgreesWith.of_refused {err : SettingsError} {f : EngineError}
    (hrefused : (e.addPeer (.record p) now).result = .error (.refused f))
    (hreason : (∃ field, f.kind = .validation field) ∧ err = .invalidPeer f ∧
        err.message = "invalid peer: " ++ f.message ∨
      f.kind = .duplicatePeer ∧ ∃ a, p.address = .text a ∧ err = .duplicateAddress a) :
    e.AgreesWith (.error err) ((p, now) :: rest) where
  accepts_iff := by
    refine ⟨fun hok => (nomatch hok), fun hadds => ?_⟩
    rw [AddsAll, hrefused] at hadds
    cases hadds.1
  rejects err' herr := by
    obtain rfl := Except.error.inj herr
    exact ⟨p, f, ⟨[], now, rest, rfl, trivial, hrefused⟩, hreason⟩

/-- Where the addresses that have been seen are those that are registered, the check of peers
agrees with adding them. -/
theorem agreesWith_checkPeers (he : e.registry = .ofList l) (hoff : e.faults.isOn = false)
    (hseen : ∀ a, a ∈ seen ↔ (at? l (.text a)).isSome = true)
    (hplain : ∀ entry ∈ adds, entry.1.IsPlain) :
    e.AgreesWith (Settings.checkPeers seen (adds.map Prod.fst)) adds := by
  induction adds generalizing e l seen with
  | nil => exact ⟨⟨fun _ => trivial, fun _ => rfl⟩, fun err herr => (nomatch herr)⟩
  | cons entry rest ih =>
    obtain ⟨p, now⟩ := entry
    have hp : p.IsPlain := hplain (p, now) List.mem_cons_self
    have hinput : (PeerInput.record p).peer = .ok p := rfl
    rw [List.map_cons]
    cases hvalid : p.validate with
    | error f =>
      rw [Settings.checkPeers_of_invalid hp hvalid]
      refine .of_refused ?_ (Or.inl ⟨(Peer.not_isValid_of_validate hvalid).2, rfl, rfl⟩)
      rw [addPeer_of_invalid hoff hinput (hp.check_of_invalid hvalid)]
      rfl
    | ok a =>
      have haddress := Peer.address_of_validate hvalid
      by_cases hmem : a ∈ seen
      · obtain ⟨r, hr⟩ := Option.isSome_iff_exists.mp ((hseen a).mp hmem)
        have hrefused : (e.addPeer (.record p) now).result =
            .error (.refused (EngineError.duplicatePeer (.text a))) := by
          rw [addPeer_of_registered he hoff hinput hvalid hr]
          rfl
        rw [Settings.checkPeers_of_mem hvalid hmem]
        exact .of_refused hrefused (Or.inr ⟨rfl, a, haddress, rfl⟩)
      · have hnone : at? l (.text a) = none := by
          rw [← Option.not_isSome_iff_eq_none]
          exact fun hsome => hmem ((hseen a).mpr hsome)
        obtain ⟨hengine, hadded⟩ :=
          addPeer_of_new he hoff hinput hvalid hnone
            (hp.copyable (Peer.validate_eq_ok_iff.mp hvalid).1) now
        rw [Settings.checkPeers_of_not_mem hvalid hmem]
        refine .cons hadded ?_
        rw [hengine]
        refine ih (e := e.enrolled l a p now) rfl hoff (fun b => ?_)
          fun entry hentry => hplain entry (List.mem_cons_of_mem _ hentry)
        rw [List.mem_cons, hseen b, at?_append_singleton, Option.isSome_or, Bool.or_eq_true,
          or_comm]
        by_cases hab : b = a
        · simp [Registration.initial, hab]
        · have hba : ¬a = b := fun h => hab h.symm
          simp [Registration.initial, hab, hba]

/-- The check of settings whose other parts are valid agrees with adding their peers one after the
other to a new engine with the fault switch off, if every valid one of them can be copied and what
is wrong with the others can be shown. -/
theorem IsNew.agrees_with_settings (he : e.IsNew) (hoff : e.faults.isOn = false) {s : Settings}
    (hothers : Settings.validate { s with peers := [] } = .ok ())
    (hpeers : adds.map Prod.fst = s.peers) (hplain : ∀ p ∈ s.peers, p.IsPlain) :
    e.AgreesWith s.validate adds := by
  rw [Settings.validate_eq_checkPeers hothers, ← hpeers]
  refine agreesWith_checkPeers (l := []) he.registry_eq hoff (fun a => by simp [at?])
    fun entry hentry => hplain _ ?_
  exact hpeers ▸ List.mem_map_of_mem hentry

/-- Peers of which the first is valid, the second is not, and the third has the address of the
first. -/
def mixedPeers : List Peer := [
  { address := .text "192.0.2.2", localAsn := .int 65001, remoteAsn := .int 65002 },
  { address := .text "192.0.2.2", localAsn := .int 65001, remoteAsn := .int 0 },
  { address := .text "192.0.2.2", localAsn := .int 65001, remoteAsn := .int 65003 }]

/-- Settings with these peers are rejected because of the second one, as is the attempt to add
them. -/
theorem agrees_with_settings_mixedPeers :
    IsNew {} ∧ Settings.validate { peers := [] } = .ok () ∧ (∀ p ∈ mixedPeers, p.IsPlain) ∧
      ({} : Engine).AgreesWith (Settings.validate { peers := mixedPeers })
        (mixedPeers.map (·, 5.0)) ∧
      Settings.validate { peers := mixedPeers } =
        .error (.invalidPeer (EngineError.invalidAsn (.text "remote_asn") (.int 0)
          (.text "192.0.2.2"))) := by
  have hnew : IsNew {} := ⟨rfl, rfl, rfl, rfl⟩
  have hothers : Settings.validate { peers := [] } = .ok () := eq_ok_of_toOption (by decide +kernel)
  have hoffending : mixedPeers.map Peer.offending? =
      [none, some ("remote_asn", .int 0), none] := rfl
  have hplain : ∀ p ∈ mixedPeers, p.IsPlain := by
    intro p hp
    constructor
    case copyable =>
      have hall : mixedPeers.all Peer.isCopyable = true := rfl
      exact fun _ => List.all_eq_true.mp hall p hp
    case shown =>
      intro f hf
      have hmem : some f ∈ mixedPeers.map Peer.offending? := hf ▸ List.mem_map_of_mem hp
      obtain rfl : f = ("remote_asn", .int 0) := by simpa [hoffending] using hmem
      decide +kernel
  refine ⟨hnew, hothers, hplain,
    hnew.agrees_with_settings (s := { peers := mixedPeers }) rfl hothers rfl hplain, ?_⟩
  have hsecond : mixedPeers[1].IsPlain := hplain _ (List.getElem_mem (by decide))
  calc Settings.validate { peers := mixedPeers }
      = Settings.checkPeers [] mixedPeers := Settings.validate_eq_checkPeers hothers
    _ = Settings.checkPeers ["192.0.2.2"] (mixedPeers.drop 1) :=
        Settings.checkPeers_of_not_mem rfl List.not_mem_nil _
    _ = _ := Settings.checkPeers_of_invalid hsecond rfl _

/-- Settings with a peer that cannot be copied are accepted, and the peer is not added. -/
theorem not_agreesWith_deepPeer :
    IsNew {} ∧ Settings.validate { peers := [deepPeer] } = .ok () ∧
      ¬({} : Engine).AddsAll [(deepPeer, 5.0)] := by
  refine ⟨⟨rfl, rfl, rfl, rfl⟩, ?_, ?_⟩
  · exact eq_ok_of_toOption (by decide +kernel)
  · intro hadds
    rw [AddsAll, addPeer_deepPeer] at hadds
    cases hadds.1

end Engine

end Peering
