import Peering.CommandLine.Run
import Peering.Proofs.Admission
import Peering.Proofs.ClockOrder
import Peering.Proofs.DocumentParts
import Peering.Proofs.DoubleNumbers
import Peering.Proofs.LevelNames
import Peering.Proofs.Pacing

/-!
# Settings that are fit to run

This file says which settings are accepted, and what is known of settings that were made of a
document and accepted. All their values are as a simulation needs them, and every walk gets the
delay of the settings. There are two exceptions. A delay that is not a number is accepted, as it is
not below zero, and nothing is asked of the file for the log.
-/

namespace Peering

namespace Engine

variable {e : Engine} {m : Moment}

/-- Nobody asks for another delay between two states than that of the engine. -/
theorem Reachable.sleepsIn_meet (he : e.Reachable) (m : Moment) :
    ∀ x ∈ sleepsIn (e.meet m).effects, x.2.2 = e.stateDelay := by
  by_cases hturn : ∃ i o heeding, m.move = .turn i o heeding
  · obtain ⟨i, o, heeding, hmove⟩ := hturn
    rw [meet_turn hmove]
    cases hw : e.walk? i with
    | none =>
      rw [turnOf_of_none hw]
      simp
    | some w =>
      obtain ⟨l, starts, h⟩ := he.exists_holds
      have hdelay := (w.turnWith_continues heeding e.registry m.now o).delay_eq.trans
        ((he.attended l starts h).delay_eq i w hw)
      rw [turnOf_of_some hw, (w.turnWith_isOf heeding e.registry m.now o).sleeps_eq, Walk.naps]
      intro x hx
      split at hx
      · obtain rfl := List.mem_singleton.mp hx
        exact hdelay
      · cases hx
  · have hrequest := isOfRequest_meet_of_not_turn (e := e) (m := m)
      fun i o heeding hmove => hturn ⟨i, o, heeding, hmove⟩
    intro x hx
    obtain ⟨f, hf, hsleep⟩ := List.mem_filterMap.mp hx
    have hof := List.all_eq_true.mp hrequest f hf
    cases f with
    | report | started | cancelled => cases hsleep
    | _ => cases hof

/-- Walks get the delay of the engine, and ask for no other between two states. -/
theorem IsNew.delay_run {new : Engine} (hnew : new.IsNew) (ms : List Moment) :
    (∀ i w, (new.run ms).walk? i = some w → w.delay = new.stateDelay) ∧
      ∀ m, ∀ x ∈ sleepsIn ((new.run ms).meet m).effects, x.2.2 = new.stateDelay := by
  have he : (new.run ms).Reachable := ⟨new, ms, hnew, rfl⟩
  obtain ⟨l, starts, h⟩ := he.exists_holds
  rw [← hnew.stateDelay_run ms]
  exact ⟨(he.attended l starts h).delay_eq, he.sleepsIn_meet⟩

end Engine

/-- A document gives a value at a key of a section. -/
def Value.GivesAt (v : Value) (name key : String) (w : Value) : Prop :=
  ∃ m entries : Mapping, v = .mapping m ∧ m.get? name = some (.mapping entries) ∧
    entries.get? key = some w

namespace Settings

variable {v w : Value} {s : Settings} {seen : List String} {peers : List Peer}

/-- Peers are accepted after those with other addresses: each is valid, and has an address of its
own. -/
structure AreAccepted (seen : List String) (peers : List Peer) : Prop where
  valid : ∀ p ∈ peers, ∃ a, p.validate = .ok a ∧ a ∉ seen
  distinct : (peers.map Peer.address).Nodup

/-- The check accepts peers exactly if each is valid and has an address of its own. -/
theorem checkPeers_eq_ok_iff : checkPeers seen peers = .ok () ↔ AreAccepted seen peers := by
  induction peers generalizing seen with
  | nil => exact iff_of_true rfl ⟨by simp, List.nodup_nil⟩
  | cons p rest ih =>
    constructor
    · intro h
      obtain ⟨a, ha, hnew, hrest⟩ := exists_of_checkPeers h
      obtain ⟨hvalid, hdistinct⟩ := ih.mp hrest
      constructor
      case valid =>
        refine List.forall_mem_cons.mpr ⟨⟨a, ha, hnew⟩, fun q hq => ?_⟩
        obtain ⟨b, hb, hother⟩ := hvalid q hq
        exact ⟨b, hb, fun hseen => hother (List.mem_cons_of_mem a hseen)⟩
      case distinct =>
        refine List.nodup_cons.mpr ⟨fun hmem => ?_, hdistinct⟩
        obtain ⟨q, hq, heq⟩ := List.mem_map.mp hmem
        obtain ⟨b, hb, hother⟩ := hvalid q hq
        rw [Peer.address_of_validate ha, Peer.address_of_validate hb] at heq
        exact hother (Value.text.inj heq ▸ List.mem_cons_self)
    · rintro ⟨hvalid, hdistinct⟩
      obtain ⟨⟨a, ha, hnew⟩, hrest⟩ := List.forall_mem_cons.mp hvalid
      obtain ⟨hfirst, hdistinct⟩ := List.nodup_cons.mp hdistinct
      rw [checkPeers_of_not_mem ha hnew]
      refine ih.mpr ⟨fun q hq => ?_, hdistinct⟩
      obtain ⟨b, hb, hseen⟩ := hrest q hq
      refine ⟨b, hb, fun hmem => ?_⟩
      obtain rfl := (List.mem_cons.mp hmem).resolve_right hseen
      refine hfirst (List.mem_map.mpr ⟨q, hq, ?_⟩)
      rw [Peer.address_of_validate ha, Peer.address_of_validate hb]

/-- Settings are fit to run. Nothing is asked of the file for the log, and the delay need not be a
number. -/
structure IsFit (s : Settings) : Prop where
  delay : s.delay.isNaN = true ∨ 0.0 ≤ s.delay
  errorInjection : ∃ b, s.errorInjection = .bool b
  routerAsn : ∃ n, s.routerAsn = .int n ∧ 1 ≤ n ∧ n ≤ 4294967295
  level : ∃ level, s.level? = some level ∧
    ∃ name, (name, level) ∈ Level.settingNames ∧ lowerCase s.level.toList = name.toList
  peers : ∀ p ∈ s.peers, ∃ a, p.validate = .ok a
  addresses : (s.peers.map Peer.address).Nodup

private theorem not_lt_zero_iff {x : Float} : ¬x < 0.0 ↔ x.isNaN = true ∨ 0.0 ≤ x := by
  constructor
  · intro hlt
    by_cases hnan : x.isNaN = true
    · exact .inl hnan
    · refine .inr (by_contra fun hle => hlt ?_)
      exact Double.lt_of_not_le (by decide +kernel) (Bool.eq_false_iff.mpr hnan) hle
  · rintro (hnan | hle) hlt
    · rw [(Double.isNumber_of_lt hlt).1] at hnan
      cases hnan
    · exact Double.not_le_of_lt hlt hle

private theorem injectionIsBool_iff :
    s.injectionIsBool = true ↔ ∃ b, s.errorInjection = .bool b := by
  unfold injectionIsBool
  cases s.errorInjection <;> simp

/-- The settings that are accepted are those that are fit to run. -/
theorem validate_eq_ok_iff : s.validate = .ok () ↔ s.IsFit := by
  unfold validate
  constructor
  · intro h
    split_ifs at h with hdelay hinjection hasn hlevel
    obtain ⟨hpeers, haddresses⟩ := checkPeers_eq_ok_iff.mp h
    simp only [Bool.not_eq_true, Bool.not_eq_false'] at hinjection hasn hlevel
    obtain ⟨level, hlevel⟩ := Option.isSome_iff_exists.mp (by simpa using hlevel)
    constructor
    case delay => exact not_lt_zero_iff.mp hdelay
    case errorInjection => exact injectionIsBool_iff.mp hinjection
    case routerAsn => exact Value.isIntIn_iff.mp hasn
    case level => exact ⟨level, hlevel, Level.ofSetting?_eq_some_iff.mp hlevel⟩
    case peers =>
      intro p hp
      obtain ⟨a, ha, -⟩ := hpeers p hp
      exact ⟨a, ha⟩
    case addresses => exact haddresses
  · rintro ⟨hdelay, hinjection, hasn, ⟨level, hlevel, -⟩, hpeers, haddresses⟩
    have hpeers' : AreAccepted [] s.peers := by
      refine ⟨fun p hp => ?_, haddresses⟩
      obtain ⟨a, ha⟩ := hpeers p hp
      exact ⟨a, ha, List.not_mem_nil⟩
    have hasn' : s.routerAsn.isIntIn EngineError.minAsn EngineError.maxAsn = true :=
      Value.isIntIn_iff.mpr hasn
    rw [if_neg (not_lt_zero_iff.mpr hdelay), if_neg (by simp [injectionIsBool_iff.mpr hinjection]),
      if_neg (by simp [hasn']), if_neg (by simp [hlevel])]
    exact checkPeers_eq_ok_iff.mpr hpeers'

section Documents

private theorem givesAt_of_sectionOf {m entries : Mapping} {name key : String}
    (hroot : v = .mapping m ∨ m = []) (hsection : sectionOf m name = .ok entries)
    (hget : entries.get? key = some w) : v.GivesAt name key w := by
  have hfound := get?_of_sectionOf hsection hget
  obtain rfl | rfl := hroot
  · exact ⟨m, entries, rfl, hfound, hget⟩
  · cases hfound

/-- A delay that is not a number is given as such. -/
private theorem givesAt_of_isNaN (h : ofDocument v = .ok s) (hnan : s.delay.isNaN = true) :
    v.GivesAt "simulation" "session_state_delay" (.float s.delay) := by
  obtain ⟨m, hmade, hroot⟩ := exists_of_ofDocument h
  obtain ⟨simulation, logging, hsimulation, -, hdelay, -⟩ := exists_of_ofMapping hmade
  unfold delayOf at hdelay
  cases hget : simulation.get? "session_state_delay" with
  | none =>
    rw [hget] at hdelay
    rw [← Except.ok.inj hdelay] at hnan
    exact absurd hnan (by decide +kernel)
  | some w =>
    simp only [hget] at hdelay
    cases hvalue : Duration.ofValue w with
    | error err =>
      rw [hvalue] at hdelay
      cases hdelay
    | ok x =>
      rw [hvalue] at hdelay
      obtain rfl : x = s.delay := Except.ok.inj hdelay
      obtain hnumber | rfl := Duration.isNaN_of_ofValue hvalue
      · rw [hnumber] at hnan
        cases hnan
      · exact givesAt_of_sectionOf hroot hsimulation hget

/-- The file is what the document gives, if it counts as true. -/
private theorem file_cases (h : ofDocument v = .ok s) :
    s.file = .null ∨ s.file.isTruthy = true ∧ v.GivesAt "logging" "file" s.file := by
  obtain ⟨m, hmade, hroot⟩ := exists_of_ofDocument h
  obtain ⟨simulation, logging, -, hlogging, -, -, -, -, -, hfile⟩ := exists_of_ofMapping hmade
  rw [hfile, Value.orElse]
  split
  · rename_i htrue
    refine .inr ⟨htrue, ?_⟩
    cases hget : logging.get? "file" with
    | none =>
      rw [hget] at htrue
      cases htrue
    | some w => exact givesAt_of_sectionOf hroot hlogging hget
  · exact .inl rfl

/-- What is refused as a file for the log is the file of the settings, and no text. -/
private theorem eq_of_badLogFile {files : CommandLine.FileAccess}
    (h : CommandLine.logPath files s = .error (.badLogFile w)) :
    w = s.file ∧ w ≠ .null ∧ ∀ path, w ≠ .text path := by
  have hprepared {x : Except FileError Path} {path : String}
      (hx : (x.map some).mapError (CommandLine.Ending.noLogFile path) = .error (.badLogFile w)) :
      False := by
    cases x <;> cases hx
  unfold CommandLine.logPath at h
  split at h
  · cases h
  · exact (hprepared h).elim
  · exact (hprepared h).elim
  · rename_i hnull htext _
    obtain rfl := CommandLine.Ending.badLogFile.inj (Except.error.inj h)
    exact ⟨rfl, hnull, htext⟩

private theorem isNew_of_create {delay : Float} {asn faults : Value} {e : Engine}
    (h : Engine.create delay asn faults = .ok e) : e.IsNew ∧ e.stateDelay = delay := by
  unfold Engine.create at h
  split at h
  · cases h
  · obtain rfl := Except.ok.inj h
    exact ⟨⟨rfl, rfl, rfl, rfl⟩, rfl⟩

end Documents

/-- Settings that are made of a document and accepted are fit to run. Their delay is a number that
is not negative, unless the document gives what is not a number in its place, and no walk ever gets
another delay. There is no file for the log, or it is what the document gives; it is only refused if
this is no text. -/
theorem isFit_of_accepted (hmade : ofDocument v = .ok s) (hvalid : s.validate = .ok ()) :
    s.IsFit ∧
      (s.delay.isNaN = true → v.GivesAt "simulation" "session_state_delay" (.float s.delay)) ∧
      (s.file = .null ∨ s.file.isTruthy = true ∧ v.GivesAt "logging" "file" s.file) ∧
      (∀ files w, CommandLine.logPath files s = .error (.badLogFile w) →
        v.GivesAt "logging" "file" w ∧ w.isTruthy = true ∧ ∀ path, w ≠ .text path) ∧
      ∃ e, Simulation.engineOf s = .ok e ∧ ∀ ms,
        (∀ i w, (e.run ms).walk? i = some w → w.delay = s.delay) ∧
          ∀ m, ∀ x ∈ sleepsIn ((e.run ms).meet m).effects, x.2.2 = s.delay := by
  have hfit := validate_eq_ok_iff.mp hvalid
  have hengine : Simulation.engineOf s = .ok _ := if_neg (not_lt_zero_iff.mpr hfit.delay)
  obtain ⟨hnew, hdelay⟩ := isNew_of_create hengine
  refine ⟨hfit, givesAt_of_isNaN hmade, file_cases hmade, fun files w hbad => ?_, _, hengine,
    fun ms => hdelay ▸ hnew.delay_run ms⟩
  obtain ⟨rfl, hnull, htext⟩ := eq_of_badLogFile hbad
  obtain ⟨htrue, hgives⟩ := (file_cases hmade).resolve_left hnull
  exact ⟨hgives, htrue, htext⟩

/-- A document with a delay, a file and a peer. -/
def fitDocument : Value := .mapping [
  (.text "simulation", .mapping [(.text "session_state_delay", .text "250ms")]),
  (.text "logging", .mapping [(.text "level", .text "WARNING"), (.text "file", .text "sim.log")]),
  (.text "peers", .list [.mapping [(.text "address", .text "192.0.2.2"),
    (.text "asn", .int 65001), (.text "remote_asn", .int 65002)]])]

/-- Its settings are accepted, and their delay is not negative. -/
theorem isFit_of_accepted_fitDocument : ∃ s, ofDocument fitDocument = .ok s ∧
    s.validate = .ok () ∧ s.IsFit ∧ 0.0 ≤ s.delay := by
  have haccepted : ((ofDocument fitDocument).bind validate).toOption = some () := by decide +kernel
  obtain ⟨s, hmade, hvalid⟩ := exists_of_bind_ok (eq_ok_of_toOption haccepted)
  obtain ⟨hfit, hgives, -⟩ := isFit_of_accepted hmade hvalid
  refine ⟨s, hmade, hvalid, hfit, hfit.delay.resolve_left fun hnan => ?_⟩
  obtain ⟨m, entries, hm, hsection, hget⟩ := hgives hnan
  cases hm
  cases hsection
  cases hget

/-- A document with a delay that is not a number, and a number in the place of the file. -/
def unfitDocument : Value := .mapping [
  (.text "simulation", .mapping [(.text "session_state_delay", .float (0.0 / 0.0))]),
  (.text "logging", .mapping [(.text "file", .int 5)])]

/-- Its settings are accepted, though the delay is not at least zero, and the file is refused when
it is asked for. -/
theorem accepted_unfitDocument : ∃ s, ofDocument unfitDocument = .ok s ∧ s.validate = .ok () ∧
    ¬0.0 ≤ s.delay ∧ s.file = .int 5 ∧
      ∀ files, CommandLine.logPath files s = .error (.badLogFile (.int 5)) := by
  refine ⟨{ delay := 0.0 / 0.0, file := .int 5 }, rfl, ?_, by decide +kernel, rfl, fun _ => rfl⟩
  exact eq_ok_of_toOption (by decide +kernel)

end Settings

end Peering
