import Peering.Proofs.Answers
import Peering.Proofs.MappingKeys
import Peering.Settings.Document

/-!
# Settings from the parts of a document

Settings are made of two sections and the peers of a document, one after the other. This file tells
for each part what becomes of it, and takes the making of settings apart into what was made of the
parts. An error that is not one of configuration has one of two reasons: the delay is an integer
that is too large for a double, or a value that an error would show cannot be shown.
-/

namespace Peering

/-- The error is one of configuration, which says what is wrong with a setting. An integer that
cannot be converted and a value that cannot be shown are failures of another kind. -/
def SettingsError.isConfigError : SettingsError → Bool
  | .duration .tooLarge => false
  | .hidden _ => false
  | _ => true

namespace Value

/-- The delay of the document is an integer too large for a double. The other section comes first,
and there must be nothing wrong with its shape. -/
def GivesVastDelay (v : Value) : Prop :=
  ∃ (m simulation : Mapping) (n : Int), v = .mapping m ∧
    m.get? "simulation" = some (.mapping simulation) ∧
    simulation.get? "session_state_delay" = some (.int n) ∧ floatLimit ≤ n.natAbs ∧
    ∀ w, m.get? "logging" = some w → w.isTruthy = true → ∃ entries, w = .mapping entries

/-- The parts of a document that are shown when settings are made of it: the level, and in errors
the delay and the entries of the peers. -/
inductive MayShow : Value → Value → Prop where
  | delay {m simulation : Mapping} {w : Value}
    (hsection : m.get? "simulation" = some (.mapping simulation))
    (hw : simulation.get? "session_state_delay" = some w) : MayShow (.mapping m) w
  | level {m logging : Mapping} {w : Value} (hsection : m.get? "logging" = some (.mapping logging))
    (hw : logging.get? "level" = some w) : MayShow (.mapping m) w
  | entry {m : Mapping} {items : List Value} {w : Value}
    (hpeers : m.get? "peers" = some (.list items)) (hw : w ∈ items) : MayShow (.mapping m) w

/-- An error about a document that is not one of configuration, with its reason. -/
inductive IsStoppedBy (v : Value) : SettingsError → Prop where
  | vast (hvast : v.GivesVastDelay) : IsStoppedBy v (.duration .tooLarge)
  | hidden {w : Value} {f : TextFault} (hw : v.MayShow w) (hf : w.textFault? = some f) :
    IsStoppedBy v (.hidden f)

end Value

namespace Settings

variable {m : Mapping} {v w : Value} {e : SettingsError} {s : Settings} {name : String}
  {entries : Mapping}

/-- An error that shows a value is as it should be, or the value cannot be shown. -/
theorem showing_cases (v : Value) (e : SettingsError) :
    SettingsError.showing v e = e ∨
      ∃ f, v.textFault? = some f ∧ SettingsError.showing v e = .hidden f := by
  unfold SettingsError.showing
  cases hfault : v.textFault? with
  | none => exact .inl rfl
  | some f => exact .inr ⟨f, rfl, rfl⟩

section Sections

/-- A mapping is a section as it stands. -/
theorem sectionOf_of_mapping (hget : m.get? name = some (.mapping entries)) :
    sectionOf m name = .ok entries := by
  unfold sectionOf
  rw [hget]
  cases entries with
  | nil => rfl
  | cons e rest => rfl

/-- A section is a mapping, or it counts as an empty one. -/
theorem sectionOf_cases (h : sectionOf m name = .ok entries) :
    m.get? name = some (.mapping entries) ∨
      entries = [] ∧ ∀ w, m.get? name = some w → w.isTruthy = false := by
  unfold sectionOf Value.orElse at h
  cases hget : m.get? name with
  | none =>
    rw [hget] at h
    exact .inr ⟨(Except.ok.inj h).symm, fun w hw => by cases hw⟩
  | some w =>
    rw [hget, Option.getD_some] at h
    by_cases htrue : w.isTruthy = true
    · rw [if_pos htrue] at h
      split at h
      · obtain rfl := Except.ok.inj h
        exact .inl rfl
      · cases h
    · rw [if_neg htrue] at h
      refine .inr ⟨(Except.ok.inj h).symm, fun w' hw => ?_⟩
      obtain rfl := Option.some.inj hw
      exact Bool.eq_false_iff.mpr htrue

/-- What stands at a key of a section does so in the document. -/
theorem get?_of_sectionOf {key : String} (hsection : sectionOf m name = .ok entries)
    (hget : entries.get? key = some w) : m.get? name = some (.mapping entries) := by
  obtain hfound | ⟨rfl, -⟩ := sectionOf_cases hsection
  · exact hfound
  · cases hget

/-- What counts as true in the place of a section is the section. -/
theorem eq_of_sectionOf (hsection : sectionOf m name = .ok entries) (hget : m.get? name = some w)
    (htrue : w.isTruthy = true) : w = .mapping entries := by
  obtain hfound | ⟨-, hfalse⟩ := sectionOf_cases hsection
  · exact Option.some.inj (hget.symm.trans hfound)
  · exact absurd htrue (Bool.eq_false_iff.mp (hfalse w hget))

/-- Where nothing but a mapping counts as true there is a section. -/
theorem exists_sectionOf
    (h : ∀ w, m.get? name = some w → w.isTruthy = true → ∃ entries, w = .mapping entries) :
    ∃ entries, sectionOf m name = .ok entries := by
  cases hget : m.get? name with
  | none =>
    unfold sectionOf
    rw [hget]
    exact ⟨[], rfl⟩
  | some w =>
    by_cases htrue : w.isTruthy = true
    · obtain ⟨entries, rfl⟩ := h w hget htrue
      exact ⟨entries, sectionOf_of_mapping hget⟩
    · unfold sectionOf Value.orElse
      rw [hget, Option.getD_some, if_neg htrue]
      exact ⟨[], rfl⟩

/-- A section is refused if it counts as true and is no mapping. -/
theorem sectionOf_error (h : sectionOf m name = .error e) : e = .sectionShape name ∧
    ∃ w, m.get? name = some w ∧ w.isTruthy = true ∧ ¬∃ entries, w = .mapping entries := by
  have hname : e = .sectionShape name := by
    unfold sectionOf at h
    split at h
    · cases h
    · exact (Except.error.inj h).symm
  refine ⟨hname, ?_⟩
  by_contra hnone
  have hall : ∀ w, m.get? name = some w → w.isTruthy = true → ∃ entries, w = .mapping entries := by
    intro w hget htrue
    by_contra hshape
    exact hnone ⟨w, hget, htrue, hshape⟩
  obtain ⟨entries, hentries⟩ := exists_sectionOf hall
  cases hentries.symm.trans h

end Sections

section Delays

/-- An integer has no double exactly from the limit on. -/
theorem floatOfInt?_eq_none_iff {k : Int} : floatOfInt? k = none ↔ floatLimit ≤ k.natAbs := by
  unfold floatOfInt?
  split
  · rename_i hvast
    exact iff_of_true rfl hvast
  · rename_i hfits
    exact iff_of_false (Option.some_ne_none _) hfits

/-- What is no duration is refused as such or is an integer beyond the limit. -/
theorem eq_of_ofValue {err : Duration.Error} (h : Duration.ofValue v = .error err) :
    err = .invalid v ∨ err = .tooLarge ∧ ∃ k, v = .int k ∧ floatLimit ≤ k.natAbs := by
  unfold Duration.ofValue at h
  split at h
  · rename_i k
    split at h
    · cases h
    · rename_i hnone
      exact .inr ⟨(Except.error.inj h).symm, k, rfl, floatOfInt?_eq_none_iff.mp hnone⟩
  · cases h
  · split at h
    · cases h
    · exact .inl (Except.error.inj h).symm
  · exact .inl (Except.error.inj h).symm

/-- A delay is refused with an error that shows it, or because it is an integer that is too
large. -/
theorem delayOf_error (h : delayOf m = .error e) : ∃ w, m.get? "session_state_delay" = some w ∧
    (e = .showing w (.duration (.invalid w)) ∨
      e = .duration .tooLarge ∧ ∃ k, w = .int k ∧ floatLimit ≤ k.natAbs) := by
  unfold delayOf at h
  cases hget : m.get? "session_state_delay" with
  | none => simp [hget] at h
  | some w =>
    refine ⟨w, rfl, ?_⟩
    simp only [hget] at h
    cases hvalue : Duration.ofValue w with
    | ok x => simp [hvalue, Except.mapError] at h
    | error err =>
      simp only [hvalue, Except.mapError, Except.error.injEq] at h
      obtain rfl | ⟨rfl, hvast⟩ := eq_of_ofValue hvalue
      · exact .inl h.symm
      · exact .inr ⟨h.symm, hvast⟩

/-- An integer beyond the limit is too large for a delay. -/
theorem delayOf_eq_tooLarge {k : Int} (hget : m.get? "session_state_delay" = some (.int k))
    (hvast : floatLimit ≤ k.natAbs) : delayOf m = .error (.duration .tooLarge) := by
  have hvalue : Duration.ofValue (.int k) = .error .tooLarge := by
    unfold Duration.ofValue
    dsimp only
    rw [floatOfInt?_eq_none_iff.mpr hvast]
  unfold delayOf
  rw [hget]
  simp only [hvalue, Except.mapError]

end Delays

/-- There is no level if it cannot be shown. -/
theorem levelOf_error (h : levelOf m = .error e) :
    ∃ w f, m.get? "level" = some w ∧ w.textFault? = some f ∧ e = .hidden f := by
  unfold levelOf at h
  cases hget : m.get? "level" with
  | none =>
    rw [hget] at h
    cases h
  | some w =>
    rw [hget, Option.getD_some] at h
    cases hfault : w.textFault? with
    | none => simp [hfault] at h
    | some f =>
      simp only [hfault, Except.error.injEq] at h
      exact ⟨w, f, rfl, hfault, h.symm⟩

section Peers

/-- The peers are made of the items of a list, or of none. -/
theorem peersOf_cases (m : Mapping) :
    (∃ items, m.get? "peers" = some (.list items) ∧ peersOf m = items.mapM peerOfEntry) ∨
      (∀ w, m.get? "peers" = some w → w.isTruthy = false) ∧ peersOf m = .ok [] ∨
      (∃ w, m.get? "peers" = some w ∧ w.isTruthy = true ∧ (¬∃ items, w = .list items) ∧
        peersOf m = .error .peersShape) := by
  unfold peersOf Value.orElse
  cases hget : m.get? "peers" with
  | none => exact .inr (.inl ⟨by simp, rfl⟩)
  | some w =>
    rw [Option.getD_some]
    by_cases htrue : w.isTruthy = true
    · rw [if_pos htrue]
      split
      · exact .inl ⟨_, rfl, rfl⟩
      · rename_i hother
        exact .inr (.inr ⟨w, rfl, htrue, fun ⟨items, hitems⟩ => hother items hitems, rfl⟩)
    · rw [if_neg htrue]
      refine .inr (.inl ⟨fun w' hw => ?_, rfl⟩)
      obtain rfl := Option.some.inj hw
      exact Bool.eq_false_iff.mpr htrue

/-- An entry that is no mapping is refused with an error that shows it. -/
theorem peerOfEntry_error (h : peerOfEntry v = .error e) :
    e = .showing v (.entryShape v) ∧ ¬∃ entries, v = .mapping entries := by
  unfold peerOfEntry at h
  split at h
  · cases h
  · rename_i hother
    exact ⟨(Except.error.inj h).symm, fun ⟨entries, hentries⟩ => hother entries hentries⟩

/-- Only a mapping describes a peer. -/
theorem peerOfEntry_ok {p : Peer} (h : peerOfEntry v = .ok p) :
    ∃ entries, v = .mapping entries ∧ p = Peer.ofMapping entries := by
  unfold peerOfEntry at h
  split at h
  · exact ⟨_, rfl, (Except.ok.inj h).symm⟩
  · cases h

end Peers

section Making

/-- Settings that are made of a document come from its two sections and its list of peers. -/
theorem exists_of_ofMapping (h : ofMapping m = .ok s) : ∃ simulation logging,
    sectionOf m "simulation" = .ok simulation ∧ sectionOf m "logging" = .ok logging ∧
    delayOf simulation = .ok s.delay ∧ levelOf logging = .ok s.level ∧ peersOf m = .ok s.peers ∧
    s.errorInjection = (simulation.get? "error_injection").getD (.bool false) ∧
    s.routerAsn = (simulation.get? "router_asn").getD RunningConfig.usualRouterAsn ∧
    s.file = ((logging.get? "file").getD .null).orElse .null := by
  obtain ⟨simulation, hsimulation, h⟩ := exists_of_bind_ok h
  obtain ⟨logging, hlogging, h⟩ := exists_of_bind_ok h
  obtain ⟨delay, hdelay, h⟩ := exists_of_bind_ok h
  obtain ⟨level, hlevel, h⟩ := exists_of_bind_ok h
  obtain ⟨peers, hpeers, h⟩ := exists_of_bind_ok h
  obtain rfl := Except.ok.inj h
  exact ⟨simulation, logging, hsimulation, hlogging, hdelay, hlevel, hpeers, rfl, rfl, rfl⟩

/-- Sections come first, then what they hold, then the peers. -/
theorem exists_of_ofMapping_error (h : ofMapping m = .error e) :
    sectionOf m "simulation" = .error e ∨ sectionOf m "logging" = .error e ∨
      ∃ simulation logging, sectionOf m "simulation" = .ok simulation ∧
        sectionOf m "logging" = .ok logging ∧
        (delayOf simulation = .error e ∨ levelOf logging = .error e ∨ peersOf m = .error e) := by
  obtain hsimulation | ⟨simulation, hsimulation, h⟩ := exists_of_bind_error h
  · exact .inl hsimulation
  obtain hlogging | ⟨logging, hlogging, h⟩ := exists_of_bind_error h
  · exact .inr (.inl hlogging)
  refine .inr (.inr ⟨simulation, logging, hsimulation, hlogging, ?_⟩)
  obtain hdelay | ⟨delay, hdelay, h⟩ := exists_of_bind_error h
  · exact .inl hdelay
  obtain hlevel | ⟨level, hlevel, h⟩ := exists_of_bind_error h
  · exact .inr (.inl hlevel)
  obtain hpeers | ⟨peers, hpeers, h⟩ := exists_of_bind_error h
  · exact .inr (.inr hpeers)
  · cases h

/-- The delay stands in a section, and there is nothing wrong with the other one. -/
private theorem givesVastDelay_of_sections {simulation logging : Mapping} {k : Int}
    (hsimulation : sectionOf m "simulation" = .ok simulation)
    (hlogging : sectionOf m "logging" = .ok logging)
    (hget : simulation.get? "session_state_delay" = some (.int k))
    (hvast : floatLimit ≤ k.natAbs) : Value.GivesVastDelay (.mapping m) :=
  ⟨m, simulation, k, rfl, get?_of_sectionOf hsimulation hget, hget, hvast,
    fun _ hw htrue => ⟨logging, eq_of_sectionOf hlogging hw htrue⟩⟩

/-- An error about a mapping is one of configuration, or it has a reason. -/
theorem ofMapping_error (h : ofMapping m = .error e) :
    e.isConfigError = true ∨ (Value.mapping m).IsStoppedBy e := by
  -- An error that shows a part of the document is one of configuration, or the part is hidden.
  have hshowing {w : Value} {f : SettingsError} (hw : (Value.mapping m).MayShow w)
      (hf : f.isConfigError = true) (he : e = .showing w f) :
      e.isConfigError = true ∨ (Value.mapping m).IsStoppedBy e := by
    obtain heq | ⟨fault, hfault, heq⟩ := showing_cases w f
    · rw [he, heq]
      exact .inl hf
    · rw [he, heq]
      exact .inr (.hidden hw hfault)
  obtain herror | herror | ⟨simulation, logging, hsimulation, hlogging, herror⟩ :=
    exists_of_ofMapping_error h
  · obtain ⟨rfl, -⟩ := sectionOf_error herror
    exact .inl rfl
  · obtain ⟨rfl, -⟩ := sectionOf_error herror
    exact .inl rfl
  obtain hdelay | hlevel | hpeers := herror
  · obtain ⟨w, hget, hshown | ⟨rfl, k, rfl, hvast⟩⟩ := delayOf_error hdelay
    · exact hshowing (.delay (get?_of_sectionOf hsimulation hget) hget) rfl hshown
    · exact .inr (.vast (givesVastDelay_of_sections hsimulation hlogging hget hvast))
  · obtain ⟨w, f, hget, hfault, rfl⟩ := levelOf_error hlevel
    exact .inr (.hidden (.level (get?_of_sectionOf hlogging hget) hget) hfault)
  · obtain ⟨items, hitems, hmade⟩ | ⟨-, hmade⟩ | ⟨w, -, -, -, hmade⟩ := peersOf_cases m
    · obtain ⟨w, hw, hentry⟩ := exists_of_mapM_error (hmade.symm.trans hpeers)
      exact hshowing (.entry hitems hw) rfl (peerOfEntry_error hentry).1
    · cases hmade.symm.trans hpeers
    · obtain rfl := Except.error.inj (hmade.symm.trans hpeers)
      exact .inl rfl

/-- A document that is a mapping is read as such. -/
theorem ofDocument_mapping (m : Mapping) : ofDocument (.mapping m) = ofMapping m := by
  cases m with
  | nil => rfl
  | cons e rest => rfl

/-- A document that does not count as true is read as an empty one. -/
theorem ofDocument_of_falsy (h : v.isTruthy = false) : ofDocument v = ofMapping [] := by
  unfold ofDocument Value.orElse
  rw [if_neg (by rw [h]; exact Bool.false_ne_true)]

/-- A document that counts as true and is no mapping is refused. -/
theorem ofDocument_cases (v : Value) :
    (∃ m, v = .mapping m) ∨ v.isTruthy = false ∨
      v.isTruthy = true ∧ (¬∃ m, v = .mapping m) ∧ ofDocument v = .error .rootShape := by
  by_cases htrue : v.isTruthy = true
  · unfold ofDocument Value.orElse
    rw [if_pos htrue]
    split
    · exact .inl ⟨_, rfl⟩
    · rename_i hother
      exact .inr (.inr ⟨htrue, fun ⟨m, hm⟩ => hother m hm, rfl⟩)
  · exact .inr (.inl (Bool.eq_false_iff.mpr htrue))

/-- There is nothing wrong with a mapping without entries. -/
theorem ofMapping_nil : ofMapping [] = .ok {} := rfl

/-- Settings are made of a mapping, or of one without entries in the place of the document. -/
theorem exists_of_ofDocument (h : ofDocument v = .ok s) :
    ∃ m, ofMapping m = .ok s ∧ (v = .mapping m ∨ m = []) := by
  obtain ⟨m, rfl⟩ | hfalse | ⟨-, -, hroot⟩ := ofDocument_cases v
  · exact ⟨m, ofDocument_mapping m ▸ h, .inl rfl⟩
  · exact ⟨[], ofDocument_of_falsy hfalse ▸ h, .inr rfl⟩
  · cases hroot.symm.trans h

/-- An error about a document is one of configuration, or it has a reason. -/
theorem ofDocument_error (h : ofDocument v = .error e) :
    e.isConfigError = true ∨ v.IsStoppedBy e := by
  obtain ⟨m, rfl⟩ | hfalse | ⟨-, -, hroot⟩ := ofDocument_cases v
  · rw [ofDocument_mapping] at h
    exact ofMapping_error h
  · rw [ofDocument_of_falsy hfalse, ofMapping_nil] at h
    cases h
  · obtain rfl := Except.error.inj (hroot.symm.trans h)
    exact .inl rfl

end Making

end Settings

end Peering
