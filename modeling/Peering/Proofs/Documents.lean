import Peering.CommandLine.Run
import Peering.Proofs.DocumentParts
import Peering.Proofs.ShownValues

/-!
# What becomes of a document

A document of settings may hold any value in any place. This file shows that settings are made of
it, or that one error of configuration tells what is wrong with it, which the command prints. This
does not go for two kinds of documents: those that give an integer for the delay that is too large
for a double, and those in which too many values stand one inside of the other.
-/

namespace Peering

namespace Value

/-- Values of which documents are made, with integers that are not too long to be written. -/
inductive IsData : Value → Prop
  | null : IsData .null
  | bool (b : Bool) : IsData (.bool b)
  | int {n : Int} (hn : isWritable n = true) : IsData (.int n)
  | float (x : Float) : IsData (.float x)
  | text (s : String) : IsData (.text s)
  | list {items : List Value} (hitems : ∀ v ∈ items, IsData v) : IsData (.list items)
  | mapping {entries : List (Value × Value)} (hkeys : ∀ e ∈ entries, IsData e.1)
      (hvalues : ∀ e ∈ entries, IsData e.2) : IsData (.mapping entries)

variable {v w : Value} {n : Nat}

private theorem IsData.hasShortIntegers (h : v.IsData) : v.HasShortIntegers := by
  induction h with
  | null => exact .null
  | bool b => exact .bool b
  | int hn => exact .int hn
  | float x => exact .float x
  | text s => exact .text s
  | list _ ih => exact .list ih
  | mapping _ _ ihkeys ihvalues => exact .mapping ihkeys ihvalues

/-- Data with a bound on their levels. -/
structure IsDataUpTo (n : Nat) (v : Value) : Prop where
  /-- The value is made of data. -/
  data : v.IsData
  /-- There are no more levels. -/
  levels_le : v.levels ≤ n

namespace IsDataUpTo

/-- The value can be shown, or there are too many levels. -/
theorem textFault? (h : IsDataUpTo n v) :
    v.textFault? = none ∨ v.textFault? = some .tooDeep ∧ textRoom < n := by
  rw [h.data.hasShortIntegers.textFault?_eq]
  split
  · rename_i hdeep
    exact .inr ⟨rfl, Nat.lt_of_lt_of_le hdeep h.levels_le⟩
  · exact .inl rfl

/-- A value of one level is not too deep where there is another value. -/
theorem of_levels_eq_one (hw : w.IsData) (hone : w.levels = 1) (h : IsDataUpTo n v) :
    IsDataUpTo n w :=
  ⟨hw, by have := levels_pos v; have := h.levels_le; omega⟩

/-- An empty mapping is data of the same kind. -/
theorem emptyMapping (h : IsDataUpTo n v) : IsDataUpTo n (.mapping []) :=
  h.of_levels_eq_one (.mapping (by simp) (by simp)) rfl

/-- What stands at a key is inside of the mapping. -/
theorem of_get? {m : Mapping} {key : String} (h : IsDataUpTo n (.mapping m))
    (hget : m.get? key = some v) : IsDataUpTo n v := by
  have hmem : (.text key, v) ∈ m := Mapping.mem_of_get? hget
  obtain ⟨hdata, hle⟩ := h
  cases hdata with
  | mapping _ hvalues =>
    rw [levels] at hle
    have := levels_le_of_mem_entries hmem
    exact ⟨hvalues _ hmem, by omega⟩

/-- The items of a list are inside of it. -/
theorem of_mem {items : List Value} (h : IsDataUpTo n (.list items)) (hv : v ∈ items) :
    IsDataUpTo n v := by
  obtain ⟨hdata, hle⟩ := h
  cases hdata with
  | list hitems =>
    rw [levels] at hle
    have := levels_le_of_mem_items hv
    exact ⟨hitems _ hv, by omega⟩

end IsDataUpTo

end Value

open Value

/-- The error is one of configuration, unless it had to show a value with too many levels. -/
private def IsTold (n : Nat) (e : SettingsError) : Prop :=
  e.isConfigError = true ∨ e = .hidden .tooDeep ∧ textRoom < n

/-- The settings that are made of a document and validated. -/
def Settings.admitted (v : Value) : Except SettingsError Settings := do
  let s ← ofDocument v
  s.validate
  return s

section Errors

variable {v : Value} {n : Nat} {m : Mapping} {e : SettingsError} {s : Settings}

private theorem isTold_showing (h : IsDataUpTo n v) (he : e.isConfigError = true) :
    IsTold n (.showing v e) := by
  unfold SettingsError.showing
  obtain hnone | ⟨hdeep, hlt⟩ := h.textFault?
  · rw [hnone]
    exact .inl he
  · rw [hdeep]
    exact .inr ⟨rfl, hlt⟩

namespace Settings

/-- What stands at a key, or what stands for it if it is missing. -/
private theorem isDataUpTo_getD {w : Value} {key : String} (h : IsDataUpTo n (.mapping m))
    (hw : IsDataUpTo n w) : IsDataUpTo n ((m.get? key).getD w) := by
  cases hget : m.get? key with
  | none => exact hw
  | some v => exact h.of_get? hget

private theorem isDataUpTo_of_sectionOf {name : String} {entries : Mapping}
    (h : IsDataUpTo n (.mapping m)) (hsection : sectionOf m name = .ok entries) :
    IsDataUpTo n (.mapping entries) := by
  obtain hfound | ⟨rfl, -⟩ := sectionOf_cases hsection
  · exact h.of_get? hfound
  · exact h.emptyMapping

/-- The numbers of a peer are data. -/
private def NumbersUpTo (n : Nat) (p : Peer) : Prop :=
  ∀ f ∈ p.asnFields ++ p.countFields, IsDataUpTo n f.2

private theorem numbersUpTo_ofMapping (h : IsDataUpTo n (.mapping m)) :
    NumbersUpTo n (Peer.ofMapping m) := by
  have hzero : IsDataUpTo n (.int 0) := h.of_levels_eq_one (.int (by decide +kernel)) rfl
  have halias : IsDataUpTo n ((Peer.alias? m "local_asn" "asn").getD (.int 0)) := by
    unfold Peer.alias?
    split
    · rename_i v hget
      exact h.of_get? hget
    · exact isDataUpTo_getD h hzero
  intro f hf
  simp only [Peer.asnFields, Peer.countFields, Peer.ofMapping, List.cons_append, List.nil_append,
    List.mem_cons, List.not_mem_nil, or_false] at hf
  obtain rfl | rfl | rfl | rfl | rfl := hf
  · exact halias
  all_goals exact isDataUpTo_getD h hzero

private theorem numbersUpTo_of_peersOf (h : IsDataUpTo n (.mapping m)) {peers : List Peer}
    (hpeers : peersOf m = .ok peers) : ∀ p ∈ peers, NumbersUpTo n p := by
  intro p hp
  obtain ⟨items, hitems, hmade⟩ | ⟨-, hmade⟩ | ⟨w, -, -, -, hmade⟩ := peersOf_cases m
  · obtain ⟨w, hw, hentry⟩ := exists_of_mem_mapM (hmade.symm.trans hpeers) hp
    obtain ⟨entries, rfl, rfl⟩ := peerOfEntry_ok hentry
    exact numbersUpTo_ofMapping ((h.of_get? hitems).of_mem hw)
  · obtain rfl := Except.ok.inj (hmade.symm.trans hpeers)
    cases hp
  · cases hmade.symm.trans hpeers

/-- The number for which a peer is not admitted, or null if it is the address. -/
private theorem isDataUpTo_offending {p : Peer} (hn : 0 < n) (h : NumbersUpTo n p) :
    IsDataUpTo n ((p.offending?.map Prod.snd).getD .null) := by
  cases hoffending : p.offending? with
  | none => exact ⟨.null, hn⟩
  | some f =>
    refine h f ?_
    obtain ⟨_, -, hbad⟩ := Option.bind_eq_some_iff.mp hoffending
    rw [Option.orElse_eq_orElse, Option.orElse_eq_or, Option.or_eq_some_iff] at hbad
    rw [List.mem_append]
    obtain hasn | ⟨-, hcount⟩ := hbad
    · exact .inl (List.mem_of_find?_eq_some hasn)
    · exact .inr (List.mem_of_find?_eq_some hcount)

/-- What is wrong with a peer is said by an error that shows one of its numbers at most. -/
private theorem isTold_of_checkPeers {peers : List Peer} {seen : List String} (hn : 0 < n)
    (h : ∀ p ∈ peers, NumbersUpTo n p) (hcheck : checkPeers seen peers = .error e) :
    IsTold n e := by
  induction peers generalizing seen with
  | nil => cases hcheck
  | cons p rest ih =>
    rw [checkPeers] at hcheck
    split at hcheck
    · obtain rfl := Except.error.inj hcheck
      exact isTold_showing (isDataUpTo_offending hn (h p List.mem_cons_self)) rfl
    · split_ifs at hcheck with hseen
      · obtain rfl := Except.error.inj hcheck
        exact .inl rfl
      · exact ih (fun q hq => h q (List.mem_cons_of_mem p hq)) hcheck

private theorem isTold_of_validate (hrouter : IsDataUpTo n s.routerAsn)
    (hpeers : ∀ p ∈ s.peers, NumbersUpTo n p) (hvalidate : s.validate = .error e) :
    IsTold n e := by
  have hn : 0 < n := Nat.lt_of_lt_of_le (levels_pos _) hrouter.levels_le
  unfold validate at hvalidate
  split_ifs at hvalidate
  · obtain rfl := Except.error.inj hvalidate
    exact .inl rfl
  · obtain rfl := Except.error.inj hvalidate
    exact .inl rfl
  · obtain rfl := Except.error.inj hvalidate
    exact isTold_showing hrouter rfl
  · obtain rfl := Except.error.inj hvalidate
    exact .inl rfl
  · exact isTold_of_checkPeers hn hpeers hvalidate

/-- What may be shown is a part of the document. -/
private theorem isDataUpTo_of_mayShow {w : Value} (h : IsDataUpTo n v) (hw : v.MayShow w) :
    IsDataUpTo n w := by
  cases hw with
  | delay hsection hw => exact (h.of_get? hsection).of_get? hw
  | level hsection hw => exact (h.of_get? hsection).of_get? hw
  | entry hpeers hw => exact (h.of_get? hpeers).of_mem hw

private theorem isTold_of_ofDocument (h : IsDataUpTo n v) (herror : ofDocument v = .error e) :
    IsTold n e ∨ e = .duration .tooLarge ∧ v.GivesVastDelay := by
  obtain hconfig | hstopped := ofDocument_error herror
  · exact .inl (.inl hconfig)
  · cases hstopped with
    | vast hvast => exact .inr ⟨rfl, hvast⟩
    | hidden hw hf =>
      obtain hnone | ⟨hdeep, hlt⟩ := (isDataUpTo_of_mayShow h hw).textFault?
      · cases hnone.symm.trans hf
      · obtain rfl := Option.some.inj (hdeep.symm.trans hf)
        exact .inl (.inr ⟨rfl, hlt⟩)

/-- Settings that are made of data hold data. -/
private theorem isDataUpTo_of_ofDocument (h : IsDataUpTo n v) (hs : ofDocument v = .ok s) :
    IsDataUpTo n s.routerAsn ∧ ∀ p ∈ s.peers, NumbersUpTo n p := by
  obtain ⟨m, hs, hroot⟩ := exists_of_ofDocument hs
  have hm : IsDataUpTo n (.mapping m) := by
    obtain rfl | rfl := hroot
    · exact h
    · exact h.emptyMapping
  have hrouter : IsDataUpTo n RunningConfig.usualRouterAsn :=
    h.of_levels_eq_one (.int (by decide +kernel)) rfl
  obtain ⟨simulation, logging, hsimulation, -, -, -, hpeers, -, hasn, -⟩ := exists_of_ofMapping hs
  rw [hasn]
  exact ⟨isDataUpTo_getD (isDataUpTo_of_sectionOf hm hsimulation) hrouter,
    numbersUpTo_of_peersOf hm hpeers⟩

/-- What is wrong with a document of data. -/
private theorem isTold_of_admitted (h : IsDataUpTo n v) (herror : admitted v = .error e) :
    IsTold n e ∨ e = .duration .tooLarge ∧ v.GivesVastDelay := by
  obtain hmade | ⟨s, hs, herror⟩ := exists_of_bind_error herror
  · exact isTold_of_ofDocument h hmade
  · obtain ⟨hrouter, hpeers⟩ := isDataUpTo_of_ofDocument h hs
    obtain hvalidate | ⟨_, -, hdone⟩ := exists_of_bind_error herror
    · exact .inl (isTold_of_validate hrouter hpeers hvalidate)
    · cases hdone

/-- An integer that is too large for the delay stops everything that comes after it. -/
theorem admitted_of_givesVastDelay (h : v.GivesVastDelay) :
    admitted v = .error (.duration .tooLarge) := by
  obtain ⟨m, simulation, k, rfl, hfound, hget, hvast, hother⟩ := h
  have hsimulation := sectionOf_of_mapping hfound
  obtain ⟨logging, hlogging⟩ := exists_sectionOf hother
  have hdelay := delayOf_eq_tooLarge hget hvast
  have hmade : ofMapping m = .error (.duration .tooLarge) := by
    rw [ofMapping, hsimulation, hlogging]
    change (delayOf simulation).bind _ = _
    rw [hdelay]
    rfl
  unfold admitted
  rw [ofDocument_mapping, hmade]
  rfl

end Settings

end Errors

namespace CommandLine

variable {v : Value} {e : SettingsError} {args : List String} {files : FileAccess} {p : Path}

/-- The command finds the document in the file of settings that its arguments name. -/
structure FindsDocument (args : List String) (files : FileAccess) (p : Path) (v : Value) :
    Prop where
  /-- The arguments name the file. -/
  named : ∃ a path, Arguments.parse args = .ok a ∧ a.config = some path ∧ path ≠ "" ∧
    Path.parse path = p
  /-- The file holds the document. -/
  found : ∃ bytes, files.read p = .ok bytes ∧ Yaml.valueOf (.ofBytes bytes) = .ok v

/-- What is loaded from the file is made of the document. -/
private theorem FindsDocument.load_eq (h : FindsDocument args files p v) :
    Settings.load files.read p = (Settings.admitted v).mapError .settings := by
  obtain ⟨bytes, hread, hbytes⟩ := h.found
  have hmade : Settings.ofBytes bytes = (Settings.ofDocument v).mapError .settings := by
    unfold Settings.ofBytes
    rw [hbytes]
    rfl
  unfold Settings.load Settings.admitted
  rw [hread]
  change (Settings.ofBytes bytes).bind _ = _
  rw [hmade]
  cases Settings.ofDocument v with
  | error e => rfl
  | ok s =>
    change (s.validate.mapError SettingsFileError.settings).bind _ =
      (s.validate.bind _).mapError SettingsFileError.settings
    cases s.validate with
    | error e => rfl
    | ok u => rfl

/-- Errors of configuration are reported. -/
private theorem not_isUnexpected (h : e.isConfigError = true) :
    (StartError.file (.settings e)).isUnexpected = false := by
  cases e with
  | duration err =>
    cases err with
    | invalid v => rfl
    | tooLarge => cases h
  | hidden f => cases h
  | _ => rfl

/-- The command ends at the start where there is an error in the document. -/
private theorem FindsDocument.run_eq (h : FindsDocument args files p v)
    (herror : Settings.admitted v = .error e) :
    run args files = if (StartError.file (.settings e)).isUnexpected = true then
      .badStart (.file (.settings e))
      else .done { status := 1, errors := ["Error: " ++ e.message] } := by
  have hload := h.load_eq
  obtain ⟨a, path, hargs, hconfig, hpath, rfl⟩ := h.named
  have hfile : settingsInFile a files.read = .error (.file (.settings e)) := by
    unfold settingsInFile
    rw [hconfig]
    split
    · cases ‹some path = none›
    · exact absurd (Option.some.inj ‹some path = some ""›) hpath
    · rename_i found _ hfound
      obtain rfl := Option.some.inj hfound
      rw [hload, herror]
      rfl
  have hsettings : settingsFor a files.read = .error (.file (.settings e)) := by
    unfold settingsFor
    rw [hfile]
    rfl
  unfold run
  rw [hargs]
  simp only [hsettings]
  rfl

/-- What becomes of a document of data: settings are made of it, or it is refused by an error of
configuration, unless the delay is an integer that is too large for a double or too many values
stand one inside of the other. The command that finds the document in its file prints an error of
configuration and ends with status 1, and fails with any other. -/
theorem outcome_of_document (hv : v.IsData) :
    (Settings.admitted v = .error (.duration .tooLarge) ↔ v.GivesVastDelay) ∧
      ((∃ s, Settings.admitted v = .ok s) ∨ ∃ e, Settings.admitted v = .error e ∧
        (e.isConfigError = true ∨ e = .duration .tooLarge ∧ v.GivesVastDelay ∨
          e = .hidden .tooDeep ∧ textRoom < v.levels)) ∧
      ∀ args files p, FindsDocument args files p v →
        Settings.load files.read p = (Settings.admitted v).mapError .settings ∧
        ∀ e, Settings.admitted v = .error e → run args files =
          if e.isConfigError = true then .done { status := 1, errors := ["Error: " ++ e.message] }
          else .badStart (.file (.settings e)) := by
  have hdata : IsDataUpTo v.levels v := ⟨hv, Nat.le_refl _⟩
  refine ⟨⟨fun hvast => ?_, Settings.admitted_of_givesVastDelay⟩, ?_, ?_⟩
  · obtain (hfalse | ⟨hfalse, -⟩) | ⟨-, hgives⟩ := Settings.isTold_of_admitted hdata hvast
    · cases hfalse
    · cases hfalse
    · exact hgives
  · cases hadmitted : Settings.admitted v with
    | ok s => exact .inl ⟨s, rfl⟩
    | error e =>
      obtain (hconfig | hdeep) | hvast := Settings.isTold_of_admitted hdata hadmitted
      · exact .inr ⟨e, rfl, .inl hconfig⟩
      · exact .inr ⟨e, rfl, .inr (.inr hdeep)⟩
      · exact .inr ⟨e, rfl, .inr (.inl hvast)⟩
  · intro args files p hfinds
    refine ⟨hfinds.load_eq, fun e hadmitted => ?_⟩
    have hrun := hfinds.run_eq hadmitted
    obtain (hconfig | ⟨rfl, -⟩) | ⟨rfl, -⟩ := Settings.isTold_of_admitted hdata hadmitted
    · rw [if_neg (by simp [not_isUnexpected hconfig])] at hrun
      rw [if_pos hconfig, hrun]
    · exact hrun
    · exact hrun

/-- Every path leads to the same file. -/
private def sameFile (bytes : Bytes) : FileAccess where
  read _ := .ok bytes
  prepare _ _ := .error .missing

/-- A text in the place of a mapping is reported. -/
theorem outcome_of_document_text :
    run ["--config", "c.yaml"] (sameFile "a".toUTF8.toList) =
      .done { status := 1, errors := ["Error: configuration root must be a mapping"] } := by
  have hparse : (Arguments.parse ["--config", "c.yaml"]).toOption.map Arguments.config =
      some (some "c.yaml") := by decide +kernel
  obtain ⟨a, ha, hconfig⟩ := Option.map_eq_some_iff.mp hparse
  have hyaml : (Yaml.valueOf (.ofBytes "a".toUTF8.toList)).toOption.any (Value.text "a").eqv =
      true := by decide +kernel
  obtain ⟨v, hv, htext⟩ := (Option.any_eq_true _ _).mp hyaml
  obtain rfl := Value.text_eqv_iff.mp htext
  have hfinds : FindsDocument ["--config", "c.yaml"] (sameFile "a".toUTF8.toList)
      (Path.parse "c.yaml") (.text "a") :=
    ⟨⟨a, "c.yaml", eq_ok_of_toOption ha, hconfig, by decide, rfl⟩, ⟨_, rfl, eq_ok_of_toOption hv⟩⟩
  exact ((outcome_of_document (.text "a")).2.2 _ _ _ hfinds).2 .rootShape rfl

end CommandLine

namespace Settings

/-- An integer that is too large for a double and not too long to be written. -/
def vastDelay : Int := (Nat.pow 10 400 : Nat)

/-- A document with a vast delay. -/
def vastDelayDocument : Value :=
  .mapping [(.text "simulation", .mapping [(.text "session_state_delay", .int vastDelay)])]

/-- A vast delay is neither accepted nor refused by an error of configuration. -/
theorem not_told_vastDelay : vastDelayDocument.IsData ∧
    ¬((∃ s, admitted vastDelayDocument = .ok s) ∨
      ∃ e, admitted vastDelayDocument = .error e ∧ e.isConfigError = true) := by
  have hwritable : isWritable vastDelay = true := by decide +kernel
  have hvast : floatLimit ≤ vastDelay.natAbs := by decide +kernel
  have hadmitted : admitted vastDelayDocument = .error (.duration .tooLarge) :=
    admitted_of_givesVastDelay ⟨_, _, _, rfl, rfl, rfl, hvast, fun w hw => by cases hw⟩
  constructor
  · have hsection : IsData (.mapping [(.text "session_state_delay", .int vastDelay)]) :=
      .mapping (by simp [IsData.text]) (by simp [IsData.int hwritable])
    exact .mapping (by simp [IsData.text]) (by simp [hsection])
  · rintro (⟨s, hs⟩ | ⟨e, he, hconfigError⟩)
    · cases hadmitted.symm.trans hs
    · obtain rfl := Except.error.inj (hadmitted.symm.trans he)
      cases hconfigError

end Settings

end Peering
