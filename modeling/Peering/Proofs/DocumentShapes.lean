import Peering.Proofs.DocumentParts

/-!
# The shape of a document

A document is a mapping of two sections, which are mappings too, and a list of peers, each of them a
mapping. This file shows that a value of another shape in one of these places is refused if it
counts as true, or is an entry of the peers, and that it counts as empty otherwise.
-/

namespace Peering

/-- A part of a document. -/
inductive Part where
  | simulation
  | logging
  | peers

namespace Part

/-- The key at which the part stands. -/
def name : Part → String
  | simulation => "simulation"
  | logging => "logging"
  | peers => "peers"

/-- The part if there is nothing in it. -/
def empty : Part → Value
  | simulation | logging => .mapping []
  | peers => .list []

/-- Different parts of a document have different names. -/
theorem name_ne_name {part other : Part} (h : other ≠ part) : other.name ≠ part.name := by
  cases part <;> cases other <;> first | exact absurd rfl h | decide

end Part

/-- A place of a document. -/
inductive Place where
  | root
  | part (part : Part)
  | entry

namespace Place

/-- What stands at a place of a document. Entries of the peers stand in a list. -/
inductive Holds : Place → Value → Value → Prop where
  | root (v : Value) : Holds root v v
  | part {part : Part} {m : Mapping} {w : Value} (hget : m.get? part.name = some w) :
    Holds (.part part) (.mapping m) w
  | entry {m : Mapping} {items : List Value} {w : Value}
    (hpeers : m.get? "peers" = some (.list items)) (hw : w ∈ items) : Holds entry (.mapping m) w

/-- What stands at a place is the document itself or stands in a mapping. -/
theorem Holds.root_or_mapping {place : Place} {v w : Value} (h : place.Holds v w) :
    place = .root ∧ w = v ∨ ∃ m, v = .mapping m := by
  cases h with
  | root => exact .inl ⟨rfl, rfl⟩
  | part => exact .inr ⟨_, rfl⟩
  | entry => exact .inr ⟨_, rfl⟩

/-- A value has the shape that is right at the place: nothing may stand for a mapping or for the
list, and an entry is a mapping. -/
def Fits : Place → Value → Prop
  | root, w | part .simulation, w | part .logging, w => w = .null ∨ ∃ m, w = .mapping m
  | part .peers, w => w = .null ∨ ∃ items, w = .list items
  | entry, w => ∃ m, w = .mapping m

/-- A value is looked at, as it counts as true or is an entry. -/
def Regards (place : Place) (w : Value) : Prop := w.isTruthy = true ∨ place = entry

/-- What an error says of a value that does not fit. -/
def complaint (w : Value) : Place → SettingsError
  | root => .rootShape
  | part .simulation => .sectionShape "simulation"
  | part .logging => .sectionShape "logging"
  | part .peers => .peersShape
  | entry => .entryShape w

end Place

/-- The error says that a value has the wrong shape. -/
def SettingsError.isShape : SettingsError → Bool
  | .rootShape | .sectionShape _ | .peersShape | .entryShape _ => true
  | _ => false

namespace Settings

variable {m m' : Mapping} {v w : Value} {e : SettingsError} {name : String} {place : Place}

/-- What counts as the content of a part. -/
private def contentOf (m : Mapping) (part : Part) : Value :=
  ((m.get? part.name).getD .null).orElse part.empty

private theorem contentOf_of_falsy {part : Part}
    (h : ∀ w, m.get? part.name = some w → w.isTruthy = false) : contentOf m part = part.empty := by
  have hfalse : ((m.get? part.name).getD .null).isTruthy = false := by
    cases hget : m.get? part.name with
    | none => rfl
    | some w => exact h w hget
  unfold contentOf Value.orElse
  rw [hfalse]
  rfl

/-- Settings only depend on the contents of the parts. -/
private theorem ofMapping_congr (h : ∀ part, contentOf m part = contentOf m' part) :
    ofMapping m = ofMapping m' := by
  have hsection (name : String) (hcontent : ((m.get? name).getD .null).orElse (.mapping []) =
      ((m'.get? name).getD .null).orElse (.mapping [])) : sectionOf m name = sectionOf m' name := by
    unfold sectionOf
    rw [hcontent]
  have hpeers : peersOf m = peersOf m' := by
    have hcontent : ((m.get? "peers").getD .null).orElse (.list []) =
        ((m'.get? "peers").getD .null).orElse (.list []) := h .peers
    unfold peersOf
    rw [hcontent]
  unfold ofMapping
  rw [hsection "simulation" (h .simulation), hsection "logging" (h .logging), hpeers]

/-- A part that does not count as true is like an empty one. -/
theorem ofMapping_of_falsy {part : Part}
    (h : ∀ w, m.get? part.name = some w → w.isTruthy = false) :
    ofMapping m = ofMapping (m.set (.text part.name) part.empty) := by
  refine ofMapping_congr fun other => ?_
  by_cases hother : other = part
  · subst hother
    rw [contentOf_of_falsy h, contentOf, Mapping.get?_set_self]
    cases other <;> rfl
  · unfold contentOf
    rw [Mapping.get?_set_of_ne (Part.name_ne_name hother)]

section Refusals

/-- Sections that are made use of fit. -/
private theorem fits_of_sections {simulation logging : Mapping}
    (hsimulation : sectionOf m "simulation" = .ok simulation)
    (hlogging : sectionOf m "logging" = .ok logging)
    (hplace : ¬(place = .part .peers ∨ place = .entry)) (hholds : place.Holds (.mapping m) w)
    (hregards : place.Regards w) : place.Fits w := by
  cases hholds with
  | root => exact .inr ⟨m, rfl⟩
  | @part part _ _ hget =>
    have htrue := hregards.resolve_right nofun
    cases part with
    | simulation => exact .inr ⟨simulation, eq_of_sectionOf hsimulation hget htrue⟩
    | logging => exact .inr ⟨logging, eq_of_sectionOf hlogging hget htrue⟩
    | peers => exact absurd (.inl rfl) hplace
  | entry => exact absurd (.inr rfl) hplace

/-- Peers that are made use of fit. -/
private theorem fits_of_peersOf {peers : List Peer} (hpeers : peersOf m = .ok peers)
    (hplace : place = .part .peers ∨ place = .entry) (hholds : place.Holds (.mapping m) w)
    (hregards : place.Regards w) : place.Fits w := by
  obtain ⟨items, hitems, hmade⟩ | ⟨hfalse, -⟩ | ⟨_, -, -, -, hmade⟩ := peersOf_cases m
  · cases hholds with
    | root => simp at hplace
    | part hget =>
      obtain rfl : _ = Part.peers := by simpa using hplace
      exact .inr ⟨items, Option.some.inj (hget.symm.trans hitems)⟩
    | entry hget hw =>
      obtain rfl := Value.list.inj (Option.some.inj (hget.symm.trans hitems))
      obtain ⟨p, hp⟩ := exists_of_mapM_ok (hmade.symm.trans hpeers) w hw
      obtain ⟨entries, rfl, -⟩ := peerOfEntry_ok hp
      exact ⟨entries, rfl⟩
  · cases hholds with
    | root => simp at hplace
    | part hget =>
      obtain rfl : _ = Part.peers := by simpa using hplace
      obtain htrue | hentry := hregards
      · exact absurd htrue (Bool.eq_false_iff.mp (hfalse w hget))
      · cases hentry
    | entry hget hw =>
      cases hw with
      | head rest => cases hfalse _ hget
      | tail first hw => cases hfalse _ hget
  · cases hmade.symm.trans hpeers

/-- What is regarded fits if settings are made. -/
private theorem fits_of_ofDocument {s : Settings} (h : ofDocument v = .ok s)
    (hholds : place.Holds v w) (hregards : place.Regards w) : place.Fits w := by
  obtain ⟨rfl, rfl⟩ | ⟨m, rfl⟩ := hholds.root_or_mapping
  · obtain hmapping | hfalse | ⟨-, -, hroot⟩ := ofDocument_cases w
    · exact .inr hmapping
    · exact absurd (hregards.resolve_right nofun) (Bool.eq_false_iff.mp hfalse)
    · cases hroot.symm.trans h
  · rw [ofDocument_mapping] at h
    obtain ⟨simulation, logging, hsimulation, hlogging, -, -, hpeers, -⟩ := exists_of_ofMapping h
    by_cases hplace : place = .part .peers ∨ place = .entry
    · exact fits_of_peersOf hpeers hplace hholds hregards
    · exact fits_of_sections hsimulation hlogging hplace hholds hregards

/-- At the root and in the sections, what is refused is refused with an error of configuration. -/
private theorem isConfigError_of_not_fits (h : ofDocument v = .error e)
    (hplace : ¬(place = .part .peers ∨ place = .entry)) (hholds : place.Holds v w)
    (hfits : ¬place.Fits w) (hregards : place.Regards w) : e.isConfigError = true := by
  obtain ⟨rfl, rfl⟩ | ⟨m, rfl⟩ := hholds.root_or_mapping
  · obtain hmapping | hfalse | ⟨-, -, hroot⟩ := ofDocument_cases w
    · exact absurd (.inr hmapping) hfits
    · exact absurd (hregards.resolve_right nofun) (Bool.eq_false_iff.mp hfalse)
    · obtain rfl := Except.error.inj (hroot.symm.trans h)
      rfl
  · rw [ofDocument_mapping] at h
    obtain h | h | ⟨simulation, logging, hsimulation, hlogging, -⟩ := exists_of_ofMapping_error h
    · rw [(sectionOf_error h).1]
      rfl
    · rw [(sectionOf_error h).1]
      rfl
    · exact absurd (fits_of_sections hsimulation hlogging hplace hholds hregards) hfits

/-- An error about a shape that shows a value is shown as it should be. -/
private theorem showing_of_isShape (h : (SettingsError.showing w e).isShape = true) :
    SettingsError.showing w e = e := by
  obtain heq | ⟨f, -, heq⟩ := showing_cases w e
  · exact heq
  · rw [heq] at h
    cases h

/-- What counts as true and has another shape does not fit, as it is not null. -/
private theorem not_null_or {p : Prop} (htrue : w.isTruthy = true) (hother : ¬p) :
    ¬(w = .null ∨ p) := by
  rintro (rfl | hp)
  · cases htrue
  · exact hother hp

private theorem exists_of_isShape_mapping (h : ofMapping m = .error e) (hshape : e.isShape = true) :
    ∃ (place : Place) (w : Value), place.Holds (.mapping m) w ∧ ¬place.Fits w ∧ place.Regards w ∧
      e = place.complaint w := by
  obtain h | h | ⟨simulation, logging, -, -, hdelay | hlevel | hpeers⟩ :=
    exists_of_ofMapping_error h
  · obtain ⟨rfl, w, hget, htrue, hother⟩ := sectionOf_error h
    exact ⟨.part .simulation, w, .part hget, not_null_or htrue hother, .inl htrue, rfl⟩
  · obtain ⟨rfl, w, hget, htrue, hother⟩ := sectionOf_error h
    exact ⟨.part .logging, w, .part hget, not_null_or htrue hother, .inl htrue, rfl⟩
  · obtain ⟨w, -, rfl | ⟨rfl, -⟩⟩ := delayOf_error hdelay
    · rw [showing_of_isShape hshape] at hshape
      cases hshape
    · cases hshape
  · obtain ⟨w, f, -, -, rfl⟩ := levelOf_error hlevel
    cases hshape
  · obtain ⟨items, hitems, hmade⟩ | ⟨-, hmade⟩ | ⟨w, hget, htrue, hother, hmade⟩ := peersOf_cases m
    · obtain ⟨w, hw, hentry⟩ := exists_of_mapM_error (hmade.symm.trans hpeers)
      obtain ⟨rfl, hother⟩ := peerOfEntry_error hentry
      exact ⟨.entry, w, .entry hitems hw, hother, .inr rfl, showing_of_isShape hshape⟩
    · cases hmade.symm.trans hpeers
    · obtain rfl := Except.error.inj (hmade.symm.trans hpeers)
      exact ⟨.part .peers, w, .part hget, not_null_or htrue hother, .inl htrue, rfl⟩

/-- Where there is an error about a shape, something does not fit. -/
private theorem exists_of_isShape (h : ofDocument v = .error e) (hshape : e.isShape = true) :
    ∃ (place : Place) (w : Value), place.Holds v w ∧ ¬place.Fits w ∧ place.Regards w ∧
      e = place.complaint w := by
  obtain ⟨m, rfl⟩ | hfalse | ⟨htrue, hother, hroot⟩ := ofDocument_cases v
  · rw [ofDocument_mapping] at h
    exact exists_of_isShape_mapping h hshape
  · rw [ofDocument_of_falsy hfalse] at h
    cases h
  · obtain rfl := Except.error.inj (hroot.symm.trans h)
    exact ⟨.root, v, .root v, not_null_or htrue hother, .inl htrue, rfl⟩

end Refusals

/-- What becomes of values that do not fit. One that counts as true, or is an entry of the peers, is
refused: in the place of the document or of a section with an error of configuration, and otherwise
too, unless settings cannot be made for another reason. One that does not count as true, and a part
that is missing, are like what is empty. An error about a shape is only given where something is
found that does not fit. -/
theorem shapes_of_document (v : Value) :
    (∀ (place : Place) (w : Value), place.Holds v w → ¬place.Fits w → place.Regards w →
      ∃ e, ofDocument v = .error e ∧ (e.isConfigError = true ∨
        (place = .part .peers ∨ place = .entry) ∧ v.IsStoppedBy e)) ∧
      (v.isTruthy = false → ofDocument v = ofDocument (.mapping [])) ∧
      (∀ (m : Mapping) (part : Part), v = .mapping m →
        (∀ w, m.get? part.name = some w → w.isTruthy = false) →
        ofDocument v = ofDocument (.mapping (m.set (.text part.name) part.empty))) ∧
      ∀ e, ofDocument v = .error e → e.isShape = true →
        ∃ (place : Place) (w : Value), place.Holds v w ∧ ¬place.Fits w ∧ place.Regards w ∧
          e = place.complaint w := by
  refine ⟨fun place w hholds hfits hregards => ?_, ofDocument_of_falsy, ?_,
    fun e => exists_of_isShape⟩
  · cases hmade : ofDocument v with
    | ok s => exact absurd (fits_of_ofDocument hmade hholds hregards) hfits
    | error e =>
      refine ⟨e, rfl, ?_⟩
      by_cases hplace : place = .part .peers ∨ place = .entry
      · obtain hconfig | hstopped := ofDocument_error hmade
        · exact .inl hconfig
        · exact .inr ⟨hplace, hstopped⟩
      · exact .inl (isConfigError_of_not_fits hmade hplace hholds hfits hregards)
  · rintro m part rfl hfalse
    rw [ofDocument_mapping, ofDocument_mapping]
    exact ofMapping_of_falsy hfalse

/-- A document in which each value that is no mapping or list does not count as true. -/
def emptyShapesDocument : Value :=
  .mapping [(.text "simulation", .list []), (.text "logging", .bool false),
    (.text "peers", .mapping [])]

/-- Settings are made of documents with empty values of another shape. -/
theorem accepted_emptyShapesDocument :
    ofDocument (.list []) = .ok {} ∧ ofDocument emptyShapesDocument = .ok {} ∧
      ¬Place.root.Fits (.list []) ∧
      ∀ part, ∃ w, (Place.part part).Holds emptyShapesDocument w ∧ ¬(Place.part part).Fits w := by
  refine ⟨rfl, rfl, by simp [Place.Fits], fun part => ?_⟩
  cases part with
  | simulation => exact ⟨.list [], .part rfl, by simp [Place.Fits]⟩
  | logging => exact ⟨.bool false, .part rfl, by simp [Place.Fits]⟩
  | peers => exact ⟨.mapping [], .part rfl, by simp [Place.Fits]⟩

end Settings

end Peering
