import Peering.Proofs.Admission
import Peering.Proofs.ShownValues

/-!
# The first field that is not admitted

Six fields of a peer are checked, one after the other. This file says for each of them what it
admits, and shows that the check of a peer accepts exactly those of which all six fields hold what
they admit. Otherwise the refusal tells the first field that does not, unless its value cannot be
shown. The other fields do not count.
-/

namespace Peering

namespace Peer

/-- A field of a peer that is checked. -/
inductive Field where
  | address
  | localAsn
  | remoteAsn
  | multihop
  | maxPrefixes
  | localPreference
  deriving DecidableEq

namespace Field

/-- The fields in the order in which they are checked. -/
def all : List Field := [address, localAsn, remoteAsn, multihop, maxPrefixes, localPreference]

/-- The name by which a refusal tells the field. -/
def name : Field → String
  | address => "address"
  | localAsn => "local_asn"
  | remoteAsn => "remote_asn"
  | multihop => "multihop"
  | maxPrefixes => "max_prefixes"
  | localPreference => "local_preference"

/-- What the field of a peer holds. -/
def valueIn (p : Peer) : Field → Value
  | address => p.address
  | localAsn => p.localAsn
  | remoteAsn => p.remoteAsn
  | multihop => p.multihop
  | maxPrefixes => p.maxPrefixes
  | localPreference => p.localPreference

/-- The field admits a value: an address is a text in which not all is white space, an AS number
is an integer of four octets other than zero, and a count is an integer from zero on. Truth values
are no integers. -/
def Admits : Field → Value → Prop
  | address, v => ∃ s, v = .text s ∧ ∃ c ∈ s.toList, isBlank c = false
  | localAsn, v | remoteAsn, v => ∃ n, v = .int n ∧ 1 ≤ n ∧ n ≤ 4294967295
  | multihop, v | maxPrefixes, v | localPreference, v => ∃ n, v = .int n ∧ 0 ≤ n

/-- What is written of a value that the field does not admit. -/
def complaint (v : Value) : Field → String
  | address => "peer address is required"
  | f@localAsn | f@remoteAsn => f.name ++ " must be between 1 and 4294967295, got " ++ v.exact
  | f@multihop | f@maxPrefixes | f@localPreference =>
    f.name ++ " must be non-negative, got " ++ v.exact

/-- A refusal tells that a field of a peer is not admitted: it is one of validation, names the field
and gives the address of the peer, unless the address is the field. -/
structure IsTold (f : Field) (p : Peer) (e : EngineError) : Prop where
  kind_eq : e.kind = .validation (.text f.name)
  address_eq : e.address = if f = .address then .null else p.address
  note_eq : e.note = some (f.complaint (f.valueIn p))

end Field

/-- A field is the first one that does not admit what it holds. -/
structure OffendsFirst (p : Peer) (f : Field) : Prop where
  not_admits : ¬f.Admits (f.valueIn p)
  before : ∃ before after, Field.all = before ++ f :: after ∧
    ∀ g ∈ before, g.Admits (g.valueIn p)

namespace Field

variable {f : Field} {p : Peer} {v : Value}

/-- The test by which a field admits a value. -/
def takes : Field → Value → Bool
  | address, .text s => !s.toList.all isBlank
  | address, _ => false
  | localAsn, v | remoteAsn, v => v.isIntIn EngineError.minAsn EngineError.maxAsn
  | multihop, v | maxPrefixes, v | localPreference, v => v.isIntFrom 0

/-- The test decides what the field admits. -/
theorem takes_iff : f.takes v = true ↔ f.Admits v := by
  cases f with
  | address =>
    cases v with
    | text s => simp [takes, Admits]
    | _ => simp [takes, Admits]
  | localAsn | remoteAsn => exact Value.isIntIn_iff
  | multihop | maxPrefixes | localPreference => exact Value.isIntFrom_iff

/-- The refusal for a field of a peer. -/
def refusal (p : Peer) : Field → EngineError
  | address => EngineError.emptyAddress
  | f@localAsn | f@remoteAsn => EngineError.invalidAsn (.text f.name) (f.valueIn p) p.address
  | f@multihop | f@maxPrefixes | f@localPreference =>
    EngineError.negativeValue (.text f.name) (f.valueIn p) p.address

/-- A refusal for a field tells it. -/
theorem isTold_iff {e : EngineError} : f.IsTold p e ↔ e = f.refusal p := by
  constructor
  · rintro ⟨hkind, haddress, hnote⟩
    obtain ⟨kind, note, address⟩ := e
    dsimp only at hkind haddress hnote
    subst hkind haddress hnote
    cases f <;> rfl
  · rintro rfl
    cases f <;> exact ⟨rfl, rfl, rfl⟩

end Field

variable {p q : Peer} {f : Field} {a : String} {e : EngineError} {fault : Value.TextFault}

/-- The first field of several that does not admit what it holds. -/
def firstOf (p : Peer) (fields : List Field) : Option Field :=
  fields.find? fun f => !f.takes (f.valueIn p)

/-- The first field of a peer that does not admit what it holds. -/
def firstOffence? (p : Peer) : Option Field := p.firstOf Field.all

/-- The search finds the first field that does not admit what it holds. -/
theorem firstOffence?_eq_some_iff : p.firstOffence? = some f ↔ p.OffendsFirst f := by
  simp only [firstOffence?, firstOf, List.find?_eq_some_iff_append, Bool.not_eq_true', Bool.not_not,
    Field.takes_iff, ← Bool.not_eq_true]
  constructor
  · rintro ⟨hf, before, after, hall, hbefore⟩
    exact ⟨hf, before, after, hall, hbefore⟩
  · rintro ⟨hf, before, after, hall, hbefore⟩
    exact ⟨hf, before, after, hall, hbefore⟩

/-- The search finds nothing exactly if all fields admit what they hold. -/
theorem firstOffence?_eq_none_iff :
    p.firstOffence? = none ↔ ∀ f : Field, f.Admits (f.valueIn p) := by
  have hmem (f : Field) : f ∈ Field.all := by cases f <;> decide
  simp [firstOffence?, firstOf, Field.takes_iff, hmem]

section Order

/-- The address comes first, then AS numbers, then counts. -/
private theorem firstOffence?_eq : p.firstOffence? =
    if Field.address.takes p.address then
      (p.firstOf [.localAsn, .remoteAsn]).or (p.firstOf [.multihop, .maxPrefixes, .localPreference])
    else some .address := by
  unfold firstOffence? firstOf
  rw [← List.find?_append]
  cases htakes : Field.address.takes p.address <;>
    simp [Field.all, List.find?_cons, Field.valueIn, htakes]

/-- What is found among named values is found among the fields that they are taken from. -/
private theorem find?_named {fields : List Field} {test : Value → Bool}
    (htest : ∀ f ∈ fields, f.takes = test) :
    (fields.map fun f => (f.name, f.valueIn p)).find? (fun f => !test f.2) =
      (p.firstOf fields).map fun f => (f.name, f.valueIn p) := by
  unfold firstOf
  induction fields with
  | nil => rfl
  | cons f rest ih =>
    have hrest := ih fun g hg => htest g (List.mem_cons_of_mem f hg)
    rw [List.map_cons, List.find?_cons, List.find?_cons, htest f List.mem_cons_self, hrest]
    cases test (f.valueIn p) <;> rfl

private theorem badAsn?_eq : p.badAsn? =
    (p.firstOf [.localAsn, .remoteAsn]).map fun f => (f.name, f.valueIn p) := by
  have htest : ∀ f ∈ [Field.localAsn, .remoteAsn],
      f.takes = Value.isIntIn EngineError.minAsn EngineError.maxAsn := by
    simp [funext_iff, Field.takes]
  exact find?_named htest

private theorem badCount?_eq : p.badCount? =
    (p.firstOf [.multihop, .maxPrefixes, .localPreference]).map fun f => (f.name, f.valueIn p) := by
  have htest : ∀ f ∈ [Field.multihop, .maxPrefixes, .localPreference],
      f.takes = Value.isIntFrom 0 := by
    simp [funext_iff, Field.takes]
  exact find?_named htest

private theorem exists_usableAddress?_iff :
    (∃ a, p.usableAddress? = some a) ↔ Field.address.takes p.address = true := by
  simp [usableAddress?_eq_some_iff, Field.takes_iff, Field.Admits]

/-- The check refuses a peer because of the first field that does not admit what it holds. -/
theorem validate_of_offends (h : p.firstOffence? = some f) :
    p.validate = .error (f.refusal p) ∧
      p.offending? = if f = .address then none else some (f.name, f.valueIn p) := by
  have husable := p.exists_usableAddress?_iff
  rw [firstOffence?_eq] at h
  split at h
  · rename_i haddress
    obtain ⟨a, ha⟩ := husable.mpr haddress
    have hmem {fields : List Field} (hf : p.firstOf fields = some f) : f ∈ fields :=
      List.mem_of_find?_eq_some hf
    unfold validate offending?
    rw [badAsn?_eq, badCount?_eq, ha]
    obtain hasn | ⟨hasn, hcount⟩ := Option.or_eq_some_iff.mp h
    · rw [hasn]
      obtain rfl | rfl : f = .localAsn ∨ f = .remoteAsn := by simpa using hmem hasn
      all_goals exact ⟨rfl, rfl⟩
    · rw [hasn, hcount]
      obtain rfl | rfl | rfl : f = .multihop ∨ f = .maxPrefixes ∨ f = .localPreference := by
        simpa using hmem hcount
      all_goals exact ⟨rfl, rfl⟩
  · rename_i haddress
    have hnone : p.usableAddress? = none := by
      cases hfound : p.usableAddress? with
      | none => rfl
      | some a => exact absurd (husable.mp ⟨a, hfound⟩) haddress
    obtain rfl := Option.some.inj h
    unfold validate offending?
    rw [hnone]
    exact ⟨rfl, rfl⟩

end Order

/-- Why a refusal for a field cannot be put into words, if it cannot. It shows the value of the
field, unless the field is the address. -/
def Field.silence? (p : Peer) (f : Field) : Option Value.TextFault :=
  if f = .address then none else (f.valueIn p).textFault?

/-- What cannot be shown of a peer is what cannot be shown of its first offending field. -/
theorem hiddenFault?_of_offends (h : p.OffendsFirst f) : p.hiddenFault? = f.silence? p := by
  unfold hiddenFault? Field.silence?
  rw [(validate_of_offends (firstOffence?_eq_some_iff.mpr h)).2]
  split <;> rfl

/-- The check tells the first offending field, or why it cannot be shown. -/
theorem check_of_offends (h : p.OffendsFirst f) :
    p.check = .error ((f.silence? p).elim (.refused (f.refusal p)) .ofTextFault) := by
  unfold check
  rw [(validate_of_offends (firstOffence?_eq_some_iff.mpr h)).1, hiddenFault?_of_offends h]

/-- Settings are refused for a peer as its check is. -/
theorem checkPeers_of_offends (h : p.OffendsFirst f) (seen : List String) (rest : List Peer) :
    Settings.checkPeers seen (p :: rest) =
      .error ((f.silence? p).elim (.invalidPeer (f.refusal p)) .hidden) := by
  have hshown : ((p.offending?.map Prod.snd).getD .null).textFault? = f.silence? p := by
    rw [← hiddenFault?_of_offends h, hiddenFault?]
    cases p.offending? <;> rfl
  rw [Settings.checkPeers, (validate_of_offends (firstOffence?_eq_some_iff.mpr h)).1,
    ← hshown]
  rfl

/-- A peer is valid if all fields that are checked hold what they admit. -/
theorem isValid_iff_admits : p.IsValid ↔ ∀ f : Field, f.Admits (f.valueIn p) := by
  constructor
  · rintro ⟨⟨s, hs, hblank⟩, hasn, hcount⟩ f
    cases f with
    | address => exact ⟨s, hs, by simpa using hblank⟩
    | localAsn => exact hasn ("local_asn", p.localAsn) (by simp [asnFields])
    | remoteAsn => exact hasn ("remote_asn", p.remoteAsn) (by simp [asnFields])
    | multihop => exact hcount ("multihop", p.multihop) (by simp [countFields])
    | maxPrefixes => exact hcount ("max_prefixes", p.maxPrefixes) (by simp [countFields])
    | localPreference =>
      exact hcount ("local_preference", p.localPreference) (by simp [countFields])
  · intro h
    constructor
    case address_text =>
      obtain ⟨s, hs, hblank⟩ := h .address
      exact ⟨s, hs, by simpa using hblank⟩
    case asn_range =>
      intro g hg
      obtain rfl | rfl : g = ("local_asn", p.localAsn) ∨ g = ("remote_asn", p.remoteAsn) := by
        simpa [asnFields] using hg
      · exact h .localAsn
      · exact h .remoteAsn
    case count_nonneg =>
      intro g hg
      obtain rfl | rfl | rfl : g = ("multihop", p.multihop) ∨
          g = ("max_prefixes", p.maxPrefixes) ∨ g = ("local_preference", p.localPreference) := by
        simpa [countFields] using hg
      · exact h .multihop
      · exact h .maxPrefixes
      · exact h .localPreference

/-- There is one first offending field only. -/
theorem OffendsFirst.unique {g : Field} (hf : p.OffendsFirst f) (hg : p.OffendsFirst g) : g = f :=
  Option.some.inj
    ((firstOffence?_eq_some_iff.mpr hg).symm.trans (firstOffence?_eq_some_iff.mpr hf))

/-- Where a field does not admit what it holds, there is a first one. -/
theorem exists_offendsFirst (h : ∃ f : Field, ¬f.Admits (f.valueIn p)) : ∃ f, p.OffendsFirst f := by
  cases hfirst : p.firstOffence? with
  | none =>
    obtain ⟨f, hf⟩ := h
    exact absurd (firstOffence?_eq_none_iff.mp hfirst f) hf
  | some f => exact ⟨f, firstOffence?_eq_some_iff.mp hfirst⟩

/-- The check only looks at the six fields. -/
theorem check_congr (hsame : ∀ f : Field, f.valueIn q = f.valueIn p) : q.check = p.check := by
  obtain ⟨address, localAsn, remoteAsn⟩ := p
  obtain ⟨address', localAsn', remoteAsn'⟩ := q
  obtain rfl : address' = address := hsame .address
  obtain rfl : localAsn' = localAsn := hsame .localAsn
  obtain rfl : remoteAsn' = remoteAsn := hsame .remoteAsn
  obtain rfl := hsame .multihop
  obtain rfl := hsame .maxPrefixes
  obtain rfl := hsame .localPreference
  rfl

/-- A value of which no integer is too long is only kept back if too many values stand one inside of
the other in it. -/
theorem Field.silence?_eq (h : (f.valueIn p).HasShortIntegers) : f.silence? p =
    if f ≠ .address ∧ Value.textRoom < (f.valueIn p).levels then some .tooDeep else none := by
  unfold silence?
  by_cases haddress : f = .address
  · rw [if_pos haddress, if_neg fun hdeep => hdeep.1 haddress]
  · rw [if_neg haddress, h.textFault?_eq]
    exact if_congr (and_iff_right haddress).symm rfl rfl

/-- The check accepts a peer if and only if each of the six fields holds what it admits; the result
is the address. Otherwise there is a first field that does not, and the refusal tells it, unless the
value of this field cannot be shown; if no integer in it is too long, this only happens where too
many values stand one inside of the other. Settings with this peer are refused in the same way. No
other field counts. -/
theorem check_tells_first (p : Peer) :
    (∀ a, p.check = .ok a ↔ p.address = .text a ∧ ∀ f : Field, f.Admits (f.valueIn p)) ∧
      ((∃ f : Field, ¬f.Admits (f.valueIn p)) → ∃! f, p.OffendsFirst f) ∧
      (∀ f, p.OffendsFirst f →
        (f.silence? p = none → ∃ e, f.IsTold p e ∧ p.check = .error (.refused e) ∧
          ∀ seen rest, Settings.checkPeers seen (p :: rest) = .error (.invalidPeer e)) ∧
        (∀ fault, f.silence? p = some fault → p.check = .error (.ofTextFault fault) ∧
          ∀ seen rest, Settings.checkPeers seen (p :: rest) = .error (.hidden fault)) ∧
        ((f.valueIn p).HasShortIntegers → f.silence? p =
          if f ≠ .address ∧ Value.textRoom < (f.valueIn p).levels then some .tooDeep else none)) ∧
      ∀ q : Peer, (∀ f : Field, f.valueIn q = f.valueIn p) → q.check = p.check := by
  refine ⟨fun a => ?_, fun h => ?_, fun f hf => ⟨fun hshown => ?_, fun fault hfault => ?_,
    Field.silence?_eq⟩, fun q => check_congr⟩
  · rw [check_eq_ok_iff_validate, validate_eq_ok_iff, isValid_iff_admits, and_comm]
  · obtain ⟨f, hf⟩ := exists_offendsFirst h
    exact ⟨f, hf, fun g hg => hf.unique hg⟩
  · have hcheck := check_of_offends hf
    have hsettings := checkPeers_of_offends hf
    rw [hshown] at hcheck hsettings
    exact ⟨_, Field.isTold_iff.mpr rfl, hcheck, hsettings⟩
  · have hcheck := check_of_offends hf
    have hsettings := checkPeers_of_offends hf
    rw [hfault] at hcheck hsettings
    exact ⟨hcheck, hsettings⟩

/-- A peer with an AS number in a thousand lists. -/
def deepAsnPeer : Peer where
  address := .text "192.0.2.2"
  localAsn := Engine.wrapped 1000
  remoteAsn := .int 65002

/-- The check of this peer fails without a refusal, and so does that of settings with it, though no
integer in its fields is too long. -/
theorem not_refused_deepAsnPeer :
    (∀ f : Field, (f.valueIn deepAsnPeer).HasShortIntegers) ∧ deepAsnPeer.OffendsFirst .localAsn ∧
      deepAsnPeer.check = .error .tooDeep ∧
      Settings.validate { peers := [deepAsnPeer] } = .error (.hidden .tooDeep) := by
  have hwrapped (n : Nat) : (Engine.wrapped n).HasShortIntegers := by
    induction n with
    | zero => exact .int (by decide +kernel)
    | succ n ih => exact .list (by simp [ih])
  have hfirst : deepAsnPeer.OffendsFirst .localAsn := by
    refine ⟨?_, [.address], _, rfl, ?_⟩
    · rintro ⟨n, hn, -⟩
      cases hn
    · intro g hg
      obtain rfl := List.mem_singleton.mp hg
      exact ⟨_, rfl, '1', by decide, by decide⟩
  have hdeep : (Engine.wrapped 1000).textFault? = some .tooDeep := by decide +kernel
  have hsilence : Field.silence? deepAsnPeer .localAsn = some .tooDeep :=
    (if_neg (by decide)).trans hdeep
  have hothers : Settings.validate { peers := [] } = .ok () := eq_ok_of_toOption (by decide +kernel)
  refine ⟨?_, hfirst, ?_, ?_⟩
  · intro f
    cases f with
    | address => exact .text _
    | localAsn => exact hwrapped 1000
    | _ => exact .int (by decide +kernel)
  · rw [check_of_offends hfirst, hsilence]
    rfl
  · calc Settings.validate { peers := [deepAsnPeer] }
      _ = Settings.checkPeers [] [deepAsnPeer] := Settings.validate_eq_checkPeers hothers
      _ = .error (.hidden .tooDeep) := by
        rw [checkPeers_of_offends hfirst, hsilence]
        rfl

end Peer

end Peering
