import Peering.Engine.Change
import Peering.Proofs.MappingKeys

/-!
# The peer that a mapping describes

For each field of a peer there are one or two keys. The field gets what the mapping holds at the
first of them that it has, and a usual value if it has none. Nothing else of the mapping counts. So
the peer does not depend on the order of the entries, and a mapping of its own fields describes the
same peer again.
-/

namespace Peering

/-- A mapping gives what it holds at the first of some keys that it has, or a usual value if it has
none of them. -/
inductive Mapping.Gives (m : Mapping) (usual : Value) : List String → Value → Prop where
  | found {key : String} {rest : List String} {v : Value} (hv : (.text key, v) ∈ m) :
    Gives m usual (key :: rest) v
  | next {key : String} {rest : List String} {v : Value} (hlacks : ∀ w, (.text key, w) ∉ m)
    (hrest : Gives m usual rest v) : Gives m usual (key :: rest) v
  | missing : Gives m usual [] usual

namespace Mapping.Gives

variable {m m' : Mapping} {usual v w : Value} {keys : List String}

/-- The first value found is what the mapping gives. -/
theorem of_findSome? (m : Mapping) (usual : Value) (keys : List String) :
    m.Gives usual keys ((keys.findSome? m.get?).getD usual) := by
  induction keys with
  | nil => exact missing
  | cons key rest ih =>
    rw [List.findSome?_cons]
    cases hget : m.get? key with
    | none => exact next (get?_eq_none_iff.mp hget) ih
    | some v => exact found (mem_of_get? hget)

/-- Where no text is a key twice, one value is given. -/
theorem unique (hm : m.textKeys.Nodup) (hv : m.Gives usual keys v) (hw : m.Gives usual keys w) :
    v = w := by
  induction hv with
  | found hv =>
    cases hw with
    | found hw => exact eq_of_mem hm hv hw
    | next hlacks => exact absurd hv (hlacks _)
  | next hlacks _ ih =>
    cases hw with
    | found hw => exact absurd hw (hlacks _)
    | next _ hw => exact ih hw
  | missing =>
    cases hw
    rfl

/-- Only what a mapping holds at the keys counts. -/
theorem congr (hsame : ∀ key ∈ keys, ∀ x, (.text key, x) ∈ m ↔ (.text key, x) ∈ m')
    (h : m.Gives usual keys v) : m'.Gives usual keys v := by
  induction h with
  | found hv => exact found ((hsame _ List.mem_cons_self _).mp hv)
  | next hlacks _ ih =>
    exact next (fun w hw => hlacks w ((hsame _ List.mem_cons_self w).mpr hw))
      (ih fun key hkey => hsame key (List.mem_cons_of_mem _ hkey))
  | missing => exact missing

end Mapping.Gives

namespace Peer

/-- Where a field of a peer comes from. -/
structure Origin where
  /-- The field. -/
  field : Peer → Value
  /-- The keys at which it is looked for, one after the other. -/
  keys : List String
  /-- The value of the field if none of them is there. -/
  usual : Value

/-- Where all the fields come from, apart from the two times. -/
def origins : List Origin := [
  ⟨address, ["address", "ip_address"], .text ""⟩,
  ⟨localAsn, ["local_asn", "asn"], .int 0⟩,
  ⟨remoteAsn, ["remote_asn"], .int 0⟩,
  ⟨password, ["password"], .null⟩,
  ⟨multihop, ["multihop"], .int 0⟩,
  ⟨updateSource, ["update_source"], .null⟩,
  ⟨routeMapIn, ["route_map_in"], .null⟩,
  ⟨routeMapOut, ["route_map_out"], .null⟩,
  ⟨prefixListIn, ["prefix_list_in"], .null⟩,
  ⟨prefixListOut, ["prefix_list_out"], .null⟩,
  ⟨maxPrefixes, ["max_prefixes"], .int 0⟩,
  ⟨localPreference, ["local_preference"], .int 0⟩]

/-- A mapping describes a peer that was neither registered nor updated yet. -/
structure IsDescribedBy (p : Peer) (m : Mapping) : Prop where
  fields : ∀ o ∈ origins, m.Gives o.usual o.keys (o.field p)
  createdAt : p.createdAt = .null
  updatedAt : p.updatedAt = .null

variable {p q : Peer} {m m' : Mapping}

/-- Peers that agree in all their fields are the same. -/
theorem eq_of_origins (hfields : ∀ o ∈ origins, o.field p = o.field q)
    (hcreated : p.createdAt = q.createdAt) (hupdated : p.updatedAt = q.updatedAt) : p = q := by
  obtain ⟨⟩ := p
  obtain ⟨⟩ := q
  simp_all [origins]

/-- A value under either of two names is the first one found at them. -/
theorem alias?_eq (m : Mapping) (key other : String) :
    alias? m key other = [key, other].findSome? m.get? := by
  unfold alias?
  cases hkey : m.get? key with
  | none => cases hother : m.get? other <;> simp [hkey, hother]
  | some v => simp [hkey]

/-- A field is made of the first value found at its keys. -/
theorem field_ofMapping (m : Mapping) :
    ∀ o ∈ origins, o.field (ofMapping m) = (o.keys.findSome? m.get?).getD o.usual := by
  simp [origins, ofMapping, addressIn?, alias?_eq]

/-- A mapping describes the peer made of it. -/
theorem isDescribedBy_ofMapping (m : Mapping) : (ofMapping m).IsDescribedBy m where
  fields o ho := field_ofMapping m o ho ▸ .of_findSome? m o.usual o.keys
  createdAt := rfl
  updatedAt := rfl

/-- A mapping without repeated keys describes one peer only. -/
theorem IsDescribedBy.eq_ofMapping (hm : m.textKeys.Nodup) (h : p.IsDescribedBy m) :
    p = ofMapping m :=
  eq_of_origins (fun o ho => (h.fields o ho).unique hm ((isDescribedBy_ofMapping m).fields o ho))
    h.createdAt h.updatedAt

/-- Only the entries at the keys of fields count. -/
theorem IsDescribedBy.congr
    (hsame : ∀ o ∈ origins, ∀ key ∈ o.keys, ∀ v, (.text key, v) ∈ m ↔ (.text key, v) ∈ m')
    (h : p.IsDescribedBy m) : p.IsDescribedBy m' where
  fields o ho := (h.fields o ho).congr (hsame o ho)
  createdAt := h.createdAt
  updatedAt := h.updatedAt

/-- A peer comes back from its mapping without its times. -/
theorem ofMapping_toMapping (p : Peer) :
    ofMapping p.toMapping = { p with createdAt := .null, updatedAt := .null } := rfl

/-- The address of a request is that of the peer made of the mapping. -/
theorem address_mapping (h : m.contains "address" ∨ m.contains "ip_address") :
    (PeerInput.mapping m).address = (ofMapping m).address := by
  have hfound : (addressIn? m).isSome := by
    unfold addressIn? alias?
    unfold Mapping.contains at h
    cases hkey : m.get? "address" with
    | none => simpa [hkey] using h
    | some v => rfl
  obtain ⟨v, hv⟩ := Option.isSome_iff_exists.mp hfound
  change (addressIn? m).getD .null = (addressIn? m).getD (.text "")
  rw [hv]
  rfl

/-- A mapping with an address is taken like the peer that it describes. -/
theorem requests_mapping (h : m.contains "address" ∨ m.contains "ip_address") (e : Engine)
    (now : Float) :
    e.addPeer (.mapping m) now = e.addPeer (.record (ofMapping m)) now ∧
      e.updatePeer (.mapping m) now = e.updatePeer (.record (ofMapping m)) now := by
  constructor
  · unfold Engine.addPeer
    rw [address_mapping h]
    rfl
  · unfold Engine.updatePeer
    rw [address_mapping h]
    rfl

/-- A mapping describes one peer, whatever it holds: each field is what the mapping gives at the
keys of the field, and other entries and the order do not count. A peer comes back from the mapping
of its own fields, without its times, so a mapping of the fields of the described peer describes it
again. If there is an address, the engine reports and refuses the mapping with the address of the
peer and does the same as for the peer. -/
theorem ofMapping_normalizes (hm : m.textKeys.Nodup) :
    (∀ p, ofMapping m = p ↔ p.IsDescribedBy m) ∧
      (∀ m' : Mapping,
        (∀ o ∈ origins, ∀ key ∈ o.keys, ∀ v, (.text key, v) ∈ m' ↔ (.text key, v) ∈ m) →
          ofMapping m' = ofMapping m) ∧
      (∀ p : Peer, ofMapping p.toMapping = { p with createdAt := .null, updatedAt := .null }) ∧
      ofMapping (ofMapping m).toMapping = ofMapping m ∧
      (m.contains "address" ∨ m.contains "ip_address" →
        (PeerInput.mapping m).address = (ofMapping m).address ∧
        ∀ (e : Engine) (now : Float),
          e.addPeer (.mapping m) now = e.addPeer (.record (ofMapping m)) now ∧
            e.updatePeer (.mapping m) now = e.updatePeer (.record (ofMapping m)) now) := by
  refine ⟨fun p => ⟨?_, fun h => (h.eq_ofMapping hm).symm⟩, fun m' hsame => ?_,
    ofMapping_toMapping, ofMapping_toMapping _,
    fun h => ⟨address_mapping h, requests_mapping h⟩⟩
  · rintro rfl
    exact isDescribedBy_ofMapping m
  · exact ((isDescribedBy_ofMapping m').congr hsame).eq_ofMapping hm

/-- A mapping with second names and entries that do not count. -/
def aliasedMapping : Mapping := [
  (.text "asn", .int 65001), (.text "remote_asn", .int 65002), (.text "created_at", .int 7),
  (.text "ip_address", .text "192.0.2.2"), (.text "site", .text "east"), (.int 3, .null)]

/-- It describes the same peer in reverse, with the address under which it is reported. -/
theorem ofMapping_normalizes_aliased :
    aliasedMapping.textKeys.Nodup ∧
      ofMapping aliasedMapping.reverse = ofMapping aliasedMapping ∧
      (ofMapping aliasedMapping).address = .text "192.0.2.2" := by
  have hm : aliasedMapping.textKeys.Nodup := by decide
  obtain ⟨-, hsame, -, -, haddress⟩ := ofMapping_normalizes hm
  exact ⟨hm, hsame _ fun _ _ _ _ _ => List.mem_reverse, (haddress (.inr rfl)).1.symm⟩

end Peer

end Peering
