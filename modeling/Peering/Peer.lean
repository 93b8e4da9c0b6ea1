import Peering.Failure
import Peering.Text.Blank
import Peering.Value.Copy
import Peering.Value.Pairs

/-!
# Peers

The configuration of one neighbour. Its fields hold values of any kind until
`Peer.validate` has accepted them; the address identifies the peer.
-/

namespace Peering

/-- The configuration of a peer. -/
structure Peer where
  /-- Identifies the peer. -/
  address : Value
  /-- The AS number on this side. -/
  localAsn : Value
  /-- The AS number of the neighbour. -/
  remoteAsn : Value
  /-- The password of the session. -/
  password : Value := .null
  /-- How many hops away the neighbour may be, 0 if it is directly connected. -/
  multihop : Value := .int 0
  /-- The interface that the session is bound to. -/
  updateSource : Value := .null
  /-- The route map for what comes in. -/
  routeMapIn : Value := .null
  /-- The route map for what goes out. -/
  routeMapOut : Value := .null
  /-- The prefix list for what comes in. -/
  prefixListIn : Value := .null
  /-- The prefix list for what goes out. -/
  prefixListOut : Value := .null
  /-- The largest number of prefixes, 0 if unlimited. -/
  maxPrefixes : Value := .int 0
  /-- The local preference. -/
  localPreference : Value := .int 0
  /-- When the peer was registered. -/
  createdAt : Value := .null
  /-- When the peer was last updated. -/
  updatedAt : Value := .null

namespace Peer

/-- Both sides are in the same AS. -/
def isInternal (p : Peer) : Bool := p.localAsn.eqv p.remoteAsn

/-- The address, if it is a text that is not blank. -/
def usableAddress? (p : Peer) : Option String :=
  match p.address with
  | .text s => if s.toList.all isBlank then none else some s
  | _ => none

/-- The fields that hold AS numbers, by name and in the order in which they are checked. -/
def asnFields (p : Peer) : List (String × Value) :=
  [("local_asn", p.localAsn), ("remote_asn", p.remoteAsn)]

/-- The fields that hold counts, by name and in the order in which they are checked. -/
def countFields (p : Peer) : List (String × Value) :=
  [("multihop", p.multihop), ("max_prefixes", p.maxPrefixes),
    ("local_preference", p.localPreference)]

/-- The first field that should be an AS number and is not. -/
def badAsn? (p : Peer) : Option (String × Value) :=
  p.asnFields.find? fun f => !f.2.isIntIn EngineError.minAsn EngineError.maxAsn

/-- The first field that should be a count and is not. -/
def badCount? (p : Peer) : Option (String × Value) :=
  p.countFields.find? fun f => !f.2.isIntFrom 0

/-- The number for which a peer with a usable address is not admitted. -/
def offending? (p : Peer) : Option (String × Value) := do
  let _ ← p.usableAddress?
  p.badAsn? <|> p.badCount?

/-- Checks the fields of a peer and reports the first that is not admitted: the address must
be a text that is not blank, AS numbers integers of four octets other than zero, and counts
integers from zero on. The result is the address that identifies the peer. -/
def validate (p : Peer) : Except EngineError String :=
  match p.usableAddress? with
  | none => .error EngineError.emptyAddress
  | some address =>
    match p.badAsn? with
    | some (field, value) => .error (EngineError.invalidAsn (.text field) value p.address)
    | none =>
      match p.badCount? with
      | some (field, value) => .error (EngineError.negativeValue (.text field) value p.address)
      | none => .ok address

/-- Why the number for which a peer is not admitted cannot be shown, if it cannot. -/
def hiddenFault? (p : Peer) : Option Value.TextFault := p.offending?.bind fun f => f.2.textFault?

/-- Checks the fields of a peer and tells what is wrong with them. A refusal shows the number that
is not admitted, and where this cannot be shown, there is another failure instead. -/
def check (p : Peer) : Except Failure String :=
  match p.validate with
  | .ok address => .ok address
  | .error e => .error (p.hiddenFault?.elim (.refused e) .ofTextFault)

/-- The value at the first of two keys that a mapping has. -/
def alias? (m : Mapping) (key other : String) : Option Value :=
  match m.get? key with
  | some v => some v
  | none => m.get? other

/-- The address that a mapping gives, under either of its names. -/
def addressIn? (m : Mapping) : Option Value := alias? m "address" "ip_address"

/-- The peer that a mapping describes. The address and the local AS number have a second
name each, missing fields take their usual values, and all other keys are ignored, those
of the two times included. -/
def ofMapping (m : Mapping) : Peer where
  address := (addressIn? m).getD (.text "")
  localAsn := (alias? m "local_asn" "asn").getD (.int 0)
  remoteAsn := (m.get? "remote_asn").getD (.int 0)
  password := (m.get? "password").getD .null
  multihop := (m.get? "multihop").getD (.int 0)
  updateSource := (m.get? "update_source").getD .null
  routeMapIn := (m.get? "route_map_in").getD .null
  routeMapOut := (m.get? "route_map_out").getD .null
  prefixListIn := (m.get? "prefix_list_in").getD .null
  prefixListOut := (m.get? "prefix_list_out").getD .null
  maxPrefixes := (m.get? "max_prefixes").getD (.int 0)
  localPreference := (m.get? "local_preference").getD (.int 0)

/-- The peer that a value describes, if it stands for a mapping. -/
def ofValue (v : Value) : Except MappingFault Peer := (Mapping.ofValue v).map ofMapping

/-- The fields that need not be numbers or texts, apart from the address. -/
def freeFields (p : Peer) : List Value :=
  [p.password, p.updateSource, p.routeMapIn, p.routeMapOut, p.prefixListIn, p.prefixListOut]

/-- All fields can be copied, the two times included. -/
def isCopyable (p : Peer) : Bool :=
  (p.address :: p.localAsn :: p.remoteAsn :: p.multihop :: p.maxPrefixes :: p.localPreference ::
    p.createdAt :: p.updatedAt :: p.freeFields).all Value.isCopyable

/-- The peer with copies of its free fields. The fields of a valid peer that are checked are their
own copies, and a copy has its two times from where it is kept. -/
def copied (p : Peer) : Peer :=
  { p with
    password := p.password.copied
    updateSource := p.updateSource.copied
    routeMapIn := p.routeMapIn.copied
    routeMapOut := p.routeMapOut.copied
    prefixListIn := p.prefixListIn.copied
    prefixListOut := p.prefixListOut.copied }

/-- The mapping of all fields of a peer by name. -/
def toMapping (p : Peer) : Mapping :=
  [(.text "address", p.address), (.text "local_asn", p.localAsn),
    (.text "remote_asn", p.remoteAsn), (.text "password", p.password),
    (.text "multihop", p.multihop), (.text "update_source", p.updateSource),
    (.text "route_map_in", p.routeMapIn), (.text "route_map_out", p.routeMapOut),
    (.text "prefix_list_in", p.prefixListIn), (.text "prefix_list_out", p.prefixListOut),
    (.text "max_prefixes", p.maxPrefixes), (.text "local_preference", p.localPreference),
    (.text "created_at", p.createdAt), (.text "updated_at", p.updatedAt)]

end Peer

end Peering
