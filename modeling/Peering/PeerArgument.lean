import Peering.Peer

/-!
# Peers on the command line

A peer is written `ADDRESS:LOCAL_ASN:REMOTE_ASN`. The address may hold colons
itself, so the numbers are split off from the right.
-/

namespace Peering.PeerArgument

/-- The text before and after the last colon. -/
def splitLast? (cs : List Char) : Option (List Char × List Char) :=
  match cs with
  | [] => none
  | c :: rest =>
    match splitLast? rest with
    | some (before, after) => some (c :: before, after)
    | none => if c = ':' then some ([], rest) else none

/-- The text before the last colon but one, between the last two, and after the last. -/
def split? (cs : List Char) : Option (List Char × List Char × List Char) := do
  let (front, last) ← splitLast? cs
  let (address, middle) ← splitLast? front
  return (address, middle, last)

/-- Why a value does not describe a peer. -/
inductive Error where
  /-- It is no text. -/
  | noText
  /-- There are fewer than two colons. -/
  | shape (s : String)
  /-- One of the two numbers is no integer. -/
  | numbers (s : String)
  deriving DecidableEq

/-- The message of an error. -/
def Error.message : Error → String
  | .noText => "a peer must be given as a text"
  | .shape s => "peer must be ADDRESS:LOCAL_ASN:REMOTE_ASN, got " ++ quoted s
  | .numbers s => "peer ASNs must be integers, got " ++ quoted s

/-- The peer that a text describes; nothing is validated. -/
def parse (s : String) : Except Error Peer :=
  match split? s.toList with
  | none => .error (.shape s)
  | some (address, first, second) =>
    match readInteger? first, readInteger? second with
    | some localAsn, some remoteAsn => .ok {
        address := .text (String.ofList address)
        localAsn := .int localAsn
        remoteAsn := .int remoteAsn }
    | _, _ => .error (.numbers s)

/-- The peer that a value describes, which must be a text. -/
def ofValue : Value → Except Error Peer
  | .text s => parse s
  | _ => .error .noText

end Peering.PeerArgument
