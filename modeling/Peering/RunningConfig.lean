import Peering.Peer
import Peering.Value.Number

/-!
# The running configuration

The text that shows all peers as a router would. Values are put into fixed line
templates as they are; lines for settings that are not in use are left out.
-/

namespace Peering.RunningConfig

/-- The lines in front of all peers. -/
def header : List String :=
  ["!", "! neighborsim running configuration", "!", "frr version 8.0",
    "frr defaults traditional", "!"]

/-- The lines after all peers. -/
def footer : List String := ["line vty", "!", "end"]

/-- A value as it stands in a line, unless it cannot be shown. -/
def written (v : Value) : Except Failure String :=
  match v.textFault? with
  | none => .ok v.plain
  | some f => .error (.ofTextFault f)

/-- A line for a value that counts as true. -/
def textLine (v : Value) (line : String → String) : Except Failure (List String) :=
  if v.isTruthy then (written v).map fun text => [line text] else .ok []

/-- A line for a number above zero; other values cannot be compared with zero. -/
def countLine (v : Value) (line : String → String) : Except Failure (List String) :=
  match v.number? with
  | some n => if n.isPositive then (written v).map fun text => [line text] else .ok []
  | none => .error .wrongType

/-- What every line of a peer begins with. -/
def lead (address : String) : String := " neighbor " ++ address

/-- The lines of one peer. -/
def neighborLines (p : Peer) : Except Failure (List String) := do
  let start := lead (← written p.address)
  let line (key : String) (value : String) : String := start ++ " " ++ key ++ " " ++ value
  let remote ← written p.remoteAsn
  let password ← textLine p.password (line "password")
  let hops ← countLine p.multihop (line "ebgp-multihop")
  let source ← textLine p.updateSource (line "update-source")
  let mapIn ← textLine p.routeMapIn (fun v => line "route-map" v ++ " in")
  let mapOut ← textLine p.routeMapOut (fun v => line "route-map" v ++ " out")
  let listIn ← textLine p.prefixListIn (fun v => line "prefix-list" v ++ " in")
  let listOut ← textLine p.prefixListOut (fun v => line "prefix-list" v ++ " out")
  let limit ← countLine p.maxPrefixes (line "maximum-prefix")
  return line "remote-as" remote ::
    (password ++ hops ++ source ++ mapIn ++ mapOut ++ listIn ++ listOut ++ limit)

/-- The AS number of the router if none is set. -/
def usualRouterAsn : Value := .int 65000

/-- The lines of all peers, under the line of the router unless there are none. -/
def stanza (peers : List Peer) (routerAsn : Value) : Except Failure (List String) := do
  if peers.isEmpty then return []
  let router ← written routerAsn
  let blocks ← peers.mapM neighborLines
  return ("router bgp " ++ router) :: blocks.flatten ++ ["!"]

/-- The running configuration, with a line feed at the end of each line. -/
def render (peers : List Peer) (routerAsn : Value) : Except Failure String := do
  let lines ← stanza peers routerAsn
  return "\n".intercalate (header ++ lines ++ footer) ++ "\n"

end Peering.RunningConfig
