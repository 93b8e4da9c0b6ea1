import Peering.Settings.Basic

/-!
# Settings from a document

A document of settings is a mapping with the sections `simulation` and `logging`
and the list `peers`. Each of the three may be missing, and a value that does not
count as true is like a missing one.
-/

namespace Peering.Settings

/-- A section: what a mapping holds at a key, which must be a mapping if it counts as true. -/
def sectionOf (m : Mapping) (name : String) : Except SettingsError Mapping :=
  match ((m.get? name).getD .null).orElse (.mapping []) with
  | .mapping entries => .ok entries
  | _ => .error (.sectionShape name)

/-- The peer that an entry describes. -/
def peerOfEntry : Value → Except SettingsError Peer
  | .mapping m => .ok (Peer.ofMapping m)
  | v => .error (.showing v (.entryShape v))

/-- The peers of a document. -/
def peersOf (m : Mapping) : Except SettingsError (List Peer) :=
  match ((m.get? "peers").getD .null).orElse (.list []) with
  | .list entries => entries.mapM peerOfEntry
  | _ => .error .peersShape

/-- The delay that a section gives. -/
def delayOf (simulation : Mapping) : Except SettingsError Float :=
  match simulation.get? "session_state_delay" with
  | none => .ok Engine.usualStateDelay
  | some v => (Duration.ofValue v).mapError fun
    | .invalid v => .showing v (.duration (.invalid v))
    | .tooLarge => .duration .tooLarge

/-- The level that a section gives, in words. -/
def levelOf (logging : Mapping) : Except SettingsError String :=
  let v := (logging.get? "level").getD (.text "info")
  match v.textFault? with
  | none => .ok v.plain
  | some f => .error (.hidden f)

/-- The settings that a mapping describes. -/
def ofMapping (m : Mapping) : Except SettingsError Settings := do
  let simulation ← sectionOf m "simulation"
  let logging ← sectionOf m "logging"
  let delay ← delayOf simulation
  let level ← levelOf logging
  let peers ← peersOf m
  return {
    delay, level, peers
    errorInjection := (simulation.get? "error_injection").getD (.bool false)
    routerAsn := (simulation.get? "router_asn").getD RunningConfig.usualRouterAsn
    file := ((logging.get? "file").getD .null).orElse .null }

/-- The settings that a document describes. -/
def ofDocument (v : Value) : Except SettingsError Settings :=
  match v.orElse (.mapping []) with
  | .mapping m => ofMapping m
  | _ => .error .rootShape

end Peering.Settings
