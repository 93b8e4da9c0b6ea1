import Peering.Duration
import Peering.Engine.Basic
import Peering.Log

/-!
# Settings

What a simulation is run with: how the engine behaves, what is logged and where,
and the peers to begin with. Values from outside are kept as they are until
`Settings.validate` has accepted them.
-/

namespace Peering

/-- The settings of a simulation. -/
structure Settings where
  /-- The delay between two states of a session, in seconds. -/
  delay : Float := Engine.usualStateDelay
  /-- The fault switch is on. -/
  errorInjection : Value := .bool false
  /-- The AS number shown in the running configuration. -/
  routerAsn : Value := RunningConfig.usualRouterAsn
  /-- The name of the least level that is logged. -/
  level : String := "info"
  /-- The file that gets a copy of the log, null if none. -/
  file : Value := .null
  /-- The peers to begin with. -/
  peers : List Peer := []

/-- What is wrong with settings. -/
inductive SettingsError where
  /-- The document is not a mapping. -/
  | rootShape
  /-- A section is not a mapping. -/
  | sectionShape (name : String)
  /-- The delay is no duration. -/
  | duration (e : Duration.Error)
  /-- The peers are no list. -/
  | peersShape
  /-- An entry of the peers is not a mapping. -/
  | entryShape (v : Value)
  /-- The delay is negative. -/
  | negativeDelay
  /-- Whether faults are injected is no truth value. -/
  | errorInjection
  /-- The AS number is none. -/
  | routerAsn (v : Value)
  /-- The level has no such name. -/
  | level (name : String)
  /-- A peer is not valid. -/
  | invalidPeer (e : EngineError)
  /-- Two peers have the same address. -/
  | duplicateAddress (address : String)
  /-- A value cannot be shown. -/
  | hidden (f : Value.TextFault)

namespace SettingsError

/-- The error in words. -/
def message : SettingsError → String
  | rootShape => "configuration root must be a mapping"
  | sectionShape name => "'" ++ name ++ "' section must be a mapping"
  | duration (.invalid v) => Duration.invalidMessage v
  | duration .tooLarge => "int too large to convert to float"
  | peersShape => "peers must be a list"
  | entryShape v => "peer entry must be a mapping, got " ++ v.exact
  | negativeDelay => "session state delay must be non-negative"
  | errorInjection => "error_injection must be a boolean"
  | routerAsn v => EngineError.asnNote (.text "router_asn") v
  | level name => "invalid log level: " ++ name ++ " (must be debug, info, warn, or error)"
  | invalidPeer e => "invalid peer: " ++ e.message
  | duplicateAddress address => "duplicate peer address: " ++ address
  | hidden f => f.message

/-- An error whose message shows a value. -/
def showing (v : Value) (e : SettingsError) : SettingsError :=
  v.textFault?.elim e hidden

end SettingsError

namespace Settings

/-- The level that is logged from on, if the settings name one. -/
def level? (s : Settings) : Option Level := Level.ofSetting? s.level

/-- Whether faults are injected is a truth value. -/
def injectionIsBool (s : Settings) : Bool :=
  match s.errorInjection with
  | .bool _ => true
  | _ => false

/-- Checks peers one after the other, given the addresses before them: each must be valid,
and have an address of its own. -/
def checkPeers (seen : List String) : List Peer → Except SettingsError Unit
  | [] => .ok ()
  | p :: rest =>
    match p.validate with
    | .error e => .error (.showing ((p.offending?.map Prod.snd).getD .null) (.invalidPeer e))
    | .ok address =>
      if address ∈ seen then .error (.duplicateAddress address)
      else checkPeers (address :: seen) rest

/-- Checks settings and reports the first that is not admitted. -/
def validate (s : Settings) : Except SettingsError Unit :=
  if s.delay < 0.0 then .error .negativeDelay
  else if !s.injectionIsBool then .error .errorInjection
  else if !s.routerAsn.isIntIn EngineError.minAsn EngineError.maxAsn then
    .error (.showing s.routerAsn (.routerAsn s.routerAsn))
  else if s.level?.isNone then .error (.level s.level)
  else checkPeers [] s.peers

end Settings

end Peering
