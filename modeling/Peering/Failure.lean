import Peering.Value.Text

/-!
# Failures

A request that is refused fails with an `EngineError`: a kind, the address that it
was about, and a message. The other failures are those of values that cannot be
compared, named, added or converted.
-/

namespace Peering

/-- Why the engine refuses a request. -/
inductive EngineErrorKind where
  /-- No further cause is known. -/
  | general
  /-- A field of a peer is not admitted, or an increment, which has no field. -/
  | validation (field : Value)
  /-- The address is registered already. -/
  | duplicatePeer
  /-- The address is not registered. -/
  | peerNotFound
  /-- There is no session at the address. -/
  | sessionNotFound
  /-- The layer below failed. -/
  | controlPlane
  /-- A failure was asked for. -/
  | simulated (operation : Value)

/-- A refusal by the engine. -/
structure EngineError where
  /-- The cause. -/
  kind : EngineErrorKind
  /-- A message in place of the usual one. -/
  note : Option String := none
  /-- The address that the request was about, null if none. -/
  address : Value := .null

namespace EngineError

/-- The stable code of the error. -/
def code (e : EngineError) : String :=
  match e.kind with
  | .general => "session_engine_error"
  | .validation _ => "validation_error"
  | .duplicatePeer => "duplicate_peer"
  | .peerNotFound => "peer_not_found"
  | .sessionNotFound => "session_not_found"
  | .controlPlane => "control_plane_failure"
  | .simulated _ => "control_plane_failure"

/-- The caller is at fault, not the engine. -/
def isClientError (e : EngineError) : Bool :=
  match e.kind with
  | .validation _ | .duplicatePeer | .peerNotFound | .sessionNotFound => true
  | .general | .controlPlane | .simulated _ => false

/-- The message of an error without a note. -/
def usualMessage (e : EngineError) : String :=
  match e.kind with
  | .duplicatePeer => "peer " ++ e.address.plain ++ " already exists"
  | .peerNotFound => "peer " ++ e.address.plain ++ " not found"
  | .sessionNotFound => "session for peer " ++ e.address.plain ++ " not found"
  | .simulated operation => "simulated error: failed to " ++ operation.plain
  | .general | .validation _ | .controlPlane =>
    match e.address with
    | .null => e.code
    | address => e.code ++ " (peer=" ++ address.plain ++ ")"

/-- The message: the note, unless it is missing or empty. -/
def message (e : EngineError) : String :=
  match e.note with
  | some note => if note.isEmpty then e.usualMessage else note
  | none => e.usualMessage

/-- A peer without an address. -/
def emptyAddress : EngineError :=
  { kind := .validation (.text "address"), note := some "peer address is required" }

/-- The least AS number. -/
def minAsn : Int := 1

/-- The largest AS number of four octets. -/
def maxAsn : Int := 4294967295

/-- What is wrong with a value that should be an AS number. -/
def asnNote (field value : Value) : String :=
  field.plain ++ " must be between " ++ intText minAsn ++ " and " ++ intText maxAsn ++ ", got " ++
    value.exact

/-- A field that should be an AS number and is not. -/
def invalidAsn (field value address : Value) : EngineError :=
  { kind := .validation field, note := some (asnNote field value), address }

/-- A field that should be an integer from zero on and is not. -/
def negativeValue (field value address : Value) : EngineError :=
  { kind := .validation field
    note := some (field.plain ++ " must be non-negative, got " ++ value.exact)
    address }

/-- Increments of which one is negative. -/
def negativeIncrement (received sent address : Value) : EngineError :=
  { kind := .validation .null
    note := some ("counter increments must be non-negative (received=" ++ received.plain ++
      ", sent=" ++ sent.plain ++ ")")
    address }

/-- A peer that is registered already. -/
def duplicatePeer (address : Value) : EngineError := { kind := .duplicatePeer, address }

/-- A peer that is not registered. -/
def peerNotFound (address : Value) : EngineError := { kind := .peerNotFound, address }

/-- A session that does not exist. -/
def sessionNotFound (address : Value) : EngineError := { kind := .sessionNotFound, address }

/-- A failure that was asked for. -/
def simulated (operation address : Value) : EngineError :=
  { kind := .simulated operation, address }

end EngineError

/-- Why an operation has no result. -/
inductive Failure where
  /-- The engine refuses the request. -/
  | refused (e : EngineError)
  /-- A value that is no number is compared with one, or a list or mapping is used as a key. -/
  | wrongType
  /-- A state has no name. -/
  | unnamed
  /-- A registration is missing that should be there. -/
  | missing
  /-- An integer is too large for a double, or a double too large for an integer. -/
  | overflow
  /-- A value is of the right type and yet not admitted; where there is a message, it
  tells what is wrong. -/
  | invalidValue (message : Option String)
  /-- What is given for a peer is no configuration. -/
  | noConfiguration
  /-- Too many values stand one inside of the other. -/
  | tooDeep
  /-- A callback failed with a message. -/
  | callback (message : String)

/-- The failure to show a value. -/
def Failure.ofTextFault : Value.TextFault → Failure
  | .longInteger => .invalidValue (some notWritable)
  | .tooDeep => .tooDeep

/-- The failure in words. -/
def Failure.text : Failure → String
  | .refused e => e.message
  | .wrongType => "values of these types cannot be compared"
  | .unnamed => "the state has no name"
  | .missing => "the peer is not registered"
  | .overflow => "cannot convert float infinity to integer"
  | .invalidValue message => message.getD ""
  | .noConfiguration => "the value is no configuration of a peer"
  | .tooDeep => Value.TextFault.tooDeep.message
  | .callback message => message

end Peering
