import Peering.Decimal.Floating
import Peering.Value.Basic

/-!
# Arguments

The command line consists of options, some of which take a value. The name of an
option may be cut short as long as only one begins that way, and its value may
follow in the same argument after an equals sign. What looks like a number is
never taken for an option. A separator in the place of an attached value gives
the option an empty list.
-/

namespace Peering.CommandLine

/-- The options. -/
inductive Flag where
  | help
  | config
  | delay
  | errorInjection
  | routerAsn
  | peer
  | timeout
  | pollInterval
  | logLevel
  deriving DecidableEq

namespace Flag

/-- All options. -/
def all : List Flag :=
  [help, config, delay, errorInjection, routerAsn, peer, timeout, pollInterval, logLevel]

/-- The name of an option. -/
def name : Flag → String
  | help => "--help"
  | config => "--config"
  | delay => "--delay"
  | errorInjection => "--error-injection"
  | routerAsn => "--router-asn"
  | peer => "--peer"
  | timeout => "--timeout"
  | pollInterval => "--poll-interval"
  | logLevel => "--log-level"

/-- The option takes a value. -/
def takesValue : Flag → Bool
  | help | errorInjection => false
  | _ => true

/-- The option with a name. -/
def ofName? (cs : List Char) : Option Flag := all.find? (fun f => f.name.toList = cs)

/-- The options whose names begin in a way. -/
def beginningWith (cs : List Char) : List Flag := all.filter (fun f => cs.isPrefixOf f.name.toList)

end Flag

/-- Why the arguments are not used. -/
inductive Refusal where
  /-- Help is asked for. -/
  | help
  /-- They do not follow the rules. -/
  | usage
  deriving DecidableEq

/-- The exit status of a refusal. -/
def Refusal.status : Refusal → Nat
  | help => 0
  | usage => 2

/-- What an argument is taken for. -/
inductive Shape where
  /-- A value, or something out of place. -/
  | value
  /-- An option, with the value in the same argument if there is one. -/
  | option (f : Flag) (attached : Option String)
  /-- An option that does not exist. -/
  | unknown
  /-- The mark after which there are no options. -/
  | separator
  deriving DecidableEq

/-- The text ends here, or after one line feed. -/
def endsText : List Char → Bool
  | [] | ['\n'] => true
  | _ => false

/-- A negative number in plain decimal digits. -/
def isNegativeNumber : List Char → Bool
  | '-' :: rest =>
    match takeDigits rest with
    | (_, '.' :: places) =>
      let (digits, rest) := takeDigits places
      !digits.isEmpty && endsText rest
    | (whole, rest) => !whole.isEmpty && endsText rest
  | _ => false

/-- The text up to an equals sign, and the text after it if there is one. -/
def splitEquals (cs : List Char) : List Char × Option String :=
  match cs.dropWhile (· ≠ '=') with
  | _ :: rest => (cs.takeWhile (· ≠ '='), some (String.ofList rest))
  | [] => (cs, none)

/-- What an argument that names no option is taken for. -/
def shapeWithoutName (cs : List Char) : Shape :=
  if isNegativeNumber cs || cs.contains ' ' then .value else .unknown

/-- What may follow the short name of the help: further such letters, after an equals sign if
there is at least one. -/
def repeatsHelp : List Char → Bool
  | ['='] => false
  | '=' :: rest => rest.all (· = 'h')
  | cs => cs.all (· = 'h')

/-- What an argument is taken for, before the separator. -/
def shapeOf (cs : List Char) : Except Refusal Shape :=
  match cs with
  | ['-', '-'] => .ok .separator
  | '-' :: '-' :: _ =>
    match Flag.ofName? cs with
    | some f => .ok (.option f none)
    | none =>
      let (name, attached) := splitEquals cs
      match Flag.ofName? name with
      | some f => .ok (.option f attached)
      | none =>
        match Flag.beginningWith name with
        | [] => .ok (shapeWithoutName cs)
        | [f] => .ok (.option f attached)
        | _ => .error .usage
  | '-' :: 'h' :: rest =>
    .ok (.option .help (if repeatsHelp rest then none else some (String.ofList rest)))
  | '-' :: _ :: _ => .ok (shapeWithoutName cs)
  | _ => .ok .value

/-- Arguments with what they are taken for. -/
def shapes : List String → Except Refusal (List (String × Shape))
  | [] => .ok []
  | arg :: rest => do
    let shape ← shapeOf arg.toList
    if shape = .separator then
      return (arg, shape) :: rest.map (fun value => (value, .value))
    else return (arg, shape) :: (← shapes rest)

/-- The names of levels that may be given. -/
def levelChoices : List String := ["debug", "info", "warn", "error"]

/-- What the arguments say. -/
structure Arguments where
  /-- The path of the file of settings. -/
  config : Option String := none
  /-- The delay between two states. -/
  delay : Option Value := none
  /-- Faults are injected. -/
  errorInjection : Bool := false
  /-- The AS number shown in the running configuration. -/
  routerAsn : Option Value := none
  /-- Further peers. -/
  peers : List Value := []
  /-- The seconds after which the simulation ends at the latest, if that is a number. -/
  timeout : Option Float := some 60.0
  /-- The seconds between two polls, if that is a number. -/
  pollInterval : Option Float := some 0.5
  /-- The name of the least level that is logged. -/
  logLevel : Option String := none

namespace Arguments

/-- Takes a value that can be read. -/
def reading {α : Type} (value : Option α) (use : α → Arguments) : Except Refusal Arguments :=
  match value with
  | some v => .ok (use v)
  | none => .error .usage

/-- Takes the value of an option. -/
def withValue (a : Arguments) (f : Flag) (value : String) : Except Refusal Arguments :=
  match f with
  | .config => .ok { a with config := some value }
  | .delay => .ok { a with delay := some (.text value) }
  | .routerAsn => reading (readInteger? value.toList) fun n => { a with routerAsn := some (.int n) }
  | .peer => .ok { a with peers := a.peers ++ [.text value] }
  | .timeout => reading (readFloat? value.toList) fun x => { a with timeout := some x }
  | .pollInterval => reading (readFloat? value.toList) fun x => { a with pollInterval := some x }
  | .logLevel =>
    if value ∈ levelChoices then .ok { a with logLevel := some value } else .error .usage
  | .help | .errorInjection => .error .usage

/-- Takes an empty list in the place of a value. No path and no level are given by it, and it
is no number. -/
def withEmptyList (a : Arguments) (f : Flag) : Except Refusal Arguments :=
  match f with
  | .config => .ok { a with config := none }
  | .delay => .ok { a with delay := some (.list []) }
  | .routerAsn => .ok { a with routerAsn := some (.list []) }
  | .peer => .ok { a with peers := a.peers ++ [.list []] }
  | .timeout => .ok { a with timeout := none }
  | .pollInterval => .ok { a with pollInterval := none }
  | .logLevel => .ok { a with logLevel := none }
  | .help | .errorInjection => .error .usage

/-- Takes the value that is attached to an option. -/
def withAttached (a : Arguments) (f : Flag) (value : String) : Except Refusal Arguments :=
  if value = "--" then a.withEmptyList f else a.withValue f value

/-- Takes an option without a value. -/
def withFlag (a : Arguments) (f : Flag) : Except Refusal Arguments :=
  match f with
  | .help => .error .help
  | .errorInjection => .ok { a with errorInjection := true }
  | _ => .error .usage

/-- Takes the arguments from left to right. An argument that is out of place is only refused
after all others have been taken; `stray` tells that there was one. -/
def take (a : Arguments) (stray : Bool) : List (String × Shape) → Except Refusal Arguments
  | [] => if stray then .error .usage else .ok a
  | (_, .option f (some value)) :: rest => do (← a.withAttached f value).take stray rest
  | (_, .option f none) :: (value, .value) :: rest =>
    if f.takesValue then do (← a.withValue f value).take stray rest
    else do (← a.withFlag f).take stray ((value, .value) :: rest)
  | (_, .option f none) :: rest => do (← a.withFlag f).take stray rest
  | _ :: rest => a.take true rest

/-- What a command line says. -/
def parse (args : List String) : Except Refusal Arguments := do
  take {} false (← shapes args)

end Arguments

end Peering.CommandLine
