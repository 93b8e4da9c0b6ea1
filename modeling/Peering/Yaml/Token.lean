import Peering.Text.Utf8

/-!
# Tokens of a document

A document is read as a sequence of tokens: marks for where block and flow
collections begin and end, indicators, names of anchors and aliases, tags, and
scalars.
-/

namespace Peering.Yaml

/-- Why a text is no document, or its document has no value. -/
inductive Fault where
  /-- The text breaks a rule of the format. -/
  | malformed
  /-- The text ends where more of it is needed. -/
  | unfinished
  /-- The text cannot be read any further. -/
  | unreadable (e : Utf8Error)
  /-- A scalar that should be a number cannot be converted; the message tells why. -/
  | badNumber (message : String)
  /-- There is nothing in a scalar that should be a number. -/
  | emptyNumber
  /-- A number is too large for a double, or far too large for a character. -/
  | overflow
  /-- A scalar that should be a truth value is none. -/
  | badTruth
  /-- A scalar that should be a moment is none. -/
  | noMoment
  /-- A mapping stands where a moment should be written. -/
  | momentInMapping
  /-- Collections are nested too deep. -/
  | tooDeep
  deriving DecidableEq

/-- What a directive says. -/
inductive Directive where
  /-- The version of the format. -/
  | version (major : Nat)
  /-- A handle for tags, and what it stands for. -/
  | handle (handle stands : String)
  /-- Something else, which is ignored. -/
  | other
  deriving DecidableEq

/-- A token. -/
inductive Token where
  | directive (d : Directive)
  | documentStart
  | documentEnd
  | streamEnd
  | blockSequenceStart
  | blockMappingStart
  | blockEnd
  | flowSequenceStart
  | flowSequenceEnd
  | flowMappingStart
  | flowMappingEnd
  | blockEntry
  | flowEntry
  | key
  | value
  | alias (name : String)
  | anchor (name : String)
  /-- A tag, as its handle, if it has one, and what follows. -/
  | tag (handle : Option String) (suffix : String)
  /-- A scalar; it is plain if it stands without quotes and is no block. -/
  | scalar (text : String) (plain : Bool)
  deriving DecidableEq, Inhabited

/-- The tokens of a text, up to the first fault. -/
structure TokenStream where
  /-- The tokens, in order. -/
  tokens : List Token
  /-- Why there are no more. -/
  fault : Fault

end Peering.Yaml
