import Peering.Yaml.Block
import Peering.Yaml.Name
import Peering.Yaml.Plain
import Peering.Yaml.Source

/-!
# From characters to tokens

The indentation opens and closes block collections. A key without an indicator
is recognised only by the colon after it, so the lexer keeps, for each level of
flow collections, the last place at which such a key may have begun, and puts the
tokens for it in there once the colon is found. Such a key lies on one line and
is at most 1024 characters long.
-/

namespace Peering.Yaml

/-- A place at which a key may have begun. -/
structure Candidate where
  /-- The number of tokens before it. -/
  position : Nat
  /-- A key must begin there, because the block it stands in holds only keys. -/
  required : Bool
  /-- Where it is. -/
  start : Cursor

/-- What the lexer knows. -/
structure Lexer where
  /-- What is left of the text. -/
  cursor : Cursor
  /-- The tokens so far. -/
  tokens : Array Token := #[]
  /-- The column of the innermost open block, -1 outside of all blocks. -/
  indent : Int := -1
  /-- The columns of the blocks around it, innermost first. -/
  outer : List Int := []
  /-- The number of open flow collections. -/
  flowLevel : Nat := 0
  /-- A key may begin here. -/
  keyAllowed : Bool := true
  /-- The places at which a key may have begun, by the level of flow collections. -/
  candidates : List (Nat × Candidate) := []
  /-- The text is at its end. -/
  done : Bool := false

namespace Lexer

/-- The furthest distance between the beginning of a key and its colon. -/
def longestKey : Nat := 1024

/-- The position is inside a flow collection. -/
def inFlow (l : Lexer) : Bool := l.flowLevel != 0

/-- Adds a token. -/
def push (l : Lexer) (t : Token) : Lexer := { l with tokens := l.tokens.push t }

/-- Adds a token and moves on. -/
def emit (l : Lexer) (t : Token) (c : Cursor) : Lexer := { l.push t with cursor := c }

/-- The candidate has fallen behind: it is on an earlier line, or too far away. -/
def isStale (l : Lexer) (k : Candidate) : Bool :=
  k.start.line != l.cursor.line || longestKey < l.cursor.index - k.start.index

/-- Drops the candidates that have fallen behind. A required one must not. -/
def dropStale (l : Lexer) : Except Fault Lexer :=
  if l.candidates.any (fun k => l.isStale k.2 && k.2.required) then .error .malformed
  else .ok { l with candidates := l.candidates.filter (fun k => !l.isStale k.2) }

/-- The candidate of this level. -/
def candidate? (l : Lexer) : Option Candidate := l.candidates.lookup l.flowLevel

/-- The lexer without the candidate of this level. -/
def withoutCandidate (l : Lexer) : Lexer :=
  { l with candidates := l.candidates.filter (fun k => k.1 ≠ l.flowLevel) }

/-- Gives up the candidate of this level, which must not be a required one. -/
def dropCandidate (l : Lexer) : Except Fault Lexer :=
  if l.candidate?.any Candidate.required then .error .malformed else .ok l.withoutCandidate

/-- Remembers this position as the beginning of a key, if one may begin here. -/
def saveCandidate (l : Lexer) : Except Fault Lexer :=
  if l.keyAllowed then do
    let required := !l.inFlow && l.indent == (l.cursor.column : Int)
    let l ← l.dropCandidate
    return { l with
      candidates := (l.flowLevel, ⟨l.tokens.size, required, l.cursor⟩) :: l.candidates }
  else .ok l

/-- The columns of the blocks that stay open at a column, innermost first, and the number of
blocks that end. -/
def closing (column : Int) : Int → List Int → Nat × Int × List Int
  | indent, [] => (0, indent, [])
  | indent, next :: outer =>
    if column < indent then
      let (n, indent, outer) := closing column next outer
      (n + 1, indent, outer)
    else (0, indent, next :: outer)

/-- Ends the blocks that are indented further than a column. -/
def unwind (l : Lexer) (column : Int) : Lexer :=
  if l.inFlow then l
  else
    let (n, indent, outer) := closing column l.indent l.outer
    { l with indent, outer, tokens := l.tokens ++ Array.replicate n .blockEnd }

/-- Opens a block at a column, if it is indented further than the one that is open. The
token for its beginning goes to a given place. -/
def openBlock (l : Lexer) (column : Nat) (t : Token) (place : Nat) : Lexer :=
  if l.indent < column then
    { l with
      indent := column, outer := l.indent :: l.outer
      tokens := l.tokens.insertIdxIfInBounds place t }
  else l

/-- Skips blanks, comments and line breaks. After a line break a key may begin, outside of
flow collections. -/
def skipGaps : Nat → Lexer → Lexer
  | 0, l => l
  | n + 1, l =>
    let c := l.cursor
    let c := if c.index = 0 ∧ c.peek = some byteOrderMark then c.next else c
    let c := c.skip (· = ' ')
    let c := if c.peek = some '#' then c.skip (fun ch => !isBreak ch) else c
    match c.takeBreak with
    | some (_, c) => skipGaps n { l with cursor := c, keyAllowed := l.keyAllowed || !l.inFlow }
    | none => { l with cursor := c }

/-- The end of the text. -/
def finish (l : Lexer) : Except Fault Lexer := do
  let l ← (l.unwind (-1)).dropCandidate
  return { l.push .streamEnd with keyAllowed := false, candidates := [], done := true }

/-- A directive. -/
def directive (l : Lexer) : Except Fault Lexer := do
  let l ← (l.unwind (-1)).dropCandidate
  let (t, c) ← takeDirective l.cursor
  return { l.emit t c with keyAllowed := false }

/-- The mark for the start or the end of a document. -/
def separator (l : Lexer) (t : Token) : Except Fault Lexer := do
  let l ← (l.unwind (-1)).dropCandidate
  return { l.emit t (l.cursor.forward 3) with keyAllowed := false }

/-- The beginning of a flow collection. -/
def openFlow (l : Lexer) (t : Token) : Except Fault Lexer := do
  let l ← l.saveCandidate
  return { l.emit t l.cursor.next with flowLevel := l.flowLevel + 1, keyAllowed := true }

/-- The end of a flow collection. -/
def closeFlow (l : Lexer) (t : Token) : Except Fault Lexer := do
  let l ← l.dropCandidate
  return { l.emit t l.cursor.next with flowLevel := l.flowLevel - 1, keyAllowed := false }

/-- A comma in a flow collection. -/
def flowEntry (l : Lexer) : Except Fault Lexer := do
  let l ← l.dropCandidate
  return { l.emit .flowEntry l.cursor.next with keyAllowed := true }

/-- The hyphen of an entry, which opens a sequence if it is indented further. -/
def blockEntry (l : Lexer) : Except Fault Lexer := do
  if !l.inFlow && !l.keyAllowed then throw .malformed
  let l := if l.inFlow then l
    else l.openBlock l.cursor.column .blockSequenceStart l.tokens.size
  let l ← l.dropCandidate
  return { l.emit .blockEntry l.cursor.next with keyAllowed := true }

/-- The indicator of a key, which opens a mapping if it is indented further. -/
def key (l : Lexer) : Except Fault Lexer := do
  if !l.inFlow && !l.keyAllowed then throw .malformed
  let l := if l.inFlow then l
    else l.openBlock l.cursor.column .blockMappingStart l.tokens.size
  let l ← l.dropCandidate
  return { l.emit .key l.cursor.next with keyAllowed := !l.inFlow }

/-- The colon before a value. If a key may have begun before it, the token for the key is put
in there, and the mapping that the key opens begins before it. -/
def value (l : Lexer) : Except Fault Lexer := do
  match l.candidate? with
  | some k =>
    let l := l.withoutCandidate
    let l := { l with tokens := l.tokens.insertIdxIfInBounds k.position .key }
    let l := if l.inFlow then l else l.openBlock k.start.column .blockMappingStart k.position
    return { l.emit .value l.cursor.next with keyAllowed := false }
  | none =>
    if !l.inFlow && !l.keyAllowed then throw .malformed
    let l := if l.inFlow then l
      else l.openBlock l.cursor.column .blockMappingStart l.tokens.size
    return { l.emit .value l.cursor.next with keyAllowed := !l.inFlow }

/-- An alias, an anchor, a tag or a scalar in quotes, with which a key may begin. -/
def word (l : Lexer) (take : Cursor → Except Fault (Token × Cursor)) : Except Fault Lexer := do
  let l ← l.saveCandidate
  let (t, c) ← take l.cursor
  return { l.emit t c with keyAllowed := false }

/-- The name behind an indicator, as a token. -/
def named (make : String → Token) (c : Cursor) : Except Fault (Token × Cursor) := do
  let (name, c) ← takeName c
  return (make name, c)

/-- A block scalar. -/
def block (l : Lexer) (folded : Bool) : Except Fault Lexer := do
  let l ← l.dropCandidate
  let (t, c) ← takeBlock l.cursor folded l.indent
  return { l.emit t c with keyAllowed := true }

/-- A plain scalar. -/
def plain (l : Lexer) : Except Fault Lexer := do
  let l ← l.saveCandidate
  let (text, c, broken) :=
    plainText l.inFlow (l.indent + 1) [] false (l.cursor.size + 1) l.cursor
  return { l.emit (.scalar (textOf text) true) c with keyAllowed := broken }

/-- Reads the token that begins at a character. -/
def tokenAt (l : Lexer) (ch : Char) : Except Fault Lexer :=
  let c := l.cursor
  let spaced := Cursor.endsWord c.second
  if ch = '%' ∧ c.column = 0 then l.directive
  else if ch = '-' ∧ c.column = 0 ∧ c.atMark '-' then l.separator .documentStart
  else if ch = '.' ∧ c.column = 0 ∧ c.atMark '.' then l.separator .documentEnd
  else if ch = '[' then l.openFlow .flowSequenceStart
  else if ch = '\x7b' then l.openFlow .flowMappingStart
  else if ch = ']' then l.closeFlow .flowSequenceEnd
  else if ch = '\x7d' then l.closeFlow .flowMappingEnd
  else if ch = ',' then l.flowEntry
  else if ch = '-' ∧ spaced then l.blockEntry
  else if ch = '?' ∧ (l.inFlow || spaced) then l.key
  else if ch = ':' ∧ (l.inFlow || spaced) then l.value
  else if ch = '*' then l.word (named .alias)
  else if ch = '&' then l.word (named .anchor)
  else if ch = '!' then l.word takeTag
  else if ch = '|' ∧ !l.inFlow then l.block false
  else if ch = '>' ∧ !l.inFlow then l.block true
  else if ch = '\'' then l.word (takeQuoted · false)
  else if ch = '"' then l.word (takeQuoted · true)
  else if startsPlain c l.inFlow then l.plain
  else .error .malformed

/-- Reads the next token. -/
def advance (l : Lexer) : Except Fault Lexer := do
  let l := skipGaps (l.cursor.size + 1) l
  let l ← l.dropStale
  let l := l.unwind l.cursor.column
  match l.cursor.peek with
  | none => l.finish
  | some ch => l.tokenAt ch

/-- The tokens that no later colon can move: those before the first candidate. -/
def settled (l : Lexer) : List Token :=
  let pending := l.candidates.filter (fun k => !l.isStale k.2)
  l.tokens.toList.take (pending.foldl (fun n k => min n k.2.position) l.tokens.size)

/-- The tokens before a fault. -/
def stopped (l : Lexer) (f : Fault) : TokenStream := ⟨l.settled, f⟩

/-- Reads tokens up to the end, or to a fault. Every token but the last takes at least one
character. If the text cannot be read beyond its end, that is noticed by the first token that
goes so far. -/
def run (beyond : Option Fault) : Nat → Lexer → TokenStream
  | 0, l => l.stopped .malformed
  | n + 1, l =>
    if l.done then ⟨l.tokens.toList, .malformed⟩
    else match l.advance, beyond with
      | .ok after, some f => if after.cursor.rest.isEmpty then l.stopped f else run beyond n after
      | .ok after, none => run beyond n after
      | .error .unfinished, some f => l.stopped f
      | .error f, _ => l.stopped f

end Lexer

/-- The tokens of a source. -/
def tokenStream (s : Source) : TokenStream :=
  Lexer.run s.beyond (s.text.length + 2) { cursor := { rest := s.text } }

end Peering.Yaml
