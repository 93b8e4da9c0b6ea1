import Peering.Text.Utf8

/-!
# Texts read in batches

A file is read as a text a piece at a time, and its bytes are taken in batches, one for
what is missing of a piece. A character that goes on in the next batch is decoded there, so
the position of an error counts from the first byte that is decoded together with it.
-/

namespace Peering

/-- Lines end with a line feed, whatever they end with in the file. -/
def unifyLineEnds : List Char → List Char
  | [] => []
  | '\r' :: '\n' :: rest => '\n' :: unifyLineEnds rest
  | '\r' :: rest => '\n' :: unifyLineEnds rest
  | c :: rest => c :: unifyLineEnds rest

/-- How far a file is read. -/
structure Batches where
  /-- The characters that are read, the last one first. -/
  read : List Char := []
  /-- The number of these characters. -/
  count : Nat := 0
  /-- The bytes of a character that is not complete. -/
  started : List UInt8 := []
  /-- A carriage return is held back, because a line feed may follow. -/
  held : Bool := false
  /-- The number of bytes for each character in the last batch. -/
  rate : Float := 0

namespace Batches

/-- The number of characters in a piece. -/
def pieceSize : Nat := 4096

/-- The least number of bytes in a batch. -/
def leastSize : Nat := 8192

/-- The number of bytes in the next batch: what is missing of a piece at the rate of the last
batch, if that is more than the least number. -/
def nextSize (b : Batches) : Nat :=
  let missing := pieceSize - b.count % pieceSize
  let rate := if b.rate < 1 then 1 else b.rate
  max leastSize (rate * Float.ofNat missing).toUInt64.toNat

/-- A character that more bytes may complete. Two bytes of a half of a character are refused
only with the third one. -/
def mayGoOn (bytes : List UInt8) (e : Utf8Error) : Bool :=
  e.fault = .cutOff ||
    match bytes.drop e.position with
    | [0xed, b] => 0xa0 ≤ b && b < 0xc0
    | _ => false

/-- The characters that bytes are, and the bytes of a character that is not complete. -/
def decode (bytes : List UInt8) : Except Utf8Error (List Char × List UInt8) :=
  match Utf8.decode bytes with
  | (cs, none) => .ok (cs, [])
  | (cs, some e) => if mayGoOn bytes e then .ok (cs, bytes.drop e.position) else .error e

/-- Takes the characters that a batch of some bytes is read as. -/
def add (b : Batches) (size : Nat) (cs : List Char) (started : List UInt8) : Batches :=
  let cs := if b.held && !cs.isEmpty then '\r' :: cs else cs
  let held := if cs.isEmpty then b.held else cs.getLast? = some '\r'
  let cs := unifyLineEnds (if held then cs.dropLast else cs)
  { read := cs.reverseAux b.read
    count := b.count + cs.length
    started, held
    rate := if cs.isEmpty then 0 else Float.ofNat size / Float.ofNat cs.length }

/-- The characters of a text, up to the first error. -/
def text (b : Batches) : List Char := b.read.reverse

/-- Reads bytes to their end, or to the first error. -/
def readAll (b : Batches) : List UInt8 → List Char × Option Utf8Error
  | [] =>
    match Utf8.decode b.started with
    | (_, none) => (if b.held then b.text ++ ['\n'] else b.text, none)
    | (_, some e) => (b.text, some e)
  | byte :: rest =>
    let size := b.nextSize
    let batch := (byte :: rest).take size
    match decode (b.started ++ batch) with
    | .ok (cs, started) => readAll (b.add batch.length cs started) ((byte :: rest).drop size)
    | .error e => (b.text, some e)
termination_by bytes => bytes.length
decreasing_by
  have : leastSize ≤ b.nextSize := Nat.le_max_left ..
  simp only [List.length_drop, List.length_cons, leastSize] at *
  omega

end Batches

/-- The text that a file is, up to the first error. -/
def readText (bytes : List UInt8) : List Char × Option Utf8Error := Batches.readAll {} bytes

end Peering
