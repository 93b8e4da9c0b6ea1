import Peering.Text.Quoted

/-!
# UTF-8

Bytes are read as a text one character at a time. Where they are no text, the
error names the offending bytes: a byte that begins no character, a character
with a wrong continuation, or one that is cut off by the end.
-/

namespace Peering

/-- What is wrong with a sequence of bytes. -/
inductive Utf8Fault where
  /-- The byte begins no character. -/
  | start
  /-- The byte that follows is no continuation. -/
  | continuation
  /-- The end comes in the middle of a character. -/
  | cutOff
  deriving DecidableEq

/-- A place where bytes are no text. -/
structure Utf8Error where
  /-- Where the offending bytes begin. -/
  position : Nat
  /-- The offending bytes. -/
  bytes : List UInt8
  /-- What is wrong with them. -/
  fault : Utf8Fault
  deriving DecidableEq

/-- A fault in words. -/
def Utf8Fault.text : Utf8Fault → String
  | start => "invalid start byte"
  | continuation => "invalid continuation byte"
  | cutOff => "unexpected end of data"

/-- The message of an error. -/
def Utf8Error.message (e : Utf8Error) : String :=
  "'utf-8' codec can't decode " ++
    (match e.bytes with
    | [b] => "byte 0x" ++ String.ofList (hexDigits 2 b.toNat) ++ " in position " ++
      toString e.position
    | _ => "bytes in position " ++ toString e.position ++ "-" ++
      toString (e.position + e.bytes.length - 1)) ++
    ": " ++ e.fault.text

namespace Utf8

/-- What a first byte announces: the bits of the character in it, the number of bytes that
follow, and the bounds of the first of those. -/
structure Lead where
  /-- The bits of the character in the first byte. -/
  bits : Nat
  /-- The number of bytes that follow. -/
  more : Nat
  /-- The least byte that may follow. -/
  low : Nat := 0x80
  /-- The largest byte that may follow. -/
  high : Nat := 0xbf

/-- Reads a first byte. -/
def lead? (b : Nat) : Option Lead :=
  if b < 0x80 then some { bits := b, more := 0 }
  else if b < 0xc2 then none
  else if b < 0xe0 then some { bits := b - 0xc0, more := 1 }
  else if b = 0xe0 then some { bits := 0, more := 2, low := 0xa0 }
  else if b = 0xed then some { bits := 0xd, more := 2, high := 0x9f }
  else if b < 0xf0 then some { bits := b - 0xe0, more := 2 }
  else if b = 0xf0 then some { bits := 0, more := 3, low := 0x90 }
  else if b < 0xf4 then some { bits := b - 0xf0, more := 3 }
  else if b = 0xf4 then some { bits := 4, more := 3, high := 0x8f }
  else none

/-- Reads the bytes that follow a first byte. The fault comes with the number of bytes that
were right. -/
def follow (bits : Nat) : Nat → Nat → Nat → List UInt8 → Except (Nat × Utf8Fault) Nat
  | 0, _, _, _ => .ok bits
  | _ + 1, _, _, [] => .error (0, .cutOff)
  | more + 1, low, high, b :: rest =>
    if low ≤ b.toNat ∧ b.toNat ≤ high then
      match follow (bits * 64 + b.toNat % 64) more 0x80 0xbf rest with
      | .ok code => .ok code
      | .error (n, fault) => .error (n + 1, fault)
    else .error (0, .continuation)

/-- The characters that bytes from a position on are, up to the first error. The bytes that
are left over from the last character are skipped. -/
def decodeFrom (position skip : Nat) : List UInt8 → List Char × Option Utf8Error
  | [] => ([], none)
  | b :: rest =>
    match skip with
    | skip + 1 => decodeFrom (position + 1) skip rest
    | 0 =>
      match lead? b.toNat with
      | none => ([], some ⟨position, [b], .start⟩)
      | some l =>
        match follow l.bits l.more l.low l.high rest with
        | .ok code =>
          let (cs, e) := decodeFrom (position + 1) l.more rest
          (Char.ofNat code :: cs, e)
        | .error (n, fault) => ([], some ⟨position, b :: rest.take n, fault⟩)

/-- The text that bytes are, up to the first error. -/
def decode (bytes : List UInt8) : List Char × Option Utf8Error := decodeFrom 0 0 bytes

end Utf8

end Peering
