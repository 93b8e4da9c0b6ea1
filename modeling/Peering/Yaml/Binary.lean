import Peering.Value.Basic
import Peering.Yaml.Token

/-!
# Bytes

Bytes are written in digits of base 64. Other characters between them are
skipped, and equals signs fill up the last group of four.
-/

namespace Peering.Yaml.Binary

/-- The value of a digit of base 64. -/
def sixBits? (c : Char) : Option Nat :=
  if c.isUpper then some (c.toNat - 'A'.toNat)
  else if c.isLower then some (c.toNat - 'a'.toNat + 26)
  else if c.isDigit then some (c.toNat - '0'.toNat + 52)
  else if c = '+' then some 62
  else if c = '/' then some 63
  else none

/-- The bytes that digits write: `place` digits of a group of four came before, of which the
last left over some bits, and then equals signs. None if the last group is cut short. -/
def bytes? (place left signs : Nat) : List Char → Option (List UInt8)
  | [] => if place = 0 then some [] else none
  | c :: rest =>
    if c = '=' then
      if place < 2 then bytes? place left signs rest
      else if 4 ≤ place + signs + 1 then some []
      else bytes? place left (signs + 1) rest
    else match sixBits? c with
      | none => bytes? place left signs rest
      | some d =>
        match place with
        | 0 => bytes? 1 d 0 rest
        | 1 => (bytes? 2 (d % 16) 0 rest).map (UInt8.ofNat (left * 4 + d / 16) :: ·)
        | 2 => (bytes? 3 (d % 4) 0 rest).map (UInt8.ofNat (left * 16 + d / 4) :: ·)
        | _ => (bytes? 0 0 0 rest).map (UInt8.ofNat (left * 64 + d) :: ·)

/-- The value of the bytes that a scalar writes. -/
def read (cs : List Char) : Except Fault Value :=
  if cs.any (fun c => 0x7f < c.toNat) then .error .malformed
  else match bytes? 0 0 0 cs with
    | some bytes => .ok (.bytes bytes)
    | none => .error .malformed

end Peering.Yaml.Binary
