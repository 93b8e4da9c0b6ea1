import Peering.Text.Utf8

/-!
# Texts of file names

The name of a file is a sequence of bytes, which is shown as a text in UTF-8. Bytes that
are no text are shown as the second halves U+DC80 to U+DCFF of characters, one for each;
a text with other halves in it is no name.
-/

namespace Peering

/-- The number of the half that is shown for a byte. -/
def halfOfByte (b : UInt8) : Nat := 0xdc00 + b.toNat

/-- The half is shown for a byte. -/
def isByteHalf (code : Nat) : Bool := 0xdc80 ≤ code && code < 0xdd00

/-- The characters that are shown for bytes. Every round reads at least one byte, so as many
rounds as there are bytes suffice. -/
def fileChars : Nat → List UInt8 → List Char
  | 0, _ => []
  | n + 1, bytes =>
    match Utf8.decode bytes with
    | (cs, none) => cs.flatMap fun c => kept c.toNat
    | (cs, some e) =>
      (cs.flatMap fun c => kept c.toNat) ++ (e.bytes.flatMap fun b => kept (halfOfByte b)) ++
        fileChars n (bytes.drop (e.position + e.bytes.length))

/-- The text that is shown for bytes. -/
def fileText (bytes : List UInt8) : String := String.ofList (fileChars (bytes.length + 1) bytes)

/-- The number of bytes of a name. -/
def fileSize (s : String) : Nat :=
  (codesOf s.toList).foldl
    (fun size n => size + if isByteHalf n then 1 else (Char.ofNat n).utf8Size) 0

/-- The first half in a text that is shown for no byte: its number, the number of characters
before it, and the number of halves there. -/
def strayHalf? (before : Nat) : List Nat → Option (Nat × Nat × Nat)
  | [] => none
  | n :: rest =>
    if isHalf n && !isByteHalf n then some (n, before, (rest.takeWhile isHalf).length + 1)
    else strayHalf? (before + 1) rest

/-- The message about halves in a text that is no name. -/
def strayMessage (code before count : Nat) : String :=
  "'utf-8' codec can't encode " ++
    (if count = 1 then
      "character '" ++ String.ofList (escapeUnprintable code) ++ "' in position " ++ toString before
    else "characters in position " ++ toString before ++ "-" ++ toString (before + count - 1)) ++
    ": surrogates not allowed"

end Peering
