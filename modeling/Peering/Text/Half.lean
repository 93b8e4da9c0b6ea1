/-!
# Halves of characters

Characters beyond the first 65536 can be written as two halves, whose numbers
belong to no character. So that texts stay sequences of characters, a half that
stands alone is kept as two of them: a mark, which is itself no character of the
standard, and a private character for the half. The mark itself is kept twice, and so
nothing is confused.
-/

namespace Peering

/-- The number belongs to a half of a character. -/
def isHalf (code : Nat) : Bool := 0xd800 ≤ code && code < 0xe000

/-- The mark in front of what is kept for a half. -/
def halfMark : Char := Char.ofNat 0x10fffe

/-- The distance from the first half to the private character that is kept for it. -/
def halfShift : Nat := 0x800

/-- What a text holds for the character or the half with a number. -/
def kept (code : Nat) : List Char :=
  if isHalf code then [halfMark, Char.ofNat (code + halfShift)]
  else if code = halfMark.toNat then [halfMark, halfMark]
  else [Char.ofNat code]

/-- The text of characters among which there are no halves. -/
def textOf (cs : List Char) : String := String.ofList (cs.flatMap fun c => kept c.toNat)

/-- The numbers of the characters and halves that a text holds. -/
def codesOf : List Char → List Nat
  | [] => []
  | [c] => [c.toNat]
  | c :: d :: rest =>
    if c = halfMark then
      (if d = halfMark then c.toNat else d.toNat - halfShift) :: codesOf rest
    else c.toNat :: codesOf (d :: rest)

end Peering
