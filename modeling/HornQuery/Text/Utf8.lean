/-!
# Decoding bytes that may not be text

`decodeLossy` reads bytes as UTF-8. Where they are not, the longest beginning of a character that the
bytes still form is replaced by one U+FFFD, and a byte that no character can start with by one of its
own.
-/

namespace HornQuery.Text

/-- The character that stands for bytes that are not text. -/
def replacement : Char := Char.ofNat 0xFFFD

/-- A character of which some bytes have been read. -/
structure Unfinished where
  /-- How many bytes are still to come. -/
  owed : Nat
  /-- The least value of the next byte. -/
  low : Nat
  /-- The greatest value of the next byte. -/
  high : Nat
  /-- The bits read so far. -/
  bits : Nat
deriving DecidableEq, Repr

/-- What a first byte announces, if it is the first byte of several. The second byte is restricted
where the character would otherwise be too small for its length, a surrogate or too large. -/
def Unfinished.start? (b : Nat) : Option Unfinished :=
  if 0xC2 ≤ b && b ≤ 0xDF then some ⟨1, 0x80, 0xBF, b - 0xC0⟩
  else if b = 0xE0 then some ⟨2, 0xA0, 0xBF, 0⟩
  else if b = 0xED then some ⟨2, 0x80, 0x9F, 0xD⟩
  else if 0xE1 ≤ b && b ≤ 0xEF then some ⟨2, 0x80, 0xBF, b - 0xE0⟩
  else if b = 0xF0 then some ⟨3, 0x90, 0xBF, 0⟩
  else if 0xF1 ≤ b && b ≤ 0xF3 then some ⟨3, 0x80, 0xBF, b - 0xF0⟩
  else if b = 0xF4 then some ⟨3, 0x80, 0x8F, 4⟩
  else none

/-- The characters that bytes spell, given the character that is not finished yet. -/
def decodeFrom : Option Unfinished → List UInt8 → List Char
  | none, [] => []
  | some _, [] => [replacement]
  | none, b :: bs => first b bs
  | some u, b :: bs =>
    if u.low ≤ b.toNat && b.toNat ≤ u.high then
      let bits := u.bits * 64 + b.toNat % 64
      if u.owed ≤ 1 then Char.ofNat bits :: decodeFrom none bs
      else decodeFrom (some ⟨u.owed - 1, 0x80, 0xBF, bits⟩) bs
    else replacement :: first b bs
where
  /-- Go on at a byte between characters. -/
  first (b : UInt8) (bs : List UInt8) : List Char :=
    if b.toNat < 0x80 then Char.ofNat b.toNat :: decodeFrom none bs
    else
      match Unfinished.start? b.toNat with
      | some u => decodeFrom (some u) bs
      | none => replacement :: decodeFrom none bs

/-- The text that bytes spell, with replacements. -/
def decodeLossy (bytes : List UInt8) : String :=
  String.ofList (decodeFrom none bytes)

end HornQuery.Text
