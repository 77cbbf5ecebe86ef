/-!
# The shortest decimal for a binary number

A double stands for all reals that round to it. Among the decimals in that interval `shortest` takes
one with the fewest digits, and of those the one nearest to the number itself: it goes through the grids of
multiples of a power of ten from coarse to fine and stops at the first grid with a point inside. Only
the two grid points next to the number have to be looked at. All arithmetic is exact.
-/

namespace HornQuery.Decimal

/-- A positive binary number `mantissa · 2 ^ exponent` and the gap to its neighbours. -/
structure Binary where
  /-- The significant bits as a number. -/
  mantissa : Nat
  /-- The power of two to multiply with. -/
  exponent : Int
  /-- Whether the neighbour below is half as far as the one above. -/
  closeBelow : Bool
deriving DecidableEq, Repr

/-- The number in the 63 bits of a double behind its sign bit. -/
def Binary.ofBits (bits : Nat) : Binary :=
  let biased := bits >>> 52
  let fraction := bits % (1 <<< 52)
  if biased = 0 then ⟨fraction, -1074, false⟩
  else ⟨fraction + (1 <<< 52), (biased : Int) - 1075, fraction = 0 && biased > 1⟩

/-- A decimal `digits · 10 ^ exponent`. -/
structure Digits where
  /-- The significant digits as a number. -/
  digits : Nat
  /-- The power of ten to multiply with. -/
  exponent : Int
deriving DecidableEq, Repr

/-- The multiple of `10 ^ power` that is nearest to `b` among those that round to `b`, if any. In
quarters of the last binary place the number is `4 · mantissa`, and its interval reaches two quarters
up and two or, below a power of two, one quarter down; the ends belong to it if the mantissa is even.
Of two multiples equally near the upper one is taken. -/
def Binary.onGrid (b : Binary) (power : Int) : Option Digits :=
  let quarter := b.exponent - 2
  let scale := Nat.pow 10 (-power).toNat <<< quarter.toNat
  let grid := Nat.pow 10 power.toNat <<< (-quarter).toNat
  let number := 4 * b.mantissa * scale
  let low := (4 * b.mantissa - if b.closeBelow then 1 else 2) * scale
  let high := (4 * b.mantissa + 2) * scale
  let inside (d : Nat) : Bool :=
    if b.mantissa % 2 = 0 then low ≤ d * grid && d * grid ≤ high
    else low < d * grid && d * grid < high
  let below := number / grid
  let above := below + 1
  if inside below then
    if inside above && above * grid - number ≤ number - below * grid then some ⟨above, power⟩
    else some ⟨below, power⟩
  else if inside above then some ⟨above, power⟩
  else none

/-- The largest power of ten that is tried; doubles stay below it. -/
def topPower : Nat := 309

/-- How many powers are tried. The last one divides every double. -/
def powerCount : Nat := 1400

/-- The shortest decimal that rounds to `b`. -/
def Binary.shortest (b : Binary) : Digits :=
  ((List.range powerCount).findSome? fun (k : Nat) ↦ b.onGrid ((topPower : Int) - k)).getD ⟨0, 0⟩

/-- The digits written out with zeros and, where needed, a period, but never an exponent. -/
def Digits.positional (d : Digits) : String :=
  let ds := (toString d.digits).toList
  if 0 ≤ d.exponent then String.ofList (ds ++ List.replicate d.exponent.toNat '0')
  else
    let places := (-d.exponent).toNat
    let padded := List.replicate (places + 1 - ds.length) '0' ++ ds
    let front := padded.length - places
    String.ofList (padded.take front ++ '.' :: padded.drop front)

/-- The sign and the shortest decimal of a finite double. -/
def ofFloat (x : Float) : Bool × Digits :=
  let bits := x.toBits.toNat
  let signBit := 1 <<< 63
  let size := bits % signBit
  (decide (signBit ≤ bits), if size = 0 then ⟨0, 0⟩ else (Binary.ofBits size).shortest)

/-- The text of a double: the shortest digits, written without an exponent. -/
def display (x : Float) : String :=
  if x.isNaN then "NaN"
  else
    let (negative, d) := ofFloat x
    let sign := if negative then "-" else ""
    if x.isInf then sign ++ "inf" else sign ++ d.positional

end HornQuery.Decimal
