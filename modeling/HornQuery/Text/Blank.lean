/-!
# Blank characters

The white space that separates tokens is the Unicode property of that name: 25 code points, of which
six are ASCII. `trim` takes blanks off both ends of a text.
-/

namespace HornQuery.Text

/-- The code points with the Unicode property White_Space, as closed ranges in increasing order. -/
def blankRanges : List (Nat × Nat) :=
  [(0x0009, 0x000D), (0x0020, 0x0020), (0x0085, 0x0085), (0x00A0, 0x00A0), (0x1680, 0x1680),
   (0x2000, 0x200A), (0x2028, 0x2029), (0x202F, 0x202F), (0x205F, 0x205F), (0x3000, 0x3000)]

/-- Whether `c` is white space. -/
def isBlank (c : Char) : Bool :=
  blankRanges.any fun (low, high) ↦ low ≤ c.toNat && c.toNat ≤ high

/-- The text `s` without the blanks at its end. -/
def trimEnd (s : List Char) : List Char :=
  (s.reverse.dropWhile isBlank).reverse

/-- The text `s` without the blanks at either end. -/
def trim (s : List Char) : List Char :=
  trimEnd (s.dropWhile isBlank)

theorem not_isBlank_percent : isBlank '%' = false := by decide

theorem not_isBlank_period : isBlank '.' = false := by decide

end HornQuery.Text
