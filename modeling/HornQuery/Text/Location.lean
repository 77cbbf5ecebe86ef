/-!
# Places in a text

A place is given three ways at once: as an offset in bytes of the UTF-8 form, and as a line and a
column for the reader of a message. Lines and columns start at one and a column counts code points,
so the three differ as soon as a text leaves ASCII.

`Location.after before` is the place right behind the text `before`; every other way to name a place
goes through it.
-/

namespace HornQuery

namespace Text

/-- Number of bytes in the UTF-8 form of `s`. -/
def utf8Length : List Char → Nat
  | [] => 0
  | c :: s => c.utf8Size + utf8Length s

/-- The characters of `s` that lie wholly within its first `bytes` bytes. -/
def takeBytes : Nat → List Char → List Char
  | _, [] => []
  | bytes, c :: s => if c.utf8Size ≤ bytes then c :: takeBytes (bytes - c.utf8Size) s else []

/-- The part of `s` behind its last newline. -/
def lastLine (s : List Char) : List Char :=
  (s.reverse.takeWhile (· ≠ '\n')).reverse

@[simp] theorem utf8Length_append (s t : List Char) :
    utf8Length (s ++ t) = utf8Length s + utf8Length t := by
  induction s with
  | nil => simp [utf8Length]
  | cons c s ih => simp [utf8Length, ih, Nat.add_assoc]

/-- Cutting at the byte length of a leading part gives back that part. -/
theorem takeBytes_utf8Length_append (s t : List Char) :
    takeBytes (utf8Length s) (s ++ t) = s := by
  induction s with
  | nil =>
    cases t with
    | nil => rfl
    | cons c t =>
      have : ¬ c.utf8Size ≤ 0 := by have := c.utf8Size_pos; omega
      simp [takeBytes, utf8Length, this]
  | cons c s ih => simp [takeBytes, utf8Length, ih]

end Text

/-- A place in a source text. -/
structure Location where
  /-- Bytes of the UTF-8 form before the place. -/
  offset : Nat
  /-- Number of the line, from one. -/
  line : Nat
  /-- Number of the code point on that line, from one. -/
  column : Nat
deriving DecidableEq, Repr

namespace Location

open Text

/-- The place right behind the text `before`. -/
def after (before : List Char) : Location where
  offset := utf8Length before
  line := before.count '\n' + 1
  column := (lastLine before).length + 1

/-- The place `offset` bytes into `source`; an offset past the end means the end. -/
def ofOffset (source : String) (offset : Nat) : Location :=
  after (takeBytes offset source.toList)

/-- The message for `text` at this place. -/
def describe (place : Location) (text : String) : String :=
  s!"Parse error at {place.line}:{place.column} (offset {place.offset}): {text}"

end Location

end HornQuery
