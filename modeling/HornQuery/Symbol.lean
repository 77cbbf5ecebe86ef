/-!
# Symbols

A symbol is a text together with an arity. With arity zero it is a constant; with any arity it names
the relation (facts or a rule) that is applied to that many arguments. `likes/0` and `likes/2` are
different symbols.
-/

namespace HornQuery

/-- A text with an arity, written `text/arity`. -/
structure Symbol where
  /-- The name itself. -/
  text : String
  /-- The number of arguments it takes. -/
  arity : Nat
deriving DecidableEq, Repr

namespace Symbol

/-- The constant named `text`. -/
def constant (text : String) : Symbol := ⟨text, 0⟩

/-- The written form `text/arity`. -/
def display (s : Symbol) : String := s!"{s.text}/{s.arity}"

end Symbol

end HornQuery
