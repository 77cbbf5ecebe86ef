import HornQuery.ParseError
import HornQuery.Text.Blank

/-!
# Reading syntax trees

Every reader takes the text still to be read and returns what it found with the text behind it. A
failure keeps the text at which it arose instead of a number, so that no reader depends on what came
before its own text; offsets are measured once, by `parseTree` and `parseTerm`.

Inside a clause blanks and comments may stand between any two tokens (`skipLayout`), except that an
opening parenthesis follows its name directly. Between clauses only blanks are skipped, and a comment
there is a node of its own.

Terms nest, so `term` takes a bound on the depth. One more than the length of the text is always
enough, because each level reads a name and a parenthesis.
-/

namespace HornQuery.Node

open Text

namespace Reader

/-- A fault, and the text that was still to be read when it was found. -/
structure Failure where
  /-- What is wrong. -/
  fault : Fault
  /-- The text from the place of the fault to the end. -/
  rest : List Char
deriving DecidableEq, Repr

/-! ### Characters and layout -/

/-- The characters of names: ASCII letters, digits and the underscore. -/
def isNameChar (c : Char) : Bool :=
  c.isAlphanum || c == '_'

/-- The text behind the first newline. -/
def skipLine : List Char → List Char
  | [] => []
  | c :: s => if c = '\n' then s else skipLine s

mutual

/-- The text behind all blanks and comments at the start of a text. -/
def skipLayout : List Char → List Char
  | [] => []
  | c :: s => if isBlank c then skipLayout s else if c = '%' then skipComment s else c :: s

/-- The text behind the rest of a comment and all layout that follows it. -/
def skipComment : List Char → List Char
  | [] => []
  | c :: s => if c = '\n' then skipLayout s else skipComment s

end

/-- The text behind `token`, which may have layout before it. -/
def expect (token : Char) (s : List Char) : Except Failure (List Char) :=
  match skipLayout s with
  | c :: r => if c = token then .ok r else .error ⟨.expected token.toString, c :: r⟩
  | [] => .error ⟨.expected token.toString, []⟩

/-! ### Names and numerals -/

/-- The longest name at the start of a text, possibly empty. -/
def name (s : List Char) : String × List Char :=
  (String.ofList (s.takeWhile isNameChar), s.dropWhile isNameChar)

/-- Whether a numeral starts here: a digit, or a period right before a digit. -/
def startsNumeral : List Char → Bool
  | '.' :: c :: _ => c.isDigit
  | c :: _ => c.isDigit
  | [] => false

/-- A numeral: digits, and a period with more digits if one follows it directly. -/
def numeral (s : List Char) : String × List Char :=
  let whole := s.takeWhile Char.isDigit
  match s.dropWhile Char.isDigit with
  | '.' :: c :: r =>
    if c.isDigit then
      (String.ofList (whole ++ '.' :: (c :: r).takeWhile Char.isDigit), (c :: r).dropWhile Char.isDigit)
    else (String.ofList whole, '.' :: c :: r)
  | r => (String.ofList whole, r)

/-- The rest of a quoted name behind its opening quote. There are no escapes, and the name ends on
its line; `start` is the text from the opening quote on, where a missing end is reported. -/
def quoted (start s : List Char) : Except Failure (String × List Char) :=
  match s.dropWhile (fun c ↦ c ≠ '\'' && c ≠ '\n') with
  | '\'' :: r => .ok (String.ofList (s.takeWhile fun c ↦ c ≠ '\'' && c ≠ '\n'), r)
  | _ => .error ⟨.unclosedQuote, start⟩

/-! ### Terms -/

/-- One or more items with commas between them, at most `bound` of them. The text returned starts
behind the layout that follows the last item. -/
def commaList (item : List Char → Except Failure (Node × List Char)) :
    Nat → List Char → Except Failure (List Node × List Char)
  | 0, s => .error ⟨.missingTerm, s⟩
  | bound + 1, s => do
    let (x, r) ← item s
    match skipLayout r with
    | ',' :: r =>
      let (xs, r) ← commaList item bound r
      return (x :: xs, r)
    | r => return ([x], r)

/-- The arguments of `name` if a parenthesis follows directly, else `name` by itself. -/
def application (args : List Char → Except Failure (List Node × List Char)) (name : String) :
    List Char → Except Failure (Node × List Char)
  | '(' :: r => do
    let (xs, r) ← args r
    let r ← expect ')' r
    return (.compound name xs, r)
  | r => .ok (.atom name, r)

/-- A term of depth at most `depth`. Its first character decides what it is. -/
def term : Nat → List Char → Except Failure (Node × List Char)
  | 0, s => .error ⟨.missingTerm, s⟩
  | depth + 1, s =>
    match skipLayout s with
    | [] => .error ⟨.missingTerm, []⟩
    | c :: r =>
      if startsNumeral (c :: r) then
        let (text, r) := numeral (c :: r)
        .ok (.atom text, r)
      else if c = ':' then
        let (text, r) := name r
        if text.isEmpty then .error ⟨.missingParamName, r⟩ else .ok (.param text, r)
      else if c.isUpper then
        let (text, r) := name (c :: r)
        .ok (.var text, r)
      else if c.isLower then
        let (text, r) := name (c :: r)
        application (commaList (term depth) depth) text r
      else if c = '\'' then do
        let (text, r) ← quoted (c :: r) r
        application (commaList (term depth) depth) text r
      else .error ⟨.unexpectedChar c, c :: r⟩

/-- One or more goals with commas between them; a semicolon behind them is refused. -/
def goals (s : List Char) : Except Failure (List Node × List Char) := do
  let (gs, r) ← commaList (term (s.length + 1)) (s.length + 1) s
  match r with
  | ';' :: _ => .error ⟨.disjunction, r⟩
  | _ => return (gs, r)

/-! ### Clauses -/

/-- The part of `s` before its end `rest`. -/
def consumed (s rest : List Char) : List Char :=
  s.take (s.length - rest.length)

/-- A comment behind its percent sign. Carriage returns before the end of the line are dropped. -/
def comment (s : List Char) : Node × List Char :=
  let line := s.takeWhile (· ≠ '\n')
  (.comment (String.ofList (line.reverse.dropWhile (· = '\r')).reverse), skipLine s)

/-- A query behind its mark. Its text runs from the first goal to the closing period, trimmed. -/
def query (s : List Char) : Except Failure (Node × List Char) := do
  let start := skipLayout s
  let (gs, r) ← goals start
  let behind ← expect '.' r
  return (.query gs (String.ofList (trim (consumed start r))), behind)

/-- A rule or a fact. -/
def assertion (s : List Char) : Except Failure (Node × List Char) := do
  let (head, r) ← term (s.length + 1) s
  match skipLayout r with
  | ':' :: '-' :: r =>
    let (body, r) ← goals r
    let r ← expect '.' r
    return (.rule head body, r)
  | r =>
    let r ← expect '.' r
    return (.fact head, r)

/-- A clause, told by its first characters. -/
def clause : List Char → Except Failure (Node × List Char)
  | '%' :: s => .ok (comment s)
  | '?' :: '-' :: s => query s
  | s => assertion s

/-- All clauses of a text, at most `bound` of them, each with the text that starts with it. -/
def clauses : Nat → List Char → Except Failure (List (List Char × Node))
  | 0, _ => .ok []
  | bound + 1, s =>
    match s.dropWhile isBlank with
    | [] => .ok []
    | s => do
      let (node, r) ← clause s
      let more ← clauses bound r
      return ((s, node) :: more)

end Reader

/-! ### Whole texts -/

open Reader

/-- The byte offset in `source` at which its end `rest` starts. -/
def offsetOf (source rest : List Char) : Nat :=
  utf8Length source - utf8Length rest

/-- A failure as an error of the whole text `source`. -/
def Reader.Failure.toError (source : String) (failure : Failure) : ParseError :=
  .ofOffset source (offsetOf source.toList failure.rest) failure.fault

/-- The clauses of a source text. -/
def parseTree (source : String) : Except ParseError (List Located) :=
  let text := source.toList
  match clauses text.length text with
  | .ok found => .ok (found.map fun (rest, node) ↦ ⟨offsetOf text rest, node⟩)
  | .error failure => .error (failure.toError source)

/-- The term at the start of a text; what follows it is not looked at. -/
def parseTerm (source : String) : Except ParseError Node :=
  let text := source.toList
  match term (text.length + 1) text with
  | .ok (node, _) => .ok node
  | .error failure => .error (failure.toError source)

end HornQuery.Node
