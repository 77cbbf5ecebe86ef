import HornQuery.Node.Reader

/-!
# Reading by byte offsets

A second way to read a text: the text stays whole, and a cursor moves along it by bytes. The width of a
character is added when it is passed, and one or two bytes when a token of ASCII characters is. Whatever
is looked at is cut out of the text at such offsets, and a cut inside a character or behind the end is
not possible (`Stop.split`).

The readers of `Node.Reader` need no offsets and cannot cut at a wrong place. Both ways lead to the same
clauses, at the same offsets, and to the same errors, so no cut goes wrong.
-/

namespace HornQuery.Node

open Text

namespace Cursor

/-- Why reading ends before the text does. -/
inductive Stop where
  /-- Something is wrong with the text. -/
  | refused (e : ParseError)
  /-- The text would have to be cut at an offset that is not between two characters. -/
  | split (offset : Nat)
deriving DecidableEq, Repr

/-! ### Cutting texts -/

/-- The text behind its first `bytes` bytes, unless that cuts a character. -/
def dropBytes? : Nat → List Char → Option (List Char)
  | bytes, [] => if bytes = 0 then some [] else none
  | bytes, c :: s =>
    if bytes = 0 then some (c :: s)
    else if c.utf8Size ≤ bytes then dropBytes? (bytes - c.utf8Size) s
    else none

/-- The first `bytes` bytes of a text, unless that cuts a character. -/
def takeBytes? : Nat → List Char → Option (List Char)
  | bytes, [] => if bytes = 0 then some [] else none
  | bytes, c :: s =>
    if bytes = 0 then some []
    else if c.utf8Size ≤ bytes then (takeBytes? (bytes - c.utf8Size) s).map (c :: ·)
    else none

theorem utf8Length_of_dropBytes? {bytes : Nat} {s r : List Char} (h : dropBytes? bytes s = some r) :
    bytes + utf8Length r = utf8Length s := by
  induction s generalizing bytes with
  | nil =>
    rw [dropBytes?] at h
    split at h
    · obtain rfl := Option.some.inj h
      omega
    · cases h
  | cons c s ih =>
    rw [dropBytes?] at h
    split at h
    · obtain rfl := Option.some.inj h
      omega
    · split at h
      · have hrest := ih h
        rw [utf8Length]
        omega
      · cases h

variable (source : String)

/-- The text from an offset on. -/
def remaining (pos : Nat) : Except Stop (List Char) :=
  match dropBytes? pos source.toList with
  | some rest => .ok rest
  | none => .error (.split pos)

/-- Whether the text from an offset on starts with `token`. -/
def startsWith (token : List Char) (pos : Nat) : Except Stop Bool := do
  return token.isPrefixOf (← remaining source pos)

/-- The text between two offsets. -/
def slice (start stop : Nat) : Except Stop (List Char) := do
  let rest ← remaining source start
  if stop < start then .error (.split stop)
  else
    match takeBytes? (stop - start) rest with
    | some s => return s
    | none => .error (.split stop)

/-- A fault at an offset. -/
def refuse (pos : Nat) (fault : Fault) : Stop := .refused (.ofOffset source pos fault)

/-- Behind a character, less of the text is left. -/
theorem lt_of_remaining {pos : Nat} {c : Char} {r : List Char}
    (h : remaining source pos = .ok (c :: r)) :
    utf8Length source.toList - (pos + c.utf8Size) < utf8Length source.toList - pos := by
  have hdrop : dropBytes? pos source.toList = some (c :: r) := by
    unfold remaining at h
    split at h
    · rename_i heq
      rw [heq, Except.ok.inj h]
    · cases h
  have hlength := utf8Length_of_dropBytes? hdrop
  have hpos := c.utf8Size_pos
  rw [utf8Length] at hlength
  omega

/-! ### Moving on -/

/-- Pass characters as long as they satisfy a test. -/
def skipWhile (test : Char → Bool) (pos : Nat) : Except Stop Nat :=
  match _h : remaining source pos with
  | .error e => .error e
  | .ok [] => .ok pos
  | .ok (c :: _) => if test c then skipWhile test (pos + c.utf8Size) else .ok pos
termination_by utf8Length source.toList - pos
decreasing_by exact lt_of_remaining source _h

/-- Pass the rest of a line, with its newline. -/
def skipLine (pos : Nat) : Except Stop Nat :=
  match _h : remaining source pos with
  | .error e => .error e
  | .ok [] => .ok pos
  | .ok (c :: _) => if c = '\n' then .ok (pos + c.utf8Size) else skipLine (pos + c.utf8Size)
termination_by utf8Length source.toList - pos
decreasing_by exact lt_of_remaining source _h

theorem le_of_skipWhile {test : Char → Bool} {pos p : Nat} (h : skipWhile source test pos = .ok p) :
    pos ≤ p := by
  fun_induction skipWhile source test pos with
  | case1 pos e heq => cases h
  | case2 pos heq => exact Nat.le_of_eq (Except.ok.inj h)
  | case3 pos c r heq htest ih => exact Nat.le_trans (Nat.le_add_right _ _) (ih h)
  | case4 pos c r heq htest => exact Nat.le_of_eq (Except.ok.inj h)

theorem le_of_skipLine {pos p : Nat} (h : skipLine source pos = .ok p) : pos ≤ p := by
  fun_induction skipLine source pos with
  | case1 pos e heq => cases h
  | case2 pos heq => exact Nat.le_of_eq (Except.ok.inj h)
  | case3 pos r heq =>
    obtain rfl := Except.ok.inj h
    exact Nat.le_add_right _ _
  | case4 pos c r heq hnewline ih => exact Nat.le_trans (Nat.le_add_right _ _) (ih h)

/-- If there is a line, at least one character of it is passed. -/
theorem lt_of_skipLine {pos p : Nat} {c : Char} {r : List Char}
    (hrest : remaining source pos = .ok (c :: r)) (h : skipLine source pos = .ok p) : pos < p := by
  have hpos := c.utf8Size_pos
  rw [skipLine] at h
  split at h
  · rename_i heq
    cases hrest.symm.trans heq
  · rename_i heq
    cases hrest.symm.trans heq
  · rename_i c' r' heq
    obtain ⟨rfl, -⟩ := List.cons.inj (Except.ok.inj (hrest.symm.trans heq))
    split at h
    · have hle := Nat.le_of_eq (Except.ok.inj h)
      omega
    · have hle := le_of_skipLine source h
      omega

/-- Pass blanks and comments. -/
def skipLayout (pos : Nat) : Except Stop Nat :=
  match _hblank : skipWhile source isBlank pos with
  | .error e => .error e
  | .ok p =>
    match _hrest : remaining source p with
    | .error e => .error e
    | .ok [] => .ok p
    | .ok (c :: _) =>
      if c = '%' then
        match _hline : skipLine source p with
        | .error e => .error e
        | .ok q => skipLayout q
      else .ok p
termination_by utf8Length source.toList - pos
decreasing_by
  have hblank := le_of_skipWhile source _hblank
  have hline := lt_of_skipLine source _hrest _hline
  have hleft := lt_of_remaining source _hrest
  omega

/-- Pass layout and then `token`. -/
def expect (token : Char) (pos : Nat) : Except Stop Nat := do
  let pos ← skipLayout source pos
  match ← remaining source pos with
  | c :: _ =>
    if c = token then return pos + token.utf8Size
    else .error (refuse source pos (.expected token.toString))
  | [] => .error (refuse source pos (.expected token.toString))

/-! ### Names and numerals -/

/-- Pass a name, possibly empty. -/
def name (pos : Nat) : Except Stop (String × Nat) := do
  let stop ← skipWhile source Reader.isNameChar pos
  return (String.ofList (← slice source pos stop), stop)

/-- Pass a numeral. -/
def numeral (pos : Nat) : Except Stop (String × Nat) := do
  let stop ← skipWhile source Char.isDigit pos
  let stop ←
    match ← remaining source stop with
    | '.' :: c :: _ => if c.isDigit then skipWhile source Char.isDigit (stop + 1) else pure stop
    | _ => pure stop
  return (String.ofList (← slice source pos stop), stop)

/-- Pass a quoted name from its opening quote on. -/
def quoted (pos : Nat) : Except Stop (String × Nat) := do
  let stop ← skipWhile source (fun c ↦ c ≠ '\'' && c ≠ '\n') (pos + 1)
  if ← startsWith source ['\''] stop then
    return (String.ofList (← slice source (pos + 1) stop), stop + 1)
  else .error (refuse source pos .unclosedQuote)

/-! ### Terms -/

/-- Pass one or more items with commas between them, at most `bound` of them, and the layout behind
them. -/
def commaList (item : Nat → Except Stop (Node × Nat)) : Nat → Nat → Except Stop (List Node × Nat)
  | 0, pos => .error (refuse source pos .missingTerm)
  | bound + 1, pos => do
    let (x, pos) ← item pos
    let pos ← skipLayout source pos
    if ← startsWith source [','] pos then
      let (xs, pos) ← commaList item bound (pos + 1)
      return (x :: xs, pos)
    else return ([x], pos)

/-- Pass the arguments of `name` if a parenthesis follows directly. -/
def application (args : Nat → Except Stop (List Node × Nat)) (name : String) (pos : Nat) :
    Except Stop (Node × Nat) := do
  if ← startsWith source ['('] pos then
    let (xs, pos) ← args (pos + 1)
    let pos ← expect source ')' pos
    return (.compound name xs, pos)
  else return (.atom name, pos)

/-- Pass a term of depth at most `depth`. -/
def term : Nat → Nat → Except Stop (Node × Nat)
  | 0, pos => .error (refuse source pos .missingTerm)
  | depth + 1, pos => do
    let pos ← skipLayout source pos
    match ← remaining source pos with
    | [] => .error (refuse source pos .missingTerm)
    | c :: r =>
      if Reader.startsNumeral (c :: r) then
        let (text, pos) ← numeral source pos
        return (.atom text, pos)
      else if c = ':' then
        let (text, pos) ← name source (pos + 1)
        if text.isEmpty then .error (refuse source pos .missingParamName) else return (.param text, pos)
      else if c.isUpper then
        let (text, pos) ← name source pos
        return (.var text, pos)
      else if c.isLower then
        let (text, pos) ← name source pos
        application source (commaList source (term depth) depth) text pos
      else if c = '\'' then
        let (text, pos) ← quoted source pos
        application source (commaList source (term depth) depth) text pos
      else .error (refuse source pos (.unexpectedChar c))

/-- Pass one or more goals with commas between them; a semicolon behind them is refused. -/
def goals (pos : Nat) : Except Stop (List Node × Nat) := do
  let bound := (← remaining source pos).length + 1
  let (gs, pos) ← commaList source (term source bound) bound pos
  if ← startsWith source [';'] pos then .error (refuse source pos .disjunction)
  else return (gs, pos)

/-! ### Clauses -/

/-- Pass a comment from its percent sign on. -/
def comment (pos : Nat) : Except Stop (Node × Nat) := do
  let stop ← skipLine source pos
  let line ← slice source (pos + 1) stop
  return (.comment (String.ofList (line.reverse.dropWhile fun c ↦ c = '\r' || c = '\n').reverse), stop)

/-- Pass a query from its mark on. -/
def query (pos : Nat) : Except Stop (Node × Nat) := do
  let start ← skipLayout source (pos + 2)
  let (gs, stop) ← goals source start
  let text ← slice source start stop
  let pos ← expect source '.' stop
  return (.query gs (String.ofList (trim text)), pos)

/-- Pass a rule or a fact. -/
def assertion (pos : Nat) : Except Stop (Node × Nat) := do
  let depth := (← remaining source pos).length + 1
  let (head, pos) ← term source depth pos
  let pos ← skipLayout source pos
  if ← startsWith source [':', '-'] pos then
    let (body, pos) ← goals source (pos + 2)
    let pos ← expect source '.' pos
    return (.rule head body, pos)
  else
    let pos ← expect source '.' pos
    return (.fact head, pos)

/-- Pass a clause. -/
def clause (pos : Nat) : Except Stop (Node × Nat) := do
  if ← startsWith source ['%'] pos then comment source pos
  else if ← startsWith source ['?', '-'] pos then query source pos
  else assertion source pos

/-- Pass all clauses, at most `bound` of them. -/
def clauses : Nat → Nat → Except Stop (List Located)
  | 0, _ => .ok []
  | bound + 1, pos => do
    let start ← skipWhile source isBlank pos
    if utf8Length source.toList ≤ start then return []
    else
      let (node, pos) ← clause source start
      let more ← clauses bound pos
      return ⟨start, node⟩ :: more

/-- The clauses of a source text. -/
def parseTree : Except Stop (List Located) :=
  clauses source source.toList.length 0

/-- The term at the start of a text. -/
def parseTerm : Except Stop Node := do
  let (node, _) ← term source (source.toList.length + 1) 0
  return node

end Cursor

end HornQuery.Node
