import HornQuery.ParseError
import HornQuery.Program

/-!
# Surveying clauses

A survey goes through a clause from left to right. It notes every symbol, variable and application
that it comes across and ends with what the clause means or with the first fault. What was noted
before a fault counts all the same: a symbol that stands left of a mistake is known to the program.

`Survey` is a monad with that behaviour: `note` adds an entry, `refuse` stops.
-/

namespace HornQuery

/-- Something a clause mentions. -/
inductive Entry where
  /-- A constant, or the relation of a fact. -/
  | symbol (s : Symbol)
  /-- A variable. -/
  | var (name : String)
  /-- A relation applied to arguments, given in written form. -/
  | occurrence (relation : Symbol) (args : List String)
deriving DecidableEq, Repr

/-- What was noted, and the result or the fault that ended the survey. -/
structure Survey (α : Type) where
  /-- Everything mentioned so far, in order. -/
  entries : List Entry
  /-- The result, or what is wrong. -/
  result : Except Fault α

namespace Survey

variable {α β : Type}

/-- Note one entry. -/
def note (e : Entry) : Survey Unit := ⟨[e], .ok ()⟩

/-- Stop at a fault. -/
def refuse (fault : Fault) : Survey α := ⟨[], .error fault⟩

/-- Go on with the result of `x`, unless it stopped. -/
def andThen (x : Survey α) (f : α → Survey β) : Survey β :=
  match x.result with
  | .ok a => ⟨x.entries ++ (f a).entries, (f a).result⟩
  | .error fault => ⟨x.entries, .error fault⟩

instance : Monad Survey where
  pure a := ⟨[], .ok a⟩
  bind := andThen

/-- The order in which steps are grouped makes no difference. -/
theorem andThen_assoc {γ : Type} (x : Survey α) (f : α → Survey β) (g : β → Survey γ) :
    (x.andThen f).andThen g = x.andThen fun a ↦ (f a).andThen g := by
  rcases x with ⟨entries, _ | a⟩
  · rfl
  · simp only [andThen]
    cases (f a).result <;> simp [List.append_assoc]

instance : LawfulMonad Survey :=
  LawfulMonad.mk' Survey
    (fun x ↦ by rcases x with ⟨entries, _ | a⟩ <;> simp [Functor.map, andThen])
    (fun a f ↦ by simp [bind, pure, andThen])
    andThen_assoc

/-! ### Terms and goals -/

/-- Where a term stands. Facts take no variables, and only queries take parameters. -/
inductive Role where
  | fact | head | body | query
deriving DecidableEq, Repr

/-- An argument. -/
def term (role : Role) : Node → Survey Term
  | .atom text => do
    note (.symbol (.constant text))
    return .const text
  | .var name =>
    if role = .fact then refuse (.openFact name)
    else do
      note (.var name)
      return .var name
  | .param name => if role = .query then return .param name else refuse (.strayParam name)
  | .compound name _ => refuse (.compoundArg name)
  | node => refuse (.nestedClause node.kind)

/-- A head or goal: a name with arguments, or a name alone. -/
def goal (role : Role) : Node → Survey Goal
  | .compound name args => do
    let terms ← args.mapM (term role)
    note (.occurrence ⟨name, terms.length⟩ (terms.map Term.display))
    return ⟨name, terms⟩
  | .atom name => do
    note (.symbol (.constant name))
    note (.occurrence (.constant name) [])
    return ⟨name, []⟩
  | node => refuse (.notPredicate node.kind)

/-! ### Clauses -/

/-- What a clause contributes to a program. -/
inductive Item where
  | comment
  | query (q : Query)
  | rule (r : Rule)
  | fact (f : Fact)
deriving DecidableEq, Repr

/-- A fact. Its relation is noted before its arguments, as it is read first. -/
def fact (node : Node) : Survey Fact := do
  if let .compound name args := node then
    note (.symbol ⟨name, args.length⟩)
  let g ← goal .fact node
  return ⟨g.functor, g.args.filterMap Term.constText?⟩

/-- A rule. -/
def rule (head : Node) (body : List Node) : Survey Rule := do
  let h ← goal .head head
  let b ← body.mapM (goal .body)
  return ⟨h.functor, h.args, b⟩

/-- A query. -/
def query (goals : List Node) (text : String) : Survey Query := do
  let gs ← goals.mapM (goal .query)
  return ⟨gs, text⟩

/-- A clause. -/
def clause : Node → Survey Item
  | .comment _ => return .comment
  | .query goals text => return .query (← query goals text)
  | .rule head body => return .rule (← rule head body)
  | .fact node => return .fact (← fact node)
  | node => refuse (.bareTerm node.kind)

end Survey

end HornQuery
