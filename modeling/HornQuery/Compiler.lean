import HornQuery.BodyPolicy
import HornQuery.Error
import HornQuery.Program
import HornQuery.Scope
import HornQuery.SymbolTable

/-!
# Compiling goals

A list of goals becomes one scan. A goal on a fact relation draws from the table of its arity; a goal
on a rule becomes the existence of a combination in the rule's own scan, with the rule's head variables
replaced by the goal's arguments. A rule shadows facts of the same name and arity.

A compiler remembers the fragments of the rules compiled so far, why others failed, and how many scopes
it has opened. A scope is counted when it is opened, also if the goals then turn out not to compile.

A query with a single goal on a compiled rule and without variables needs no scope: it reuses the
rule's fragment and supplies the head variables at execution (`Compiler.reuse`).
-/

namespace HornQuery

/-- A query ready to be executed. -/
structure CompiledQuery where
  /-- What to execute. -/
  fragment : Fragment
  /-- Texts for placeholders, taken from the query's own constants. -/
  bindings : List (Placeholder × String) := []
  /-- Whether the goal can never match the rule's head. -/
  unsatisfiable : Bool := false

/-- The state of compilation. -/
structure Compiler where
  /-- The program whose goals are compiled. -/
  program : Program
  /-- The numbers of its symbols. -/
  symbols : SymbolTable
  /-- Which goals take part. -/
  policy : BodyPolicy
  /-- The rules compiled, in the order in which they were. -/
  fragments : List (Symbol × Fragment) := []
  /-- The rules that failed, and why; the latest entry for a rule counts. -/
  failures : List (Symbol × String) := []
  /-- How many scopes have been opened. -/
  scopes : Nat := 0

/-- The numbers of a program's symbols. -/
def Program.symbolTable (p : Program) : SymbolTable := .ofList p.symbols

/-- A compiler that has compiled nothing. -/
def Compiler.fresh (program : Program) (symbols : SymbolTable) (policy : BodyPolicy) : Compiler :=
  { program, symbols, policy }

/-- The compiler that starts on a program, with the program's own numbers. -/
def Program.compiler (p : Program) (policy : BodyPolicy) : Compiler :=
  .fresh p p.symbolTable policy

namespace Compiler

/-! ### What is known of rules -/

/-- The fragment of a compiled rule. -/
def fragment? (c : Compiler) (key : Symbol) : Option Fragment :=
  c.fragments.lookup key

/-- Whether a rule has been compiled. -/
def isCompiled (c : Compiler) (key : Symbol) : Bool :=
  (c.fragment? key).isSome

/-- Record that a rule cannot be compiled. -/
def markFailed (c : Compiler) (key : Symbol) (reason : String) : Compiler :=
  { c with failures := (key, reason) :: c.failures }

/-- Open a scope. -/
def openScope (c : Compiler) : Scope × Compiler :=
  (⟨c.scopes + 1, 0, [], [], []⟩, { c with scopes := c.scopes + 1 })

/-! ### Arguments -/

/-- The number of a constant. -/
def literal (c : Compiler) (text : String) : Except CompileError Expr :=
  match c.symbols.constant? text with
  | some id => .ok (.int id)
  | none => .error (.unknownSymbol (.constant text))

/-- The number of an argument's value. Inside a rule the head variables are placeholders. -/
def argument (c : Compiler) (rule : Option Rule) (s : Scope) :
    Term → Except CompileError (Expr × Scope)
  | .var name =>
    match rule.filter (·.isParam name) with
    | some r => .ok (.param (.rule r.key name), s)
    | none => .ok (s.idOf name)
  | .param name => .ok (.param (.external name), s)
  | .const text => (c.literal text).map fun e ↦ (e, s)

/-! ### Goals -/

/-- Equate the argument columns of a drawn row, from the given place on, with terms. -/
def matchColumns (c : Compiler) (rule : Option Rule) (source : String) :
    Nat → List Term → Scope → Except CompileError Scope
  | _, [], s => .ok s
  | position, t :: ts, s => do
    let (value, s) ← c.argument rule s t
    c.matchColumns rule source (position + 1) ts
      (s.equate (.column source (Schema.argColumn position)) value)

/-- Draw from a fact relation. -/
def addFacts (c : Compiler) (rule : Option Rule) (s : Scope) (g : Goal) :
    Except CompileError Scope :=
  match c.symbols.get? g.symbol with
  | none => .error (.unknownSymbol g.symbol)
  | some id =>
    let (source, s) := s.addTable g.args.length
    c.matchColumns rule source 1 g.args (s.equate (.column source Schema.functorColumn) (.int id))

/-- Bind the head variables of the rule `key` to arguments, pair by pair. A variable that comes again
has to agree with its first argument, and a constant in the head with the argument in its place. -/
def matchHead (c : Compiler) (rule : Option Rule) (key : Symbol) :
    List (Term × Term) → Bindings → Scope → Except CompileError (Bindings × Scope)
  | [], b, s => .ok (b, s)
  | (head, arg) :: rest, b, s => do
    let (value, s) ← c.argument rule s arg
    match head with
    | .var name =>
      match b.lookup (.rule key name) with
      | some previous => c.matchHead rule key rest b (s.equate previous value)
      | none => c.matchHead rule key rest (b ++ [(.rule key name, value)]) s
    | .const text =>
      let expected ← c.literal text
      c.matchHead rule key rest b (s.equate value expected)
    | .param _ => c.matchHead rule key rest b s

/-- Require a compiled rule to hold of a goal's arguments. -/
def addRule (c : Compiler) (rule : Option Rule) (s : Scope) (g : Goal) (fragment : Fragment) :
    Except CompileError Scope :=
  match c.program.rule? g.symbol with
  | none => .error (.unknownRelation g.symbol)
  | some callee => do
    let (b, s) ← c.matchHead rule g.symbol (callee.head.zip g.args) [] s
    return s.require (.exists (fragment.scan.substitute b))

/-- Add a goal to a scope. -/
def addGoal (c : Compiler) (rule : Option Rule) (s : Scope) (g : Goal) :
    Except CompileError Scope :=
  match c.fragment? g.symbol with
  | some fragment => c.addRule rule s g fragment
  | none =>
    match c.failures.lookup g.symbol with
    | some reason => .error (.ruleFailed g.symbol reason)
    | none =>
      if (c.program.rule? g.symbol).isSome then
        .error (.ruleFailed g.symbol "rule is not compiled yet")
      else if c.program.hasFacts g.symbol then c.addFacts rule s g
      else
        match c.program.definedArities g.functor with
        | [] => .error (.unknownRelation g.symbol)
        | defined => .error (.arityMismatch g.symbol defined)

/-- Add goals to a scope, in order. -/
def addGoals (c : Compiler) (rule : Option Rule) : List Goal → Scope → Except CompileError Scope
  | [], s => .ok s
  | g :: gs, s => do
    let s ← c.addGoal rule s g
    c.addGoals rule gs s

/-! ### Rules, patterns and queries -/

/-- Open a scope for goals and ask for the given variables. -/
def compileGoals (c : Compiler) (rule : Option Rule) (goals : List Goal) (names : List String) :
    Compiler × Except CompileError Fragment :=
  let (s, c) := c.openScope
  (c, (c.addGoals rule goals s).map fun s ↦ s.finish names)

/-- Compile a rule, unless it is compiled. Its fragment asks for the body's other variables. -/
def compileRule (c : Compiler) (r : Rule) : Compiler × Except CompileError Fragment :=
  match c.fragment? r.key with
  | some fragment => (c, .ok fragment)
  | none =>
    let goals := c.policy.select r.body
    let names := (Goal.varsOf goals).filter fun name ↦ !r.isParam name
    match c.compileGoals (some r) goals names with
    | (c, .ok fragment) => ({ c with fragments := c.fragments ++ [(r.key, fragment)] }, .ok fragment)
    | (c, .error e) => (c, .error e)

/-- Compile a single goal with a stated arity. -/
def compilePattern (c : Compiler) (g : Goal) (arity : Nat) (names : List String) :
    Compiler × Except CompileError Fragment :=
  if g.args.length = arity then c.compileGoals none [g] names
  else (c, .error (.arityMismatch g.symbol [arity]))

/-- How a goal without variables meets the head of a rule. -/
structure HeadMatch where
  /-- Texts for head variables that meet constants. -/
  bindings : List (Placeholder × String) := []
  /-- Parameters for head variables that meet parameters. -/
  external : Bindings := []
  /-- Whether two constants that have to agree do not. -/
  unsatisfiable : Bool := false

/-- Take one more pair of a head term and an argument. There is no result where the pair can only be
judged by an equation in the scan. -/
def HeadMatch.step? (key : Symbol) (m : HeadMatch) : Term × Term → Option HeadMatch
  | (.var name, .const text) =>
    if (m.external.lookup (.rule key name)).isSome then none
    else
      match m.bindings.lookup (.rule key name) with
      | some previous => some { m with unsatisfiable := m.unsatisfiable || previous ≠ text }
      | none => some { m with bindings := m.bindings ++ [(.rule key name, text)] }
  | (.var name, .param outer) =>
    if (m.bindings.lookup (.rule key name)).isSome || (m.external.lookup (.rule key name)).isSome then none
    else some { m with external := m.external ++ [(.rule key name, .param (.external outer))] }
  | (.const expected, .const text) =>
    some { m with unsatisfiable := m.unsatisfiable || expected ≠ text }
  | _ => none

/-- The query for a goal without variables on a compiled rule, from the rule's own fragment. -/
def reuse (c : Compiler) (g : Goal) : Option CompiledQuery := do
  let rule ← c.program.rule? g.symbol
  let m ← (rule.head.zip g.args).foldlM (HeadMatch.step? g.symbol) {}
  let fragment ← c.fragment? g.symbol
  return { fragment := ⟨fragment.scan.substitute m.external, .existence⟩
           bindings := m.bindings
           unsatisfiable := m.unsatisfiable }

/-- The query from the cache, where that is possible. -/
def reuse? (c : Compiler) (goals : List Goal) : Option CompiledQuery :=
  match goals with
  | [g] => if g.args.all (fun t ↦ !t.isVar) && c.isCompiled g.symbol then c.reuse g else none
  | _ => none

/-- Compile a query. -/
def compileQuery (c : Compiler) (q : Query) : Compiler × Except CompileError CompiledQuery :=
  let goals := c.policy.select q.goals
  match c.reuse? goals with
  | some compiled => (c, .ok compiled)
  | none =>
    let (c, result) := c.compileGoals none goals (Goal.varsOf goals)
    (c, result.map fun fragment ↦ { fragment })

end Compiler

end HornQuery
