import HornQuery.Compiler
import HornQuery.Event
import HornQuery.Report

/-!
# Resolving rules

Rules may use other rules, so they are compiled in passes. In a pass, a rule is compiled if everything
it refers to is a fact relation or a rule that was compiled before the pass began. A chain of rules
thus takes as many passes as it is long, whatever the order of declaration.

A rule that uses a relation with a wrong arity fails. A rule that waits for a failed rule, for a
relation that does not exist, or for itself is left over, and then resolution fails as a whole:
`stuckError` says why.
-/

namespace HornQuery

/-- What is known of a rule during resolution. -/
inductive RuleState where
  /-- Not compiled yet. -/
  | pending
  /-- Compiled in this pass. -/
  | compiled (pass : Nat)
  /-- Not to be compiled. -/
  | failed (reason : String)
deriving DecidableEq, Repr

/-- The state of every rule, in order of declaration. -/
abbrev RuleStates := List (Symbol × RuleState)

/-- What a goal refers to. -/
inductive Dependency where
  /-- A fact relation or a compiled rule. -/
  | ready
  /-- A rule that is not compiled yet. -/
  | waiting
  /-- A rule that failed. -/
  | failedRule
  /-- A name that is defined, but only with other arities. -/
  | wrongArity (defined : List Nat)
  /-- A name that is not defined at all. -/
  | undefined
deriving DecidableEq, Repr

/-- Whether a rule can be compiled. -/
inductive Readiness where
  /-- Everything it refers to is ready. -/
  | ready
  /-- Something it refers to is not. -/
  | waiting
  /-- It uses a relation with a wrong arity. -/
  | mismatch (used : Symbol) (defined : List Nat)
deriving DecidableEq, Repr

namespace Resolution

/-- States with the one for a rule replaced. -/
def setState (states : RuleStates) (key : Symbol) (state : RuleState) : RuleStates :=
  states.map fun (k, s) ↦ if k = key then (k, state) else (k, s)

/-- What a goal on `relation` refers to. -/
def classify (p : Program) (states : RuleStates) (relation : Symbol) : Dependency :=
  match states.lookup relation with
  | some (.compiled _) => .ready
  | some (.failed _) => .failedRule
  | some .pending => .waiting
  | none =>
    if p.hasFacts relation then .ready
    else
      match p.definedArities relation.text with
      | [] => .undefined
      | defined => .wrongArity defined

/-- Whether goals can be compiled. The first wrong arity counts more than anything that is not ready. -/
def readiness (p : Program) (states : RuleStates) : List Goal → Readiness
  | [] => .ready
  | g :: gs =>
    match classify p states g.symbol with
    | .ready => readiness p states gs
    | .wrongArity defined => .mismatch g.symbol defined
    | _ =>
      match readiness p states gs with
      | .ready => .waiting
      | r => r

/-- The state of a pass that is under way. -/
structure Pass where
  /-- The compiler. -/
  compiler : Compiler
  /-- The states of the rules, as changed by this pass. -/
  states : RuleStates
  /-- Whether any rule changed its state. -/
  progress : Bool := false
  /-- What happened. -/
  log : List Event := []

/-- Record that a rule failed. -/
def Pass.fail (p : Pass) (key : Symbol) (e : CompileError) : Pass where
  compiler := p.compiler.markFailed key e.message
  states := setState p.states key (.failed e.message)
  progress := true
  log := p.log ++ [.ruleFailed key e.message]

/-- Record that a rule was compiled in pass `number`. -/
def Pass.succeed (p : Pass) (number : Nat) (key : Symbol) (compiler : Compiler) (fragment : Fragment) :
    Pass where
  compiler := compiler
  states := setState p.states key (.compiled number)
  progress := true
  log := p.log ++ (if p.compiler.isCompiled key then [] else [.ruleSql key fragment.sql])
    ++ [.ruleCompiled key number]

/-- Try one rule in pass `number`. What it refers to is judged by the states before the pass. -/
def attempt (number : Nat) (before : RuleStates) (p : Pass) (r : Rule) : Pass :=
  if before.lookup r.key = some .pending then
    match readiness p.compiler.program before (p.compiler.policy.select r.body) with
    | .mismatch used defined => p.fail r.key (.arityMismatch used defined)
    | .waiting => p
    | .ready =>
      match p.compiler.compileRule r with
      | (compiler, .ok fragment) => p.succeed number r.key compiler fragment
      | (compiler, .error e) => { p with compiler }.fail r.key e
  else p

/-- One pass over all rules. -/
def pass (number : Nat) (compiler : Compiler) (states : RuleStates) : Pass :=
  let p := compiler.program.rules.foldl (attempt number states) { compiler, states }
  { p with log := p.log ++ [.passFinished number p.progress] }

/-- Whether a rule is not compiled yet. -/
def anyPending (states : RuleStates) : Bool :=
  states.any fun (_, s) ↦ s = .pending

/-- What all passes together lead to. -/
structure Passes where
  /-- The number of passes made. -/
  count : Nat
  /-- The compiler. -/
  compiler : Compiler
  /-- The states of the rules. -/
  states : RuleStates
  /-- What happened. -/
  log : List Event

/-- Make up to `left` more passes, until no rule is pending or a pass changes nothing. -/
def run : Nat → Passes → Passes
  | 0, p => p
  | left + 1, p =>
    if anyPending p.states then
      let q := pass (p.count + 1) p.compiler p.states
      let p := ⟨p.count + 1, q.compiler, q.states, p.log ++ q.log⟩
      if q.progress then run left p else p
    else p

/-- The first goal of a rule that can never be ready: its relation is not defined, or failed. -/
def hopeless? (c : Compiler) (states : RuleStates) (r : Rule) : Option Symbol :=
  ((c.policy.select r.body).map Goal.symbol).find? fun relation ↦
    match classify c.program states relation with
    | .undefined => true
    | .failedRule => true
    | _ => false

/-- The rules that are still pending, in order of declaration. -/
def stuckRules (c : Compiler) (states : RuleStates) : List Rule :=
  c.program.rules.filter fun r ↦ states.lookup r.key = some .pending

/-- Why rules are left over. A reference that can never be ready is named before a cycle is. -/
def stuckError (c : Compiler) (states : RuleStates) (passes : Nat) : Error :=
  let stuck := stuckRules c states
  match stuck.findSome? fun r ↦ (hopeless? c states r).map fun reference ↦ (r.key, reference) with
  | some (rule, reference) => .cascade rule reference
  | none => .cycle passes (stuck.map Rule.key)

/-- The outcome for a state; a rule without one has not been resolved. -/
def outcome : RuleState → RuleOutcome
  | .compiled pass => .compiled pass
  | .failed reason => .failed reason
  | .pending => .failed "not resolved"

/-- The result of resolution: the compiler with all rules in its cache, and a report or an error. -/
structure Result where
  /-- The compiler. -/
  compiler : Compiler
  /-- What happened. -/
  log : List Event
  /-- The report, or why rules are left over. -/
  report : Except Error ResolutionReport

end Resolution

open Resolution in
/-- Compile every rule of the program, in at most `maxPasses` passes. -/
def Compiler.resolve (c : Compiler) (maxPasses : Nat) : Resolution.Result :=
  let states := c.program.rules.map fun r ↦ (r.key, RuleState.pending)
  let p := run maxPasses ⟨0, c, states, []⟩
  if anyPending p.states then
    let e := stuckError p.compiler p.states p.count
    ⟨p.compiler, p.log ++ [.unresolved e], .error e⟩
  else
    let report : ResolutionReport :=
      ⟨p.count, p.states.map fun (key, state) ↦ ⟨key.display, outcome state⟩⟩
    ⟨p.compiler, p.log ++ [.resolved report.compiled report.passes report.failed], .ok report⟩

end HornQuery
