import HornQuery.Config.Json
import HornQuery.Session

/-!
# The command line

Arguments are read from left to right, and the first one that decides the outcome does: a request for
help or the version, or a misuse. Otherwise the named file is run.
-/

namespace HornQuery.CommandLine

/-! ### Arguments -/

/-- What the arguments ask a run to be. -/
structure Options where
  /-- The source file. -/
  file : Option String := none
  /-- Where the store lives. -/
  backend : Option Backend := none
  /-- The largest number of passes. -/
  maxPasses : Option Nat := none
  /-- Whether only first goals take part. -/
  firstClauseOnly : Bool := false
  /-- Values of query parameters. -/
  params : List (String × String) := []
  /-- How results are written. -/
  format : Option OutputFormat := none
  /-- A configuration file. -/
  config : Option String := none
  /-- Whether SQL is shown. -/
  showSql : Bool := false
  /-- How much is logged. -/
  verbosity : Nat := 0
deriving DecidableEq, Repr

/-- What the arguments ask for. -/
inductive Command where
  /-- To run a file. -/
  | run (file : String) (options : Options)
  /-- To describe the arguments. -/
  | help
  /-- To name the version. -/
  | version
  /-- Nothing that makes sense. -/
  | misuse
deriving DecidableEq, Repr

/-- A parameter written `name=value`, split at the first equals sign. Leading colons of the name are
dropped. -/
def parseParam? (s : String) : Option (String × String) :=
  let text := s.toList
  match text.takeWhile (· ≠ '='), text.dropWhile (· ≠ '=') with
  | [], _ => none
  | name, '=' :: value => some (String.ofList (name.dropWhile (· = ':')), String.ofList value)
  | _, _ => none

/-- A number of passes in decimal digits, with an optional plus sign. -/
def parsePasses? (s : String) : Option Nat :=
  let digits := match s.toList with
    | '+' :: r => r
    | r => r
  if digits.isEmpty || !digits.all Char.isDigit then none
  else
    let n := Json.digitsValue digits
    if n < Config.passBound then some n else none

/-- Set an option that takes a value. An option that may be given once is refused the second time. -/
def Options.setValue (o : Options) (name value : String) : Option Options :=
  match name with
  | "backend" => if o.backend.isSome then none else some { o with backend := some (.ofText value) }
  | "max-passes" =>
    if o.maxPasses.isSome then none
    else (parsePasses? value).map fun n ↦ { o with maxPasses := some n }
  | "param" => (parseParam? value).map fun p ↦ { o with params := o.params ++ [p] }
  | "format" =>
    if o.format.isSome then none
    else (OutputFormat.ofName? value).map fun f ↦ { o with format := some f }
  | "config" =>
    if o.config.isSome || value.isEmpty then none else some { o with config := some value }
  | _ => none

/-- The options that take a value. -/
def valueOptions : List String := ["backend", "max-passes", "param", "format", "config"]

/-- Set an option that takes no value. -/
def Options.setFlag (o : Options) (name : String) : Option Options :=
  match name with
  | "first-clause-only" => if o.firstClauseOnly then none else some { o with firstClauseOnly := true }
  | "show-sql" => if o.showSql then none else some { o with showSql := true }
  | "verbose" => some { o with verbosity := o.verbosity + 1 }
  | _ => none

/-- Take a file name. There is one, and it is not empty. -/
def Options.setFile (o : Options) (name : String) : Option Options :=
  if o.file.isSome || name.isEmpty then none else some { o with file := some name }

/-- Whether an argument can only be an option. A single dash is not one. -/
def isOption (arg : String) : Bool :=
  match arg.toList with
  | '-' :: _ :: _ => true
  | _ => false

/-- The command for options that are complete. -/
def Options.command (o : Options) : Command :=
  match o.file with
  | some file => .run file o
  | none => .misuse

/-- Take arguments that are all file names. -/
def parseFiles (o : Options) : List String → Command
  | [] => o.command
  | arg :: rest =>
    match o.setFile arg with
    | some o => parseFiles o rest
    | none => .misuse

/-- Take the letters of a short option: the options so far, or the command that ends it all. -/
def parseShort (o : Options) : List Char → Options ⊕ Command
  | [] => .inl o
  | 'v' :: rest => parseShort { o with verbosity := o.verbosity + 1 } rest
  | 'h' :: _ => .inr .help
  | 'V' :: _ => .inr .version
  | _ => .inr .misuse

/-- Take arguments. -/
def parseFrom (o : Options) : List String → Command
  | [] => o.command
  | arg :: rest =>
    match arg.toList with
    | ['-', '-'] => parseFiles o rest
    | '-' :: '-' :: long =>
      let name := String.ofList (long.takeWhile (· ≠ '='))
      match long.dropWhile (· ≠ '=') with
      | _ :: value =>
        if valueOptions.contains name then
          match o.setValue name (String.ofList value) with
          | some o => parseFrom o rest
          | none => .misuse
        else .misuse
      | [] =>
        if name = "help" then .help
        else if name = "version" then .version
        else if valueOptions.contains name then
          match rest with
          | value :: rest =>
            if isOption value then .misuse
            else
              match o.setValue name value with
              | some o => parseFrom o rest
              | none => .misuse
          | [] => .misuse
        else
          match o.setFlag name with
          | some o => parseFrom o rest
          | none => .misuse
    | '-' :: c :: short =>
      match parseShort o (c :: short) with
      | .inl o => parseFrom o rest
      | .inr command => command
    | _ =>
      match o.setFile arg with
      | some o => parseFrom o rest
      | none => .misuse

/-- What arguments ask for. -/
def parse (args : List String) : Command :=
  parseFrom {} args

/-! ### Commands -/

/-- The version line. -/
def versionText : String := "hornsql 0.1.0\n"

/-- The description of the arguments. -/
def helpText : String :=
  "Compile facts, rules and queries into SQL and run them

Usage: hornsql [OPTIONS] <FILE>

Arguments:
  <FILE>  Program source file

Options:
      --backend <BACKEND>        `memory` or a SQLite database path
      --max-passes <MAX_PASSES>  Upper bound on rule resolution passes
      --first-clause-only        Compile only the first clause of every rule body and query
      --param <PARAMS>           Value for a `:name` query parameter, as name=value
      --format <FORMAT>          Output format: text or json
      --config <CONFIG>          JSON configuration file; flags override it
      --show-sql                 Print the generated SQL for every query
  -v, --verbose...               More logging on stderr (-v debug, -vv trace)
  -h, --help                     Print help
  -V, --version                  Print version
"

/-- The short description of the arguments. -/
def usageText : String := "Usage: hornsql [OPTIONS] <FILE>"

/-- How a command ends. -/
structure Exit where
  /-- The exit code. -/
  code : Nat
  /-- What is printed. -/
  output : String := ""
  /-- The error message, if there is one. -/
  error : Option String := none
  /-- The log. -/
  log : List String := []
deriving DecidableEq, Repr

/-- A failure of a run. -/
def Exit.failure (message : String) (log : List String) : Exit :=
  { code := 1, error := some s!"Error: {message}", log }

/-- A configuration with the options set. -/
def Options.apply (o : Options) (c : Config) : Config :=
  let c := { c with
    backend := o.backend.getD c.backend
    maxPasses := o.maxPasses.getD c.maxPasses
    bodyPolicy := if o.firstClauseOnly then .firstClause else c.bodyPolicy
    output := o.format.getD c.output
    showSql := o.showSql || c.showSql }
  o.params.foldl (fun c (name, value) ↦ c.setParam name value) c

/-- The log level for a verbosity. -/
def levelOf (verbosity : Nat) : Level :=
  match verbosity with
  | 0 => .info
  | 1 => .debug
  | _ => .trace

/-- The end of a run of a file. -/
def finish (file : String) (config : Config) (level : Level) (r : Run) : Exit :=
  let log := Event.logAt level (.running file config.backend :: r.log)
  match r.result with
  | .error e => .failure s!"{file}: {e.message}" log
  | .ok report => { code := 0, output := report.render config.output, log }

variable {m : Type → Type} [Monad m]

/-- The configuration that options ask for: the file they name, or the default, with options set. -/
def Options.load (fs : FileSystem m) (o : Options) : m (Except Exit Config) := do
  match o.config with
  | none => return .ok (o.apply {})
  | some path =>
    match (← fs.read path).bind Config.parse? with
    | some c => return .ok (o.apply c)
    | none => return .error (.failure s!"failed to load config {Text.quote path}" [])

/-- Run a file: configuration first, then the source text, then the store. -/
def runFile (fs : FileSystem m) (file : String) (o : Options) : m Exit := do
  match ← o.load fs with
  | .error e => return e
  | .ok config =>
    match ← fs.read file with
    | none => return .failure s!"failed to read {Text.quote file}" []
    | some source =>
      let level := levelOf o.verbosity
      match ← fs.openSession config with
      | .ok session => return finish file config level (session.start source)
      | .error _ =>
        return .failure "failed to open store" (Event.logAt level [.running file config.backend])

/-- Carry out what arguments ask for. -/
def run (fs : FileSystem m) (args : List String) : m Exit :=
  match parse args with
  | .help => pure { code := 0, output := helpText }
  | .version => pure { code := 0, output := versionText }
  | .misuse => pure { code := 2, log := [usageText] }
  | .run file o => runFile fs file o

end HornQuery.CommandLine
