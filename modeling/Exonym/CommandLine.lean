import Exonym.Format.Output
import Exonym.Report
import Exonym.Settings.Toml

/-!
# The command line

There are two commands: `run` names the graph in a file, `check-config` completes the settings in a file. Arguments
are taken apart first; then the command is carried out, given what is in the files.

Main statements:

* `Invocation.perform_congr`: what a command does depends on the files that it looks at and on no others.
* `Invocation.exitCode_run_iff`, `Invocation.exitCode_checkSettings_iff`: when commands succeed. What a run is written
  as makes no difference to it.
-/

namespace Exonym

inductive OutputFormat where
  | text
  | json
  deriving DecidableEq, Repr

/-- What the arguments ask for. -/
inductive Invocation where
  | run (graph : String) (settings : Option String) (format : OutputFormat)
  | checkSettings (path : String)
  | help
  | version
  deriving DecidableEq, Repr

namespace Invocation

/-! ## Arguments -/

/-- A command that names a file, with the options that it takes. -/
inductive Verb where
  | run
  | checkSettings
  deriving DecidableEq, Repr

def Verb.named? : String → Option Verb
  | "run" => some .run
  | "check-config" => some .checkSettings
  | _ => none

/-- Options with a value; the level of logging may be set everywhere. -/
def Verb.options : Verb → List String
  | .run => ["log-level", "config", "format"]
  | .checkSettings => ["log-level"]

/-- An argument by its form. -/
inductive Argument where
  | operand (text : String)
  /-- A long option, with the value after its equals sign. -/
  | long (name : String) (value : Option String)
  | short (letters : String)
  /-- From here on everything is an operand. -/
  | endOfOptions

def Argument.of (text : String) : Argument :=
  match text.toList with
  | ['-', '-'] => .endOfOptions
  | '-' :: '-' :: option =>
    match Cut.first? '=' option with
    | some (name, value) => .long (.ofList name) (some (.ofList value))
    | none => .long (.ofList option) none
  | '-' :: c :: letters => .short (.ofList (c :: letters))
  | _ => .operand text

/-- What was given to a command: its options and its file. -/
structure Given where
  options : List (String × String)
  file : Option String

def Given.option? (g : Given) (name : String) : Option String :=
  (g.options.find? (·.1 = name)).map (·.2)

/-- Whether a value suits an option: names of files are not empty, and formats are known. -/
def suits (option value : String) : Bool :=
  match option with
  | "config" => value ≠ ""
  | "format" => value = "text" || value = "json"
  | _ => true

/-- Adds an option that was not given before. -/
def Given.addOption? (g : Given) (name value : String) : Option Given :=
  if (g.option? name).isSome || !suits name value then none
  else some { g with options := g.options ++ [(name, value)] }

/-- Adds the file, of which there is one. -/
def Given.addFile? (g : Given) (path : String) : Option Given :=
  if g.file.isSome || path = "" then none else some { g with file := some path }

/-- How arguments are understood: as a request for help, or as options and a file. -/
inductive Understood where
  | help
  | given (g : Given)

/-- Goes through the arguments of a command. `waiting` is an option whose value comes next, `plain` says that there
are no more options. -/
def understand (verb : Verb) (plain : Bool) (waiting : Option String) (g : Given) :
    List String → Option Understood
  | [] => if waiting.isSome then none else some (.given g)
  | text :: rest =>
    if plain then (g.addFile? text).bind (understand verb true none · rest)
    else match waiting, Argument.of text with
      | some name, .operand value => (g.addOption? name value).bind (understand verb false none · rest)
      | some _, _ => none
      | none, .operand path => (g.addFile? path).bind (understand verb false none · rest)
      | none, .endOfOptions => understand verb true none g rest
      | none, .short letters => if letters.toList.head? = some 'h' then some .help else none
      | none, .long "help" none => some .help
      | none, .long name value =>
        if !verb.options.contains name then none
        else match value with
          | some value => (g.addOption? name value).bind (understand verb false none · rest)
          | none => understand verb false (some name) g rest

/-- What a command is to do with what it was given. -/
def invocation? (verb : Verb) : Understood → Option Invocation
  | .help => some .help
  | .given g =>
    g.file.map fun file =>
      match verb with
      | .run => .run file (g.option? "config") (if g.option? "format" = some "json" then .json else .text)
      | .checkSettings => .checkSettings file

/-- Goes through the arguments up to the command. -/
def parseFrom (logLevelGiven : Bool) : List String → Option Invocation
  | [] => none
  | text :: rest =>
    match Argument.of text with
    | .operand "help" =>
      match rest with
      | [] => some .help
      | [topic] => if topic = "help" || (Verb.named? topic).isSome then some .help else none
      | _ => none
    | .operand name =>
      (Verb.named? name).bind fun verb =>
        (understand verb false none ⟨[], none⟩ rest).bind (invocation? verb)
    | .short letters =>
      match letters.toList.head? with
      | some 'h' => some .help
      | some 'V' => some .version
      | _ => none
    | .long "help" none => some .help
    | .long "version" none => some .version
    | .long "log-level" (some _) => if logLevelGiven then none else parseFrom true rest
    | .long "log-level" none =>
      match rest with
      | value :: rest =>
        if logLevelGiven then none
        else match Argument.of value with
          | .operand _ => parseFrom true rest
          | _ => none
      | [] => none
    | _ => none

/-- What the arguments ask for; none where they cannot be understood. -/
def parse (arguments : List String) : Option Invocation :=
  parseFrom false arguments

/-! ## Carrying out -/

/-- Why a command fails. -/
inductive Failure where
  | settings (cause : Settings.LoadError)
  | graphUnreadable (path : String)
  | graphMalformed (path : String)
  | inconsistent (cause : GraphError)
  | rejected (violations : List Violation)
  | failed (cause : PipelineError)
  deriving Repr

def Failure.message : Failure → String
  | .settings cause => cause.message
  | .graphUnreadable path => "Failed to read graph file: " ++ path
  | .graphMalformed path => "Failed to parse graph file: " ++ path
  | .inconsistent _ => "Loader output is not a consistent graph"
  | .rejected violations => "Consistency gate found " ++ toString violations.length ++ " violation(s)"
  | .failed _ => "Pipeline failed"

/-- What a command writes, and why it failed, if it did. -/
structure Outcome where
  lines : List String
  failure : Option Failure
  deriving Repr

def Outcome.exitCode (o : Outcome) : UInt32 :=
  if o.failure.isSome then 1 else 0

/-- What is written in full, with a line break after every line. -/
def Outcome.text (o : Outcome) : String :=
  .join (o.lines.map (· ++ "\n"))

/-- The texts of files, by their paths. -/
abbrev Files := String → Option String

def loadSettings (files : Files) (path : String) : Except Failure Settings :=
  match files path with
  | none => .error (.settings (.unreadable path))
  | some text =>
    match Settings.ofToml? text with
    | some s => .ok s
    | none => .error (.settings (.malformedFile path))

def loadGraph (files : Files) (path : String) : Except Failure SymbolGraph :=
  match files path with
  | none => .error (.graphUnreadable path)
  | some text =>
    match LoaderInput.ofText text with
    | .error _ => .error (.graphMalformed path)
    | .ok input => (SymbolGraph.build input.types []).mapError .inconsistent

/-- What is written about the graph in a file, once it is loaded. -/
def report (path : String) (format : OutputFormat) (settings : Settings) (g : SymbolGraph) : Outcome :=
  match Pipeline.run Pipeline.defaultBudget settings g, format with
  | .ok n, .json => ⟨[n.toJson.pretty], none⟩
  | .ok n, .text => ⟨Report.ofNamed path n, none⟩
  | .error (.rejected violations), .json =>
    ⟨[(Json.ofList Diagnostic.toJson (violations.map (·.diagnostic))).pretty], some (.rejected violations)⟩
  | .error (.rejected violations), .text =>
    ⟨Report.diagnosticLines (violations.map (·.diagnostic)), some (.rejected violations)⟩
  | .error cause, _ => ⟨[], some (.failed cause)⟩

/-- An outcome, or a failure before anything was written. -/
def orFailure : Except Failure Outcome → Outcome
  | .ok o => o
  | .error f => ⟨[], some f⟩

def usage : List String := [
  "Analyze and name a symbol graph for a structurally typed target",
  "",
  "Usage: run <GRAPH> [--config <CONFIG>] [--format text|json]",
  "       check-config <CONFIG>",
  "",
  "Options: --log-level <LOG_LEVEL>, --help, --version"]

def versionLine : String := "typebridge 0.1.0"

/-- Carries out a command on the given files. Settings are looked at before the graph. -/
def perform (files : Files) : Invocation → Outcome
  | .run graph settings format => orFailure do
    let s ← match settings with
      | some path => loadSettings files path
      | none => pure Settings.default
    let g ← loadGraph files graph
    return report graph format s g
  | .checkSettings path => orFailure do
    let s ← loadSettings files path
    return ⟨["Valid: " ++ path, "", s.toToml], none⟩
  | .help => ⟨usage, none⟩
  | .version => ⟨[versionLine], none⟩

/-- The files that a command looks at. -/
def paths : Invocation → List String
  | .run graph settings _ => settings.toList ++ [graph]
  | .checkSettings path => [path]
  | .help | .version => []

theorem loadSettings_congr {files files' : Files} {path : String} (h : files path = files' path) :
    loadSettings files path = loadSettings files' path := by
  unfold loadSettings
  rw [h]

theorem loadGraph_congr {files files' : Files} {path : String} (h : files path = files' path) :
    loadGraph files path = loadGraph files' path := by
  unfold loadGraph
  rw [h]

theorem perform_congr {files files' : Files} {i : Invocation} (h : ∀ path ∈ i.paths, files path = files' path) :
    perform files i = perform files' i := by
  cases i with
  | run graph settings format =>
    have hgraph := loadGraph_congr (h graph (by simp [paths]))
    cases settings with
    | none => simp only [perform, hgraph]
    | some path => simp only [perform, hgraph, loadSettings_congr (h path (by simp [paths]))]
  | checkSettings path => simp only [perform, loadSettings_congr (h path (by simp [paths]))]
  | help => rfl
  | version => rfl

/-! ## Success -/

theorem Outcome.exitCode_eq_zero_iff {o : Outcome} : o.exitCode = 0 ↔ o.failure = none := by
  unfold exitCode
  cases o.failure <;> simp

theorem failure_orFailure_iff {r : Except Failure Outcome} :
    (orFailure r).failure = none ↔ ∃ o, r = .ok o ∧ o.failure = none := by
  cases r <;> simp [orFailure]

theorem failure_report_iff {path : String} {format : OutputFormat} {settings : Settings} {g : SymbolGraph} :
    (report path format settings g).failure = none ↔ ∃ n, Pipeline.run Pipeline.defaultBudget settings g = .ok n := by
  unfold report
  split <;> simp_all

/-- A run ends with code 0 exactly when there are settings and a graph, and the stages have a result for them. -/
theorem exitCode_run_iff {files : Files} {graph : String} {settings : Option String} {format : OutputFormat} :
    (perform files (.run graph settings format)).exitCode = 0 ↔
      ∃ s g n, settings.elim (.ok Settings.default) (loadSettings files) = .ok s ∧ loadGraph files graph = .ok g ∧
        Pipeline.run Pipeline.defaultBudget s g = .ok n := by
  rw [Outcome.exitCode_eq_zero_iff, perform, failure_orFailure_iff]
  -- the same for settings from a file and for those that are there without one
  have hloaded : ∀ r : Except Failure Settings,
      (∃ o, (do return report graph format (← r) (← loadGraph files graph)) = Except.ok o ∧ o.failure = none) ↔
        ∃ s g n, r = .ok s ∧ loadGraph files graph = .ok g ∧ Pipeline.run Pipeline.defaultBudget s g = .ok n := by
    intro r
    cases r with
    | error f => simp [bind, Except.bind]
    | ok s => cases loadGraph files graph <;> simp [bind, Except.bind, pure, Except.pure, failure_report_iff]
  cases settings with
  | none => exact hloaded (.ok .default)
  | some path => exact hloaded (loadSettings files path)

theorem exitCode_checkSettings_iff {files : Files} {path : String} :
    (perform files (.checkSettings path)).exitCode = 0 ↔ ∃ s, loadSettings files path = .ok s := by
  rw [Outcome.exitCode_eq_zero_iff, perform, failure_orFailure_iff]
  cases loadSettings files path <;> simp [bind, Except.bind, pure, Except.pure]

end Invocation

end Exonym
