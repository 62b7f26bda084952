import Exonym.Gate
import Exonym.Hierarchy.Analysis
import Exonym.Naming.Plan
import Exonym.Naming.Stamp
import Exonym.Overload
import Exonym.Settings
import Exonym.View

/-!
# From a graph to a named graph

The stages follow each other strictly: interfaces are reduced, overloads settled, views planned, names reserved
and stamped, and the result is held against the ledger. Nothing is handed out that does not pass.
-/

namespace Exonym

inductive PipelineError where
  | graph (cause : GraphError)
  | interfaces (cause : InterfaceError)
  | naming (cause : NameError)
  | rejected (violations : List Violation)
  deriving Repr

def PipelineError.message : PipelineError → String
  | .graph _ => "invalid symbol graph"
  | .interfaces _ => "interface analysis failed"
  | .naming _ => "naming failed"
  | .rejected violations => "consistency gate found " ++ toString violations.length ++ " violation(s)"

/-- A graph with all its names, the ledger they are in, and what the stages had to say. -/
structure Named where
  graph : SymbolGraph
  ledger : Ledger
  diagnostics : List Diagnostic
  deriving Repr

namespace Pipeline

/-- The graph as it is before any name is given, and what was said on the way. -/
def analyze (budget : Nat) (settings : Settings) (g : SymbolGraph) :
    Except PipelineError (SymbolGraph × List Diagnostic) := do
  let (analyzed, interfaces) ← (g.analyzeInterfaces budget settings.interfaces).mapError .interfaces
  let (resolved, conflicts) := analyzed.resolveOverloads
  let (planned, views) := resolved.planViews
  return (planned, interfaces.map (·.diagnostic) ++ conflicts.map (·.diagnostic) ++ views.map (·.diagnostic))

/-- The graph with its names, held against nothing yet. -/
def name (settings : Settings) (planned : SymbolGraph) (said : List Diagnostic) :
    Except PipelineError Named := do
  let reserved := planned.reserveNames (.empty settings.naming)
  if let some cause := reserved.failure then throw (.naming cause)
  let stamped ← (planned.stampNames reserved.ledger).mapError .naming
  return ⟨stamped, reserved.ledger, said ++ reserved.notices.map (·.diagnostic)⟩

/-- All stages. The budget is that of one walk through the interfaces. -/
def run (budget : Nat) (settings : Settings) (g : SymbolGraph) : Except PipelineError Named := do
  let (planned, said) ← analyze budget settings g
  let named ← name settings planned said
  match named.graph.violations named.ledger with
  | [] => return named
  | violations => throw (.rejected violations)

/-- A run on the types that a loader lists. -/
def runOnTypes (budget : Nat) (settings : Settings) (types : List TypeSymbol) : Except PipelineError Named := do
  let g ← (SymbolGraph.build types []).mapError .graph
  run budget settings g

/-- How many references one walk may look at unless told otherwise. -/
def defaultBudget : Nat := 1000000

end Pipeline

end Exonym
