import Exonym.Pipeline

/-!
# Reports

What a run has to say, line by line: first the diagnostics, then every type under its name with its views, the
aliases, and a summary.
-/

namespace Exonym.Report

def ofDiagnostic (d : Diagnostic) : List String :=
  (d.severity.text ++ "[" ++ d.code.text ++ "]: " ++ d.message) ::
    d.location.toList.map fun location => "  --> " ++ location

/-- A paragraph with all diagnostics. Where there are none, there is not even the empty line before it. -/
def diagnosticLines (ds : List Diagnostic) : List String :=
  if ds.isEmpty then [] else "" :: ds.flatMap ofDiagnostic

/-- A name, or what stands for one that was never given. -/
def shown (name : Option String) : String :=
  name.getD "<unnamed>"

def ofView (v : View) : String :=
  "    view " ++ shown v.accessorName ++ " (" ++ toString v.members.length ++ " members)"

def ofType (t : TypeSymbol) : List String :=
  ("  " ++ t.id.text ++ " -> " ++ shown t.finalName) :: t.views.map ofView

def ofAlias (a : Alias) : String :=
  "  alias " ++ a.target.text ++ " = " ++ " & ".intercalate (a.members.map (·.text))

/-- The numbers of types, of decisions, and of diagnostics that are no errors. -/
def summary (n : Named) : String :=
  let count (s : Severity) := toString (n.diagnostics.countP fun d => d.severity = s)
  "Summary: " ++ toString n.graph.types.length ++ " types, " ++ toString n.ledger.decisions.length ++
    " decisions, " ++ count .warning ++ " warnings, " ++ count .info ++ " infos"

/-- The report on the graph that was read from a file. -/
def ofNamed (path : String) (n : Named) : List String :=
  ["Named " ++ path] ++ diagnosticLines n.diagnostics ++ ["", "Types:"] ++ n.graph.types.flatMap ofType ++
    n.graph.aliases.map ofAlias ++ ["", summary n]

end Exonym.Report
