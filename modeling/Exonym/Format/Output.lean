import Exonym.Format.Symbol
import Exonym.Json.Reading
import Exonym.Pipeline

/-!
# What goes in and what comes out

The loader hands over an object with a list of types. A run hands out the graph, the decisions about names, and the
diagnostics.

Main statements:

* `LoaderInput.ofJson?_toJson`: an input that is written is read back.
-/

namespace Exonym

open Shape

/-- The types of every module that was loaded, in any order. -/
structure LoaderInput where
  types : List TypeSymbol

namespace LoaderInput

def shape : Shape :=
  .record [required "types" (.list TypeSymbol.shape)] false

def toJson (i : LoaderInput) : Json :=
  .object [("types", .ofList TypeSymbol.toJson i.types)]

def ofJson? : Json → Option LoaderInput
  | .object [(_, types)] => (types.list? TypeSymbol.ofJson?).map LoaderInput.mk
  | _ => none

theorem ofJson?_toJson (i : LoaderInput) : ofJson? i.toJson = some i := by
  simp [toJson, ofJson?, Json.list?_ofList TypeSymbol.ofJson?_toJson]

/-- Reads an input from its text; what is wrong is the first problem in the order of the text. -/
def ofText (text : String) : Except Problem LoaderInput := do
  let j ← readText TypeRef.shape shape text
  match ofJson? j with
  | some i => .ok i
  | none => .error .mismatch

end LoaderInput

def Severity.name : Severity → String
  | .info => "Info"
  | .warning => "Warning"
  | .error => "Error"

def DiagnosticCode.name : DiagnosticCode → String
  | .interfacePruned => "InterfacePruned"
  | .interfaceUnresolved => "InterfaceUnresolved"
  | .diamondSynthesized => "DiamondSynthesized"
  | .returnConflict => "ReturnConflict"
  | .overloadOmitted => "OverloadOmitted"
  | .viewPlanned => "ViewPlanned"
  | .viewOrphan => "ViewOrphan"
  | .reservedWord => "ReservedWord"
  | .typeSkipped => "TypeSkipped"
  | .phaseViolation => "PhaseViolation"

def Diagnostic.toJson (d : Diagnostic) : Json :=
  .object [("severity", .text d.severity.name), ("code", .text d.code.name), ("message", .text d.message),
    ("location", .ofText? d.location)]

def Strategy.toJson : Strategy → Json
  | .none => .text "None"
  | .interfaceQualified => .text "InterfaceQualified"
  | .numericSuffix n => .object [("NumericSuffix", .ofWord n)]
  | .overloadShared => .text "OverloadShared"

def Decision.toJson (d : Decision) : Json :=
  .object [("id", d.id.toJson), ("requested", .text d.requested), ("final_name", .text d.finalName),
    ("original", .text d.id.declaredName), ("reason", .text d.reason), ("source", .text d.source.text),
    ("strategy", d.strategy.toJson), ("sanitized", .bool d.sanitized), ("scope", .text d.scope.key),
    ("is_static", .bool d.isStatic), ("overload_group", .ofText? d.group)]

def SymbolGraph.toJson (g : SymbolGraph) : Json :=
  .object [("types", .ofList TypeSymbol.toJson g.types), ("aliases", .ofList Alias.toJson g.aliases)]

def Named.toJson (n : Named) : Json :=
  .object [("graph", n.graph.toJson), ("decisions", .ofList Decision.toJson n.ledger.sortedDecisions),
    ("diagnostics", .ofList Diagnostic.toJson n.diagnostics)]

end Exonym
