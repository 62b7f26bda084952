/-!
# Diagnostics

What an analysis has to say about its input: a severity, a code that stays the same between versions, a
message, and the symbol it is about. Diagnostics are kept in the order in which they were reported.
-/

namespace Exonym

inductive Severity where
  /-- A decision that needs no attention. -/
  | info
  /-- Input that could be used only in part. -/
  | warning
  /-- A broken guarantee. -/
  | error
  deriving DecidableEq, Repr, Inhabited

def Severity.text : Severity → String
  | .info => "info"
  | .warning => "warning"
  | .error => "error"

inductive DiagnosticCode where
  | interfacePruned
  | interfaceUnresolved
  | diamondSynthesized
  | returnConflict
  | overloadOmitted
  | viewPlanned
  | viewOrphan
  | reservedWord
  | typeSkipped
  | phaseViolation
  deriving DecidableEq, Repr, Inhabited

def DiagnosticCode.text : DiagnosticCode → String
  | .interfacePruned => "INTERFACE_PRUNED"
  | .interfaceUnresolved => "INTERFACE_UNRESOLVED"
  | .diamondSynthesized => "DIAMOND_SYNTHESIZED"
  | .returnConflict => "RETURN_CONFLICT"
  | .overloadOmitted => "OVERLOAD_OMITTED"
  | .viewPlanned => "VIEW_PLANNED"
  | .viewOrphan => "VIEW_ORPHAN"
  | .reservedWord => "RESERVED_WORD"
  | .typeSkipped => "TYPE_SKIPPED"
  | .phaseViolation => "PHASE_VIOLATION"

structure Diagnostic where
  severity : Severity
  code : DiagnosticCode
  message : String
  /-- The text of the identity of the symbol concerned. -/
  location : Option String
  deriving DecidableEq, Repr, Inhabited

namespace Diagnostic

def isError (d : Diagnostic) : Bool :=
  d.severity = .error

/-- A diagnostic about the symbol whose identity reads `location`. -/
def about (severity : Severity) (code : DiagnosticCode) (location message : String) : Diagnostic :=
  ⟨severity, code, message, some location⟩

end Diagnostic

end Exonym
