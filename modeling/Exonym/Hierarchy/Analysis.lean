import Exonym.Diagnostic
import Exonym.Hierarchy.Diamond
import Exonym.Hierarchy.Reduction

/-!
# Interface analysis of a graph

Every interface list is reduced, all of them against the graph as it was given, and every type that keeps two
or more interfaces gets a base interface and an alias. A type whose interfaces cannot be walked is left as it
is.
-/

namespace Exonym

/-- What interface analysis has to say about the type `owner`. -/
inductive InterfaceNotice where
  | skipped (owner : TypeId) (cause : HierarchyError)
  | unresolved (owner : TypeId) (interface : TypeRef)
  | pruned (owner : TypeId) (entry : Pruned)
  /-- The identity of the base belongs to another type already. -/
  | baseTaken (owner base : TypeId)
  | synthesized (owner base : TypeId) (interfaces : Nat)
  deriving Repr

def InterfaceNotice.diagnostic : InterfaceNotice → Diagnostic
  | .skipped owner cause =>
    .about .warning .typeSkipped owner.text ("interface analysis skipped: " ++ cause.message)
  | .unresolved owner interface =>
    .about .warning .interfaceUnresolved owner.text
      ("interface " ++ interface.text ++ " is not defined in the graph; treated as having no ancestors")
  | .pruned owner ⟨reference, .duplicate⟩ =>
    .about .info .interfacePruned owner.text ("dropped duplicate interface " ++ reference.text)
  | .pruned owner ⟨reference, .inherited through⟩ =>
    .about .info .interfacePruned owner.text
      ("dropped interface " ++ reference.text ++ " inherited through " ++ through.text)
  | .baseTaken owner base =>
    .about .warning .typeSkipped owner.text
      ("cannot synthesize " ++ base.text ++ ": the identity is already taken")
  | .synthesized owner base interfaces =>
    .about .info .diamondSynthesized owner.text
      ("synthesized " ++ base.fullName ++ " and alias over " ++ toString interfaces ++ " interfaces")

/-- Why interface analysis of a graph fails as a whole. -/
inductive InterfaceError where
  | hierarchy (cause : HierarchyError)
  /-- What was synthesised does not fit into the graph. -/
  | graph (cause : GraphError)
  deriving Repr

def InterfaceError.message : InterfaceError → String
  | .hierarchy cause => cause.message
  | .graph cause => cause.message

structure InterfaceSettings where
  synthesizeDiamonds : Bool
  deriving DecidableEq, Repr, Inhabited

/-- What is to become of one type. -/
structure InterfacePlan where
  kept : List TypeRef
  diamond : Option Diamond

namespace InterfacePlan

def applyTo (p : InterfacePlan) (t : TypeSymbol) : TypeSymbol :=
  { t with interfaces := p.kept, diamondBase := p.diamond.map (·.base.id) }

end InterfacePlan

namespace InterfaceAnalysis

/-- The diamond of a type that keeps two or more interfaces, and what is said about it. Interfaces have none,
and an identity that is taken stops it. -/
def diamondOf (g : SymbolGraph) (settings : InterfaceSettings) (t : TypeSymbol) (r : Reduction) :
    Option Diamond × List InterfaceNotice :=
  if r.isDiamond && !t.isInterface && settings.synthesizeDiamonds then
    let base := Diamond.baseId t.id
    if g.contains base then (none, [.baseTaken t.id base])
    else (some (.synthesize t r.kept), [.synthesized t.id base r.kept.length])
  else (none, [])

/-- The plan for one type, or none if the type is to be left alone. -/
def planType (h : Hierarchy) (settings : InterfaceSettings) (t : TypeSymbol) :
    Except HierarchyError (Option InterfacePlan × List InterfaceNotice) :=
  if t.interfaces.isEmpty then .ok (none, [])
  else
    match h.reduce t with
    | .error (.exhausted budget) => .error (.exhausted budget)
    | .error cause => .ok (none, [.skipped t.id cause])
    | .ok r =>
      let (diamond, notices) := diamondOf h.graph settings t r
      .ok (some ⟨r.kept, diamond⟩,
        r.unresolved.map (.unresolved t.id) ++ r.pruned.map (.pruned t.id) ++ notices)

/-- A type as its plan, if there is one, leaves it. -/
def afterPlan (t : TypeSymbol) (plan : Option InterfacePlan) : TypeSymbol :=
  match plan with
  | some p => p.applyTo t
  | none => t

end InterfaceAnalysis

/-- The graph with reduced interface lists and with the base interfaces and aliases of its diamonds. -/
def SymbolGraph.analyzeInterfaces (g : SymbolGraph) (budget : Nat) (settings : InterfaceSettings) :
    Except InterfaceError (SymbolGraph × List InterfaceNotice) := do
  let planned ← (g.types.mapM (InterfaceAnalysis.planType ⟨g, budget⟩ settings)).mapError .hierarchy
  let plans := planned.map (·.1)
  let reduced := { g with types := List.zipWith InterfaceAnalysis.afterPlan g.types plans }
  let diamonds := plans.filterMap (·.bind (·.diamond))
  let extended ←
    if diamonds.isEmpty then pure reduced
    else (reduced.extend (diamonds.map (·.base)) (diamonds.map (·.intersection))).mapError .graph
  return (extended, planned.flatMap (·.2))

end Exonym
