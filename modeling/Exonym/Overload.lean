import Exonym.Diagnostic
import Exonym.Graph
import Exonym.Grouping

/-!
# Overloads that fall together

The target language knows no parameter modifiers and cannot overload on return types. What is left of a member
there is its erasure; the methods and properties on the surfaces of a type are put into buckets by erasure, and
from every bucket the members in conflict are taken off the surface, all but one.

Members are looked at in the order of their declaration and, within that, of their identities, so the order
in which a type lists them does not matter.

Main statements:

* `Conflict.among_eq_none_iff`: picking one of a group finds no conflict exactly in groups of less than two.
* `OverloadPlan.applyTo_id`, `OverloadPlan.infos_applyTo`: only placements change.
-/

namespace Exonym

/-- What the target language can tell members apart by. -/
structure Erasure where
  kind : MemberKind
  name : String
  /-- The number of the method's own generic parameters. -/
  arity : Nat
  parameterCount : Nat
  isStatic : Bool
  deriving DecidableEq, Repr

def Erasure.text (e : Erasure) : String :=
  e.kind.text ++ " " ++ e.name ++ arityMark.toString ++ toString e.arity ++ "(" ++
    toString e.parameterCount ++ ")" ++ (if e.isStatic then " static" else "")

/-- A member that takes part in overload resolution; types are given by their canonical texts. -/
structure Candidate where
  id : MemberId
  returnType : String
  /-- Parameter types without by-reference wrappers. -/
  parameters : List String
  byRefCount : Nat
  constraintCount : Nat
  isExplicit : Bool
  declarationOrder : UInt32
  deriving Repr

namespace Candidate

def of (info : MemberInfo) (returnType : TypeRef) (parameters : List Parameter) (constraintCount : Nat) :
    Candidate where
  id := info.id
  returnType := returnType.text
  parameters := parameters.map (·.type.eraseByRef.text)
  byRefCount := parameters.countP fun p => p.passing.isByReference || p.type.isByRef
  constraintCount := constraintCount
  isExplicit := info.isExplicit
  declarationOrder := info.declarationOrder

def ofMethod (m : Method) : Erasure × Candidate :=
  (⟨.method, m.info.name, m.typeParameters.length, m.parameters.length, m.info.isStatic⟩,
    of m.info m.returnType m.parameters m.constraintCount)

def ofProperty (p : Property) : Erasure × Candidate :=
  (⟨.property, p.info.name, 0, p.indexParameters.length, p.info.isStatic⟩,
    of p.info p.type p.indexParameters 0)

/-- Earlier declarations first, then the order of identities. -/
def declared : Candidate → Candidate → Ordering :=
  compareLex (compareOn declarationOrder) (compareOn id)

/-- Members that are no explicit implementations first. -/
def plainest : Candidate → Candidate → Ordering :=
  compareLex (compareOn isExplicit) declared

/-- Fewer by-reference parameters first, then fewer constraints. -/
def widest : Candidate → Candidate → Ordering :=
  compareLex (compareOn byRefCount) (compareLex (compareOn constraintCount) declared)

end Candidate

/-- The methods and properties on the surfaces of a type, with their erasures, in the order of declaration. -/
def TypeSymbol.candidates (t : TypeSymbol) : List (Erasure × Candidate) :=
  ((t.members.methods.filter (·.info.onPrimarySurface)).map Candidate.ofMethod ++
    (t.members.properties.filter (·.info.onPrimarySurface)).map Candidate.ofProperty).mergeSort
      fun a b => (a.2.declared b.2).isLE

def TypeSymbol.buckets (t : TypeSymbol) : List (Erasure × List Candidate) :=
  Grouping.groups t.candidates

inductive ConflictKind where
  /-- The members differ in their return types; those that lose go to their views. -/
  | returnType
  /-- The members differ in nothing but modifiers; those that lose are not emitted. -/
  | modifierOnly
  deriving DecidableEq, Repr

/-- Where the members go that do not stay. -/
def ConflictKind.placement : ConflictKind → Placement
  | .returnType => .viewOnly
  | .modifierOnly => .omitted

structure Conflict where
  erasure : Erasure
  kind : ConflictKind
  kept : MemberId
  demoted : List MemberId
  deriving Repr

namespace Conflict

/-- The conflict among members of which one can stay, the first in the given order. -/
def among (erasure : Erasure) (kind : ConflictKind) (order : Candidate → Candidate → Ordering)
    (group : List Candidate) : Option Conflict :=
  match group.mergeSort fun a b => (order a b).isLE with
  | kept :: next :: rest => some ⟨erasure, kind, kept.id, (next :: rest).map (·.id)⟩
  | _ => none

theorem among_eq_none_iff {erasure : Erasure} {kind : ConflictKind}
    {order : Candidate → Candidate → Ordering} {group : List Candidate} :
    among erasure kind order group = none ↔ group.length < 2 := by
  have hlength : (group.mergeSort fun a b => (order a b).isLE).length = group.length := List.length_mergeSort group
  rw [← hlength]
  unfold among
  cases group.mergeSort fun a b => (order a b).isLE with
  | nil => simp
  | cons kept rest => cases rest <;> simp

/-- The conflicts in a bucket. Where return types differ, one member of the bucket stays; otherwise one stays
of those that agree in their parameter types. -/
def inBucket (erasure : Erasure) (bucket : List Candidate) : List Conflict :=
  match bucket with
  | [] => []
  | first :: _ =>
    if bucket.any (·.returnType ≠ first.returnType) then
      (among erasure .returnType Candidate.plainest bucket).toList
    else
      (Grouping.groups (bucket.map fun c => (c.parameters, c))).filterMap fun (_, group) =>
        among erasure .modifierOnly Candidate.widest group

/-- A conflict as it is reported, about the member that stays. -/
def diagnostic (c : Conflict) : Diagnostic :=
  let count := toString c.demoted.length
  match c.kind with
  | .returnType =>
    .about .info .returnConflict c.kept.text
      (c.erasure.text ++ ": kept " ++ c.kept.signature ++ " on the class surface, moved " ++ count ++
        " member(s) differing by return type to views")
  | .modifierOnly =>
    .about .info .overloadOmitted c.kept.text
      (c.erasure.text ++ ": kept " ++ c.kept.signature ++ ", omitted " ++ count ++
        " overload(s) differing only by parameter modifiers")

end Conflict

def TypeSymbol.conflicts (t : TypeSymbol) : List Conflict :=
  t.buckets.flatMap fun (erasure, bucket) => Conflict.inBucket erasure bucket

/-- New placements for members of one type. -/
structure OverloadPlan where
  demotions : List (MemberId × Placement)

namespace OverloadPlan

def ofConflicts (conflicts : List Conflict) : OverloadPlan :=
  ⟨conflicts.flatMap fun c => c.demoted.map fun id => (id, c.kind.placement)⟩

/-- The new placement of a member that has to move. -/
def placement? (p : OverloadPlan) (id : MemberId) : Option Placement :=
  (p.demotions.find? (·.1.same id)).map (·.2)

def moveInfo (p : OverloadPlan) (info : MemberInfo) : MemberInfo :=
  { info with placement := (p.placement? info.id).getD info.placement }

def applyTo (p : OverloadPlan) (t : TypeSymbol) : TypeSymbol :=
  { t with members := t.members.mapInfo fun _ => p.moveInfo }

@[simp] theorem applyTo_id (p : OverloadPlan) (t : TypeSymbol) : (p.applyTo t).id = t.id := rfl

theorem infos_applyTo (p : OverloadPlan) (t : TypeSymbol) :
    (p.applyTo t).members.infos = t.members.infos.map fun (kind, info) => (kind, p.moveInfo info) :=
  Members.infos_mapInfo _ _

end OverloadPlan

/-- The graph with all conflicts settled, and the conflicts. -/
def SymbolGraph.resolveOverloads (g : SymbolGraph) : SymbolGraph × List Conflict :=
  (g.mapTypes fun t => (OverloadPlan.ofConflicts t.conflicts).applyTo t, g.types.flatMap (·.conflicts))

end Exonym
