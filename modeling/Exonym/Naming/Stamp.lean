import Exonym.Graph
import Exonym.Ledger

/-!
# Writing names onto a graph

Every type gets the name it has in its namespace, every member the name it has on its surface or in its view, and
every view the name of its accessor. Members that are not emitted, and members of no view that are on no surface,
have no name.

Main statements:

* `Stamp.memberScope?_isSome`: which members have a name at all.
-/

namespace Exonym.Stamp

/-- The last view that lists a member. -/
def lastViewOf? (t : TypeSymbol) (id : MemberId) : Option View :=
  t.views.reverse.find? (·.holds id)

/-- The scope in which a member has its name. -/
def memberScope? (t : TypeSymbol) (info : MemberInfo) : Option Scope :=
  match info.placement with
  | .classSurface | .staticSurface => some (.ofSurface t.id info.isStatic)
  | .viewOnly => (lastViewOf? t info.id).map fun v => .ofView t.id v.interfaceId info.isStatic
  | .omitted => none

theorem memberScope?_isSome {t : TypeSymbol} {info : MemberInfo} :
    (memberScope? t info).isSome = true ↔ info.onPrimarySurface = true ∨
      (info.placement = .viewOnly ∧ ∃ v ∈ t.views, v.holds info.id = true) := by
  cases h : info.placement <;>
    simp [memberScope?, MemberInfo.onPrimarySurface, Placement.isPrimary, lastViewOf?, h]

def stampInfo (l : Ledger) (t : TypeSymbol) (info : MemberInfo) : Except NameError MemberInfo :=
  match memberScope? t info with
  | none => .ok { info with finalName := none }
  | some s => (l.finalName (.member info.id) s).map fun name => { info with finalName := some name }

def stampView (l : Ledger) (t : TypeSymbol) (v : View) : Except NameError View :=
  (l.finalName (.member v.accessorId) (.ofSurface t.id false)).map fun name =>
    { v with accessorName := some name }

/-- The type with all its names; the first name that is missing is the failure. -/
def stampType (l : Ledger) (t : TypeSymbol) : Except NameError TypeSymbol := do
  let name ← l.finalName (.type t.id) (.internal t.namespace)
  let members ← t.members.traverseInfo (stampInfo l t)
  let views ← t.views.mapM (stampView l t)
  return { t with finalName := some name, members := members, views := views }

end Stamp

/-- The graph with all its names. -/
def SymbolGraph.stampNames (g : SymbolGraph) (l : Ledger) : Except NameError SymbolGraph :=
  (g.types.mapM (Stamp.stampType l)).map fun types => { g with types := types }

end Exonym
