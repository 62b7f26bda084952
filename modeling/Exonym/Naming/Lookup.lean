import Exonym.Graph
import Exonym.Ledger

/-!
# Looking names up

What to call a type, a member or a view when it is written out. A look-up says on which surface it expects the
member, so that a name that belongs to a view never ends up on a class.
-/

namespace Exonym

/-- A graph and the ledger that its names are in. -/
structure NameLookup where
  graph : SymbolGraph
  ledger : Ledger

namespace NameLookup

/-- The name of a type in its own namespace. -/
def typeName (n : NameLookup) (id : TypeId) : Except NameError String :=
  n.ledger.finalName (.type id) (.internal id.namespace)

/-- The name under which a namespace imports a type. -/
def importName (n : NameLookup) (target : String) (id : TypeId) : Except NameError String :=
  n.ledger.finalName (.type id) (.imports target)

def missing (n : NameLookup) (id : SymbolId) (place : Place) : NameError :=
  .noDecision id place (n.ledger.scopesOf id)

/-- A member of the graph, with its type. -/
def member (n : NameLookup) (id : MemberId) : Except NameError (TypeSymbol × MemberInfo) :=
  match n.graph.find? id.declaringTypeId with
  | none => .error (n.missing (.member id) .graph)
  | some t =>
    match t.members.find? id with
    | none => .error (n.missing (.member id) .graph)
    | some (_, info) => .ok (t, info)

/-- The name of a member on a surface of its type. -/
def classMember (n : NameLookup) (id : MemberId) : Except NameError String := do
  let (t, info) ← n.member id
  let surface := Scope.ofSurface t.id info.isStatic
  if info.placement = .viewOnly then
    let actual := match t.viewOf? id with
      | some v => .scope (.ofView t.id v.interfaceId info.isStatic)
      | none => .noView
    .error (.scopeMismatch (.member id) (.scope surface) actual)
  else n.ledger.finalName (.member id) surface

/-- The name of a member in the view that lists it. -/
def viewMember (n : NameLookup) (id : MemberId) : Except NameError String := do
  let (t, info) ← n.member id
  if info.placement ≠ .viewOnly then
    .error (.scopeMismatch (.member id) .view (.scope (.ofSurface t.id info.isStatic)))
  else match t.viewOf? id with
    | none => .error (n.missing (.member id) .view)
    | some v => n.ledger.finalName (.member id) (.ofView t.id v.interfaceId info.isStatic)

/-- The name of the accessor that gives the view of an interface. -/
def viewAccessor (n : NameLookup) (type interface : TypeId) : Except NameError String :=
  let surface := Scope.ofSurface type false
  match (n.graph.find? type).bind fun t => t.views.find? (·.interfaceId = interface) with
  | some v => n.ledger.finalName (.member v.accessorId) surface
  | none => .error (n.missing (.type type) (.accessor surface))

end NameLookup

end Exonym
