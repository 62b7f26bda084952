import Exonym.Diagnostic
import Exonym.Graph
import Exonym.Grouping
import Exonym.Text.Digits

/-!
# Views

Members that are reached through one interface only are not on the class surface. They are grouped by
interface into views, and each view is given by an accessor, a member that the type does not declare.

Main statements:

* `ViewPlan.applyTo_frame`, `ViewPlan.moveInfo_frame`: carrying a plan out changes nothing but placements and views.
-/

namespace Exonym

namespace View

/-- The identity of the accessor for an interface. Its signature is one that no declared member has. -/
def accessorIdFor (type : TypeId) (interface : TypeRef) (interfaceId : TypeId) : MemberId :=
  .of type.module type.fullName ("As_" ++ interface.shortName) ("view:" ++ interfaceId.text)

/-- A reference, without arguments, to the definition with the given identity. A simple name that ends in an
arity mark and a number is one of a generic definition. -/
def openReference (id : TypeId) : TypeRef :=
  let split := (Cut.textLast? arityMark id.simpleName).bind fun (name, arity) =>
    (Digits.signedBelow? UInt32.size arity).map fun n => (name, UInt32.ofNat n)
  let (name, arity) := split.getD (id.simpleName, 0)
  .named ⟨id.module, id.namespace, name, arity⟩ [] false

/-- The best reference to the interface a member is viewed through: the one it implements explicitly, or the
one its type lists, or one made from the identity. -/
def interfaceOf (t : TypeSymbol) (info : MemberInfo) (interfaceId : TypeId) : TypeRef :=
  info.explicitInterface.getD
    ((t.interfaces.find? (·.id? = some interfaceId)).getD (openReference interfaceId))

/-- Members that are not on a surface of their own right but are not left out either. -/
def concerns (info : MemberInfo) : Bool :=
  info.placement ≠ .omitted && (info.isExplicit || info.placement = .viewOnly)

end View

/-- The views of one type, and what becomes of the members concerned. -/
structure ViewPlan where
  /-- In the order of the identities of their interfaces. -/
  views : List View
  /-- Members that have to leave a surface for a view. -/
  moved : List MemberId
  /-- Members that no interface is known for, in the order of their identities. -/
  orphans : List MemberId
  deriving Repr

def sortMembers (ids : List MemberId) : List MemberId :=
  ids.mergeSort fun a b => (compare a b).isLE

/-- What the type's members need: one view for each interface that some of them are viewed through. The first
member of a view determines how the interface is referred to. -/
def TypeSymbol.planViews (t : TypeSymbol) : ViewPlan :=
  let concerned := (t.members.infos.map (·.2)).filter View.concerns
  let viewed := concerned.filterMap fun info => info.viewInterface?.map fun id => (id, info)
  let grouped := Grouping.groups (viewed.map fun (id, info) => (id, (View.interfaceOf t info id, info.id)))
  { views := (grouped.mergeSort fun a b => (compare a.1 b.1).isLE).filterMap fun (interfaceId, members) =>
      members.head?.map fun (interface, _) =>
        { interface := interface
          interfaceId := interfaceId
          accessorId := View.accessorIdFor t.id interface interfaceId
          members := sortMembers (members.map (·.2))
          accessorName := none }
    moved := (viewed.filter (·.2.placement ≠ .viewOnly)).map (·.2.id)
    orphans := sortMembers ((concerned.filter (·.viewInterface?.isNone)).map (·.id)) }

/-- What view planning has to say. -/
inductive ViewNotice where
  | orphan (member : MemberId)
  | planned (owner : TypeId) (view : View)
  deriving Repr

def ViewNotice.diagnostic : ViewNotice → Diagnostic
  | .orphan member =>
    .about .warning .viewOrphan member.text
      "member is view-only but implements no known interface; it will not be named"
  | .planned owner view =>
    .about .info .viewPlanned owner.text
      (toString view.members.length ++ " member(s) reachable through " ++ view.interface.text ++ " via " ++
        view.accessorId.name)

namespace ViewPlan

def notices (p : ViewPlan) (owner : TypeId) : List ViewNotice :=
  p.orphans.map .orphan ++ p.views.map (.planned owner)

def moveInfo (p : ViewPlan) (info : MemberInfo) : MemberInfo :=
  if p.moved.any (·.same info.id) then { info with placement := .viewOnly } else info

/-- The type with its views; a type without views is left as it is. -/
def applyTo (p : ViewPlan) (t : TypeSymbol) : TypeSymbol :=
  if p.views.isEmpty then t
  else { t with members := t.members.mapInfo fun _ => p.moveInfo, views := p.views }

/-- Moving a member changes nothing but where it is emitted. -/
theorem moveInfo_frame (p : ViewPlan) (info : MemberInfo) :
    p.moveInfo info = { info with placement := (p.moveInfo info).placement } := by
  unfold moveInfo
  split <;> rfl

/-- Carrying a plan out changes nothing but the members and the views. -/
theorem applyTo_frame (p : ViewPlan) (t : TypeSymbol) :
    p.applyTo t = { t with members := (p.applyTo t).members, views := (p.applyTo t).views } := by
  unfold applyTo
  split <;> rfl

@[simp] theorem applyTo_id (p : ViewPlan) (t : TypeSymbol) : (p.applyTo t).id = t.id := by
  rw [applyTo_frame]

theorem infos_applyTo {p : ViewPlan} (h : p.views ≠ []) (t : TypeSymbol) :
    (p.applyTo t).members.infos = t.members.infos.map fun (kind, info) => (kind, p.moveInfo info) := by
  simp [applyTo, h, Members.infos_mapInfo]

end ViewPlan

/-- The graph with the views of all its types, and what there is to say about them. -/
def SymbolGraph.planViews (g : SymbolGraph) : SymbolGraph × List ViewNotice :=
  (g.mapTypes fun t => t.planViews.applyTo t, g.types.flatMap fun t => t.planViews.notices t.id)

end Exonym
