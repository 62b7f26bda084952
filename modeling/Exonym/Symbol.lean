import Exonym.TypeRef

/-!
# Types and their members

What is known about one type: its identity, its generic parameters, the types it is built on and its members,
together with what the analyses decide about them (placements, views, names).

Main statements:

* `Members.infos_mapInfo`: changing what members share changes the list of it, kind by kind.
-/

namespace Exonym

/-- From where a type or member can be seen. -/
inductive Accessibility where
  | «public»
  | internal
  | «protected»
  | protectedInternal
  | privateProtected
  | «private»
  deriving DecidableEq, Repr, Inhabited

def Accessibility.isPublic (a : Accessibility) : Bool :=
  a = .public

/-- Where a member is emitted. -/
inductive Placement where
  /-- On the instance surface of its type. -/
  | classSurface
  /-- On the static surface of its type. -/
  | staticSurface
  /-- Only in the view of an interface. -/
  | viewOnly
  /-- Nowhere. -/
  | omitted
  deriving DecidableEq, Repr, Inhabited

/-- Whether the member is on one of its type's own surfaces. -/
def Placement.isPrimary : Placement → Bool
  | .classSurface | .staticSurface => true
  | .viewOnly | .omitted => false

def Placement.text : Placement → String
  | .classSurface => "ClassSurface"
  | .staticSurface => "StaticSurface"
  | .viewOnly => "ViewOnly"
  | .omitted => "Omitted"

/-- How a member came to be on its type. -/
inductive Provenance where
  | declared
  | fromInterface
  | synthesized
  deriving DecidableEq, Repr, Inhabited

inductive MemberKind where
  | method
  | property
  | field
  | event
  | constructor
  deriving DecidableEq, Repr, Inhabited

def MemberKind.text : MemberKind → String
  | .method => "Method"
  | .property => "Property"
  | .field => "Field"
  | .event => "Event"
  | .constructor => "Constructor"

inductive TypeKind where
  | classType
  | structType
  | interface
  | enumType
  | delegate
  | staticNamespace
  deriving DecidableEq, Repr, Inhabited

/-- What all kinds of members share. -/
structure MemberInfo where
  id : MemberId
  name : String
  accessibility : Accessibility
  isStatic : Bool
  placement : Placement
  provenance : Provenance
  /-- The interface the member implements explicitly. -/
  explicitInterface : Option TypeRef
  /-- The interface the member was copied from. -/
  sourceInterface : Option TypeId
  declarationOrder : UInt32
  finalName : Option String
  deriving Repr, Inhabited

namespace MemberInfo

/-- A public instance member that its type declares itself, under its own name. -/
def declared (id : MemberId) (declarationOrder : UInt32) : MemberInfo :=
  ⟨id, id.name, .public, false, .classSurface, .declared, none, none, declarationOrder, none⟩

def isExplicit (info : MemberInfo) : Bool :=
  info.explicitInterface.isSome

def onPrimarySurface (info : MemberInfo) : Bool :=
  info.placement.isPrimary

/-- The interface through which the member is reached when it is not on a surface of its type. -/
def viewInterface? (info : MemberInfo) : Option TypeId :=
  (info.explicitInterface.bind TypeRef.id?).or info.sourceInterface

/-- Earlier declarations first, then the order of identities. -/
def order : MemberInfo → MemberInfo → Ordering :=
  compareLex (compareOn declarationOrder) (compareOn id)

end MemberInfo

/-- The declaration of a generic parameter. -/
structure TypeParameter where
  name : String
  position : UInt32
  constraints : List TypeRef
  deriving Repr, Inhabited

/-- The occurrence of a parameter of `owner`. -/
def TypeParameter.reference (p : TypeParameter) (owner : SymbolId) : TypeRef :=
  .param ⟨owner, p.position⟩ p.name p.constraints

/-- How an argument is passed. -/
inductive Passing where
  | byValue
  | ref
  | out
  | inRef
  | params
  deriving DecidableEq, Repr, Inhabited

/-- Whether the target language has no way to say this. -/
def Passing.isByReference : Passing → Bool
  | .ref | .out | .inRef => true
  | .byValue | .params => false

structure Parameter where
  name : String
  type : TypeRef
  passing : Passing
  isOptional : Bool
  deriving Repr, Inhabited

structure Method where
  info : MemberInfo
  typeParameters : List TypeParameter
  parameters : List Parameter
  returnType : TypeRef
  isAbstract : Bool
  isVirtual : Bool
  deriving Repr, Inhabited

/-- The number of constraints on the method's own parameters. -/
def Method.constraintCount (m : Method) : Nat :=
  m.typeParameters.foldl (fun n p => n + p.constraints.length) 0

/-- A property, or an indexer if it has index parameters. -/
structure Property where
  info : MemberInfo
  type : TypeRef
  indexParameters : List Parameter
  hasGetter : Bool
  hasSetter : Bool
  deriving Repr, Inhabited

structure Field where
  info : MemberInfo
  type : TypeRef
  isReadonly : Bool
  isLiteral : Bool
  deriving Repr, Inhabited

structure Event where
  info : MemberInfo
  handlerType : TypeRef
  deriving Repr, Inhabited

structure Constructor where
  info : MemberInfo
  parameters : List Parameter
  deriving Repr, Inhabited

/-- The members of a type, kind by kind. -/
structure Members where
  methods : List Method
  properties : List Property
  fields : List Field
  events : List Event
  constructors : List Constructor
  deriving Repr, Inhabited

namespace Members

def empty : Members := ⟨[], [], [], [], []⟩

/-- What the members share, with their kinds, in the order of the kinds. -/
def infos (m : Members) : List (MemberKind × MemberInfo) :=
  m.methods.map (fun x => (MemberKind.method, x.info)) ++
    m.properties.map (fun x => (MemberKind.property, x.info)) ++
    m.fields.map (fun x => (MemberKind.field, x.info)) ++ m.events.map (fun x => (MemberKind.event, x.info)) ++
    m.constructors.map (fun x => (MemberKind.constructor, x.info))

/-- Changes what the members share and leaves the rest of them alone. -/
def mapInfo (f : MemberKind → MemberInfo → MemberInfo) (m : Members) : Members where
  methods := m.methods.map fun x => { x with info := f .method x.info }
  properties := m.properties.map fun x => { x with info := f .property x.info }
  fields := m.fields.map fun x => { x with info := f .field x.info }
  events := m.events.map fun x => { x with info := f .event x.info }
  constructors := m.constructors.map fun x => { x with info := f .constructor x.info }

theorem infos_mapInfo (f : MemberKind → MemberInfo → MemberInfo) (m : Members) :
    (m.mapInfo f).infos = m.infos.map fun (kind, info) => (kind, f kind info) := by
  simp [infos, mapInfo, Function.comp_def]

/-- Changes what the members share, in the order of `infos`, up to the first failure. -/
def traverseInfo {ε : Type} (f : MemberInfo → Except ε MemberInfo) (m : Members) : Except ε Members := do
  let methods ← m.methods.mapM fun x => (f x.info).map fun info => { x with info := info }
  let properties ← m.properties.mapM fun x => (f x.info).map fun info => { x with info := info }
  let fields ← m.fields.mapM fun x => (f x.info).map fun info => { x with info := info }
  let events ← m.events.mapM fun x => (f x.info).map fun info => { x with info := info }
  let constructors ← m.constructors.mapM fun x => (f x.info).map fun info => { x with info := info }
  return ⟨methods, properties, fields, events, constructors⟩

def find? (m : Members) (id : MemberId) : Option (MemberKind × MemberInfo) :=
  m.infos.find? fun (_, info) => info.id.same id

def size (m : Members) : Nat :=
  m.infos.length

end Members

structure TypeFlags where
  isAbstract : Bool
  isSealed : Bool
  isStatic : Bool
  isValueType : Bool
  deriving DecidableEq, Repr, Inhabited

def TypeFlags.none : TypeFlags := ⟨false, false, false, false⟩

/-- How a type came to be in the graph. -/
inductive Origin where
  | loaded
  /-- Made by an analysis, on behalf of another type. -/
  | synthesized (on : TypeId)
  deriving DecidableEq, Repr, Inhabited

/-- The members of a type that are reached through one interface only. -/
structure View where
  /-- The interface, as the type refers to it. -/
  interface : TypeRef
  interfaceId : TypeId
  /-- The member of the instance surface that gives the view. -/
  accessorId : MemberId
  members : List MemberId
  accessorName : Option String
  deriving Repr, Inhabited

def View.holds (v : View) (id : MemberId) : Bool :=
  v.members.any (·.same id)

/-- Stands for a type whose interfaces do not form a chain: the intersection of several interfaces. -/
structure Alias where
  target : TypeId
  /-- The synthesised interface with the members of the type itself. -/
  base : TypeId
  members : List TypeRef
  deriving Repr, Inhabited

structure TypeSymbol where
  id : TypeId
  kind : TypeKind
  accessibility : Accessibility
  typeParameters : List TypeParameter
  baseType : Option TypeRef
  interfaces : List TypeRef
  members : Members
  nestedTypes : List TypeId
  declaringType : Option TypeId
  flags : TypeFlags
  origin : Origin
  views : List View
  diamondBase : Option TypeId
  finalName : Option String
  deriving Repr, Inhabited

namespace TypeSymbol

/-- An empty public type; its flags follow from the kind. -/
def ofKind (id : TypeId) (kind : TypeKind) : TypeSymbol where
  id := id
  kind := kind
  accessibility := .public
  typeParameters := []
  baseType := none
  interfaces := []
  members := .empty
  nestedTypes := []
  declaringType := none
  flags := { TypeFlags.none with
    isValueType := kind = .structType || kind = .enumType
    isStatic := kind = .staticNamespace }
  origin := .loaded
  views := []
  diamondBase := none
  finalName := none

def «namespace» (t : TypeSymbol) : String :=
  t.id.namespace

/-- The name of the type itself; for a nested type the innermost part. -/
def sourceName (t : TypeSymbol) : String :=
  ((Cut.textLast? '+' t.id.simpleName).map (·.2)).getD t.id.simpleName

def arity (t : TypeSymbol) : Nat :=
  t.typeParameters.length

def isInterface (t : TypeSymbol) : Bool :=
  t.kind = .interface

/-- The owner of the type's generic parameters. -/
def owner (t : TypeSymbol) : SymbolId :=
  .type t.id

def isSynthesized (t : TypeSymbol) : Bool :=
  t.origin ≠ .loaded

/-- The first view that lists the member. -/
def viewOf? (t : TypeSymbol) (id : MemberId) : Option View :=
  t.views.find? (·.holds id)

end TypeSymbol

end Exonym
