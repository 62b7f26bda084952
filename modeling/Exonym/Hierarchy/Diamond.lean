import Exonym.Symbol
import Exonym.TypeRef.Closing

/-!
# Base interfaces for diamonds

A type that keeps two or more interfaces is stood for by an intersection of them. Its own public members go to a
synthesised base interface, where every generic parameter of the type, and of each method, has the base (or the
method on the base) for its owner. The identity of the base follows from that of its type.
-/

namespace Exonym

/-- A synthesised base interface, and the alias for the type it was made for. -/
structure Diamond where
  base : TypeSymbol
  intersection : Alias
  deriving Repr

namespace Diamond

/-- The identity of the base: `_Base` is put before the arity mark, if there is one with nothing but digits
after it, and at the end otherwise. -/
def baseId (id : TypeId) : TypeId where
  module := id.module
  fullName :=
    match Cut.textLast? arityMark id.fullName with
    | some (head, arity) =>
      if arity.toList.all Char.isDigit then head ++ "_Base" ++ arityMark.toString ++ arity
      else id.fullName ++ "_Base"
    | none => id.fullName ++ "_Base"

/-- Members that the base takes over: declared by the type, public, on the instance surface, and not explicit
implementations. -/
def carries (info : MemberInfo) : Bool :=
  info.provenance = .declared && info.placement = .classSurface && !info.isStatic && !info.isExplicit &&
    info.accessibility.isPublic

def rehomeInfo (base : TypeId) (info : MemberInfo) : MemberInfo :=
  { info with id := info.id.rebased base, provenance := .synthesized, finalName := none }

def rehomeTypeParameters (m : Rehoming) (ps : List TypeParameter) : List TypeParameter :=
  ps.map fun p => { p with constraints := m.applyAll p.constraints }

def rehomeParameters (m : Rehoming) (ps : List Parameter) : List Parameter :=
  ps.map fun p => { p with type := m.apply p.type }

def baseMethod (base : TypeId) (m : Rehoming) (x : Method) : Method :=
  let m := m.insert (.member x.info.id) (.member (x.info.id.rebased base))
  { info := rehomeInfo base x.info
    typeParameters := rehomeTypeParameters m x.typeParameters
    parameters := rehomeParameters m x.parameters
    returnType := m.apply x.returnType
    isAbstract := true
    isVirtual := false }

def baseProperty (base : TypeId) (m : Rehoming) (x : Property) : Property :=
  { x with
    info := rehomeInfo base x.info
    type := m.apply x.type
    indexParameters := rehomeParameters m x.indexParameters }

/-- A field becomes a property, which can be written if the field can. -/
def propertyOfField (base : TypeId) (m : Rehoming) (x : Field) : Property where
  info := rehomeInfo base x.info
  type := m.apply x.type
  indexParameters := []
  hasGetter := true
  hasSetter := !x.isReadonly && !x.isLiteral

def baseEvent (base : TypeId) (m : Rehoming) (x : Event) : Event where
  info := rehomeInfo base x.info
  handlerType := m.apply x.handlerType

def baseMembers (base : TypeId) (m : Rehoming) (xs : Members) : Members where
  methods := (xs.methods.filter (carries ·.info)).map (baseMethod base m)
  properties :=
    (xs.properties.filter (carries ·.info)).map (baseProperty base m) ++
      (xs.fields.filter (carries ·.info)).map (propertyOfField base m)
  fields := []
  events := (xs.events.filter (carries ·.info)).map (baseEvent base m)
  constructors := []

/-- The base interface and the alias for a type that keeps the given interfaces. The alias lists them in the
order of their texts. -/
def synthesize (t : TypeSymbol) (kept : List TypeRef) : Diamond :=
  let base := baseId t.id
  let m := Rehoming.empty.insert t.owner (.type base)
  { base := { TypeSymbol.ofKind base .interface with
      accessibility := t.accessibility
      typeParameters := rehomeTypeParameters m t.typeParameters
      declaringType := t.declaringType
      members := baseMembers base m t.members
      origin := .synthesized t.id }
    intersection :=
      { target := t.id
        base := base
        members := kept.mergeSort fun a b => (compare a.text b.text).isLE } }

@[simp] theorem base_id (t : TypeSymbol) (kept : List TypeRef) :
    (synthesize t kept).base.id = baseId t.id := rfl

end Diamond

end Exonym
