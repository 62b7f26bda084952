import Exonym.Symbol

/-!
# Drafts of types

A draft puts a type together member by member. Members get signatures and places in the order of declaration by
themselves.
-/

namespace Exonym

/-- A type under way, and the place of the member to come. -/
structure TypeDraft where
  type : TypeSymbol
  nextOrder : UInt32

namespace TypeDraft

def start (module fullName : String) (kind : TypeKind) : TypeDraft :=
  ⟨.ofKind ⟨module, fullName⟩ kind, 0⟩

/-- Parameters without constraints, by their names. -/
def typeParameters (names : List String) : List TypeParameter :=
  names.zipIdx.map fun (name, position) => ⟨name, .ofNat position, []⟩

def generic (d : TypeDraft) (names : List String) : TypeDraft :=
  { d with type := { d.type with typeParameters := typeParameters names } }

def withAccessibility (d : TypeDraft) (a : Accessibility) : TypeDraft :=
  { d with type := { d.type with accessibility := a } }

def implements (d : TypeDraft) (interface : TypeRef) : TypeDraft :=
  { d with type := { d.type with interfaces := d.type.interfaces ++ [interface] } }

/-- The signature of a member with parameters. All ways of passing by reference look the same in it. -/
def signature (parameters : List Parameter) : String :=
  let text (p : Parameter) : String :=
    if p.passing.isByReference then "ref " ++ p.type.eraseByRef.text else p.type.text
  "(" ++ ",".intercalate (parameters.map text) ++ ")"

/-- What the next member shares with others. -/
def nextInfo (d : TypeDraft) (name signature : String) : MemberInfo :=
  .declared (.of d.type.id.module d.type.id.fullName name signature) d.nextOrder

/-- The draft with more members, the last of which took a place. -/
def declare (d : TypeDraft) (f : Members → Members) : TypeDraft :=
  ⟨{ d.type with members := f d.type.members }, d.nextOrder + 1⟩

/-- A method; what it shares with other members may be adjusted. -/
def method (d : TypeDraft) (name : String) (parameters : List Parameter) (returnType : TypeRef)
    (adjust : MemberInfo → MemberInfo) : TypeDraft :=
  let x : Method := ⟨adjust (d.nextInfo name (signature parameters)), [], parameters, returnType, false, false⟩
  d.declare fun m => { m with methods := m.methods ++ [x] }

/-- A method without parameters that implements one of an interface explicitly. -/
def explicitMethod (d : TypeDraft) (interface : TypeRef) (name : String) (returnType : TypeRef) : TypeDraft :=
  d.method (interface.text ++ "." ++ name) [] returnType fun info =>
    { info with explicitInterface := some interface }

/-- A property that can be read only. -/
def property (d : TypeDraft) (name : String) (type : TypeRef) (adjust : MemberInfo → MemberInfo) : TypeDraft :=
  let x : Property := ⟨adjust (d.nextInfo name (":" ++ type.text)), type, [], true, false⟩
  d.declare fun m => { m with properties := m.properties ++ [x] }

def field (d : TypeDraft) (name : String) (type : TypeRef) : TypeDraft :=
  let x : Field := ⟨d.nextInfo name "", type, false, false⟩
  d.declare fun m => { m with fields := m.fields ++ [x] }

def constructor (d : TypeDraft) (parameters : List Parameter) : TypeDraft :=
  let x : Constructor := ⟨d.nextInfo ".ctor" (signature parameters), parameters⟩
  d.declare fun m => { m with constructors := m.constructors ++ [x] }

/-- An interface of the system library with parameters `T0`, `T1` and so on. -/
def systemInterface (name : String) (arity : Nat) : TypeSymbol :=
  let mark := if arity = 0 then "" else arityMark.toString ++ toString arity
  { TypeSymbol.ofKind ⟨"core", "System." ++ name ++ mark⟩ .interface with
    typeParameters := typeParameters ((List.range arity).map fun n => "T" ++ toString n) }

/-- The types in reverse, and in each of them the members of every kind. -/
def reverse (types : List TypeSymbol) : List TypeSymbol :=
  types.reverse.map fun t =>
    { t with
      members :=
        { methods := t.members.methods.reverse
          properties := t.members.properties.reverse
          fields := t.members.fields.reverse
          events := t.members.events.reverse
          constructors := t.members.constructors.reverse } }

end TypeDraft

end Exonym
