import Exonym.Symbol

/-!
# The graph of types

A graph holds types, ordered by namespace and then by identity, and intersection aliases, ordered by the
namespace and identity of the type they stand for. It is made from the output of a loader, which may list
types in any order but has to be consistent: identities are distinct, members are listed on the type they
name, and every type that is referred to by identity is there.

Main statements:

* `SymbolGraph.find?_eq_some`: what is found has the identity asked for and is in the graph.
* `SymbolGraph.mem_namespaceNames`: a namespace is there exactly when some type lives in it.
-/

namespace Exonym

/-- Why a list of types and aliases is no graph. -/
inductive GraphError where
  | duplicateType (id : TypeId)
  | duplicateMember (owner : TypeId) (member : MemberId)
  | foreignMember (owner : TypeId) (member : MemberId)
  | missingDeclaringType (nested declaring : TypeId)
  | missingNestedType (owner nested : TypeId)
  | missingAliasTarget (id : TypeId)
  deriving DecidableEq, Repr

def GraphError.message : GraphError → String
  | .duplicateType id => "duplicate type " ++ id.text
  | .duplicateMember owner member => "duplicate member " ++ member.text ++ " on " ++ owner.text
  | .foreignMember owner member =>
    "member " ++ member.text ++ " is listed on " ++ owner.text ++ " but declared by another type"
  | .missingDeclaringType nested declaring =>
    "nested type " ++ nested.text ++ " refers to missing declaring type " ++ declaring.text
  | .missingNestedType owner nested => owner.text ++ " lists missing nested type " ++ nested.text
  | .missingAliasTarget id => "intersection alias recorded for missing type " ++ id.text

/-- Types and intersection aliases in canonical order. -/
structure SymbolGraph where
  types : List TypeSymbol
  aliases : List Alias
  deriving Repr, Inhabited

/-- A namespace, its types and the aliases that stand for some of them. -/
structure Namespace where
  name : String
  types : List TypeId
  aliases : List Alias
  deriving Repr, Inhabited

/-- By namespace, then by identity. -/
def TypeId.graphOrder : TypeId → TypeId → Ordering :=
  compareLex (compareOn TypeId.namespace) compare

namespace SymbolGraph

/-! ## Looking types up -/

def find? (g : SymbolGraph) (id : TypeId) : Option TypeSymbol :=
  g.types.find? (·.id = id)

/-- The definition a reference points at. -/
def resolve? (g : SymbolGraph) (r : TypeRef) : Option TypeSymbol :=
  r.id?.bind g.find?

def contains (g : SymbolGraph) (id : TypeId) : Bool :=
  g.types.any (·.id = id)

theorem find?_eq_some {g : SymbolGraph} {id : TypeId} {t : TypeSymbol} (h : g.find? id = some t) :
    t.id = id ∧ t ∈ g.types :=
  ⟨by simpa using List.find?_some h, List.mem_of_find?_eq_some h⟩

/-- The names of the namespaces that types live in, in the order of the types. -/
def namespaceNames (g : SymbolGraph) : List String :=
  (g.types.map (·.namespace)).eraseDups

theorem mem_namespaceNames {g : SymbolGraph} {name : String} :
    name ∈ g.namespaceNames ↔ ∃ t ∈ g.types, t.namespace = name := by
  simp [namespaceNames]

/-- The namespace of the given name, with its types and aliases in their order. -/
def namespaceNamed (g : SymbolGraph) (name : String) : Namespace where
  name := name
  types := (g.types.filter (·.namespace = name)).map (·.id)
  aliases := g.aliases.filter (·.target.namespace = name)

def namespaces (g : SymbolGraph) : List Namespace :=
  g.namespaceNames.map g.namespaceNamed

def namespace? (g : SymbolGraph) (name : String) : Option Namespace :=
  g.namespaces.find? (·.name = name)

def memberCount (g : SymbolGraph) : Nat :=
  g.types.foldl (fun n t => n + t.members.size) 0

/-! ## Changing types -/

/-- Changes every type in its place; the change is to keep identities. -/
def mapTypes (g : SymbolGraph) (f : TypeSymbol → TypeSymbol) : SymbolGraph :=
  { g with types := g.types.map f }

@[simp] theorem types_mapTypes (g : SymbolGraph) (f : TypeSymbol → TypeSymbol) :
    (g.mapTypes f).types = g.types.map f := rfl

@[simp] theorem aliases_mapTypes (g : SymbolGraph) (f : TypeSymbol → TypeSymbol) :
    (g.mapTypes f).aliases = g.aliases := rfl

/-! ## Building -/

/-- The first element that is the same as an earlier one. -/
def firstRepeated? {α : Type} (same : α → α → Bool) (seen : List α) : List α → Option α
  | [] => none
  | x :: rest => if seen.any (same · x) then some x else firstRepeated? same (x :: seen) rest

/-- The first member listed on a type it does not name, or listed a second time. -/
def memberFault? (owner : TypeId) (seen : List MemberId) : List MemberId → Option GraphError
  | [] => none
  | id :: rest =>
    if id.declaringTypeId ≠ owner then some (.foreignMember owner id)
    else if seen.any (·.same id) then some (.duplicateMember owner id)
    else memberFault? owner (id :: seen) rest

/-- The first type that is referred to by identity but not listed. -/
def linkFault? (ids : List TypeId) (t : TypeSymbol) : Option GraphError :=
  match t.declaringType.filter (· ∉ ids) with
  | some declaring => some (.missingDeclaringType t.id declaring)
  | none => (t.nestedTypes.find? (· ∉ ids)).map (.missingNestedType t.id)

/-- All members of a static type are static. Static members leave the class surface for the static one, and
static constructors are not emitted. -/
def settleInfo (allStatic : Bool) (kind : MemberKind) (info : MemberInfo) : MemberInfo :=
  let info := { info with isStatic := info.isStatic || allStatic }
  if !info.isStatic then info
  else if kind = .constructor then { info with placement := .omitted }
  else if info.placement = .classSurface then { info with placement := .staticSurface }
  else info

/-- A type as it stands in a graph: static members are placed, nested types are sorted. -/
def settle (t : TypeSymbol) : TypeSymbol :=
  { t with
    members := t.members.mapInfo (settleInfo t.flags.isStatic)
    nestedTypes := t.nestedTypes.mergeSort fun a b => (compare a b).isLE }

def sortTypes (types : List TypeSymbol) : List TypeSymbol :=
  types.mergeSort fun a b => (TypeId.graphOrder a.id b.id).isLE

/-- Aliases of one namespace stand together, ordered by what they stand for. -/
def sortAliases (aliases : List Alias) : List Alias :=
  aliases.mergeSort fun a b => (TypeId.graphOrder a.target b.target).isLE

/-- The first fault of a list of types in canonical order, with the aliases that go with it. -/
def fault? (types : List TypeSymbol) (aliases : List Alias) : Option GraphError :=
  let ids := types.map (·.id)
  ((firstRepeated? (fun a b => a = b) [] ids).map .duplicateType)
    |>.or (types.findSome? fun t => memberFault? t.id [] (t.members.infos.map (·.2.id)))
    |>.or ((types.map settle).findSome? (linkFault? ids))
    |>.or ((aliases.find? (·.target ∉ ids)).map fun a => .missingAliasTarget a.target)

/-- The graph of the given types and aliases, or the first thing wrong with them. -/
def build (types : List TypeSymbol) (aliases : List Alias) : Except GraphError SymbolGraph :=
  let sorted := sortTypes types
  match fault? sorted aliases with
  | some e => .error e
  | none => .ok ⟨sorted.map settle, sortAliases aliases⟩

/-- The graph with more types and aliases. -/
def extend (g : SymbolGraph) (types : List TypeSymbol) (aliases : List Alias) :
    Except GraphError SymbolGraph :=
  build (g.types ++ types) (g.aliases ++ aliases)

end SymbolGraph

end Exonym
