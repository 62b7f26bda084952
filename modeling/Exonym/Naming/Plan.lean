import Exonym.Diagnostic
import Exonym.Graph
import Exonym.Ledger
import Exonym.Naming.BaseName

/-!
# Which names a graph needs

The names of a graph are reserved in a fixed order: all types, then for each type the members on its surfaces and
those of its views, then for each namespace the types it imports. The order of types is that of the graph, and
members go by declaration and identity, so the order in which anything was listed does not matter.

Some requests hang on names given before: whether a member of a view is marked, and what an import is called. So
the plan is a list of steps, each of which makes its request when its turn comes.

Main statements:

* `NamingStep.mem_plan_type`: every type of the graph asks for a name in its namespace.
* `NamingRun.run_append`: running two plans one after the other is running them as one, up to the first failure.
-/

namespace Exonym

/-- One name to reserve. -/
inductive NamingStep where
  /-- A request known from the graph alone. -/
  | fixed (request : Request)
  /-- A member of a view. Its base is marked if the member would not get its natural name on the surface of the
  type, which the first request tries out. -/
  | viewed (surface request : Request)
  /-- A type under the name it has in its own namespace, for use in another scope. -/
  | renamed (id : TypeId) (scope : Scope) (reason : String)
  deriving Repr

namespace NamingStep

/-- Marks the members of views whose natural names are taken. -/
def viewMarker : String := "$view"

/-- The request that a step makes when its turn comes. -/
def request (l : Ledger) : NamingStep → Except NameError Request
  | .fixed r => .ok r
  | .viewed surface r => do
    let name ← l.peek surface
    return if name = l.naturalName surface.base .member then r else { r with base := r.base ++ viewMarker }
  | .renamed id scope reason => do
    let name ← l.finalName (.type id) (.internal id.namespace)
    return { Request.of (.type id) name scope with reason := reason, verbatim := true }

/-! ## Types and members -/

/-- A type has a name among all types of its namespace, and a public one also in the facade. -/
def ofType (t : TypeSymbol) : List NamingStep :=
  let inScope (s : Scope) (reason : String) := .fixed { Request.of (.type t.id) t.baseName s with reason := reason }
  inScope (.internal t.namespace) "type" ::
    if t.accessibility.isPublic then [inScope (.facade t.namespace) "public type"] else []

/-- The overload group of the methods with one name. -/
def methodGroup (info : MemberInfo) : String :=
  "method:" ++ info.name

/-- A member on a surface. Constructors have one name, and so have the methods with one source name. -/
def ofMember (t : TypeSymbol) (kind : MemberKind) (info : MemberInfo) : NamingStep :=
  let r := Request.of (.member info.id) info.baseName (.ofSurface t.id info.isStatic)
  let r := { r with reason := kind.text, isStatic := info.isStatic }
  .fixed <| match kind with
    | .constructor => { r with base := "constructor", verbatim := true, group := some "ctor" }
    | .method => { r with group := some (methodGroup info) }
    | .property | .field | .event => r

/-- The members on the surfaces of a type, by declaration. -/
def surfaceMembers (t : TypeSymbol) : List (MemberKind × MemberInfo) :=
  (t.members.infos.filter (·.2.onPrimarySurface)).mergeSort fun a b => (a.2.order b.2).isLE

def ofMembers (t : TypeSymbol) : List NamingStep :=
  (surfaceMembers t).map fun (kind, info) => ofMember t kind info

/-! ## Views -/

def ofAccessor (t : TypeSymbol) (v : View) : NamingStep :=
  .fixed { Request.of (.member v.accessorId) v.accessorId.name (.ofSurface t.id false) with
    reason := "view accessor" }

/-- A member of a view. The surface is tried with a request of the member alone, in no group. -/
def ofViewMember (t : TypeSymbol) (v : View) (id : MemberId) (kind : MemberKind) (info : MemberInfo) :
    NamingStep :=
  .viewed (.of (.member id) info.baseName (.ofSurface t.id info.isStatic))
    { Request.of (.member id) info.baseName (.ofView t.id v.interfaceId info.isStatic) with
      reason := "view " ++ kind.text
      isStatic := info.isStatic
      qualifier := if info.isExplicit then some v.interface.shortName else none
      group := if kind = .method then some (methodGroup info) else none }

/-- An accessor, and the members of its view that the type has. -/
def ofView (t : TypeSymbol) (v : View) : List NamingStep :=
  ofAccessor t v :: v.members.filterMap fun id =>
    (t.members.find? id).map fun (kind, info) => ofViewMember t v id kind info

/-! ## Imports -/

/-- The references in the declaration of a type: what it is built on and what its members are made of. -/
def references (t : TypeSymbol) : List TypeRef :=
  t.baseType.toList ++ t.interfaces ++
    t.members.methods.flatMap (fun x => x.returnType :: x.parameters.map (·.type)) ++
    t.members.properties.flatMap (fun x => x.type :: x.indexParameters.map (·.type)) ++
    t.members.fields.map (·.type) ++ t.members.events.map (·.handlerType) ++
    t.members.constructors.flatMap fun x => x.parameters.map (·.type)

/-- The types of other namespaces that the types of a namespace mention, in their order. -/
def foreignTypes (g : SymbolGraph) (ns : Namespace) : List TypeId :=
  let mentioned := (ns.types.filterMap g.find?).flatMap fun t => (references t).flatMap TypeRef.mentions
  let foreign := mentioned.filter fun id => id.namespace ≠ ns.name && g.contains id
  foreign.eraseDups.mergeSort fun a b => (compare a b).isLE

/-- A namespace that mentions types of others. Its own types are there first, so that imports give way to
them. -/
def ofImports (g : SymbolGraph) (ns : Namespace) : List NamingStep :=
  match foreignTypes g ns with
  | [] => []
  | foreign =>
    ns.types.map (.renamed · (.imports ns.name) "local type") ++
      foreign.map (.renamed · (.imports ns.name) "import alias")

/-! ## The whole graph -/

/-- Everything that needs a name. -/
def plan (g : SymbolGraph) : List NamingStep :=
  g.types.flatMap ofType ++ g.types.flatMap (fun t => ofMembers t ++ t.views.flatMap (ofView t)) ++
    g.namespaces.flatMap (ofImports g)

theorem mem_plan_type {g : SymbolGraph} {t : TypeSymbol} (h : t ∈ g.types) :
    ∃ r, .fixed r ∈ plan g ∧ r.id = .type t.id ∧ r.base = t.baseName ∧ r.scope = .internal t.namespace := by
  refine ⟨{ Request.of (.type t.id) t.baseName (.internal t.namespace) with reason := "type" }, ?_, rfl, rfl, rfl⟩
  simp only [plan, List.mem_append, List.mem_flatMap]
  exact .inl (.inl ⟨t, h, by simp [ofType]⟩)

end NamingStep

/-- A reserved word was asked for and changed. -/
structure ReservedWordNotice where
  id : SymbolId
  requested : String
  scope : Scope
  finalName : String
  deriving Repr

def ReservedWordNotice.diagnostic (n : ReservedWordNotice) : Diagnostic :=
  .about .info .reservedWord n.id.text
    ("`" ++ n.requested ++ "` is reserved in " ++ n.scope.key ++ "; named `" ++ n.finalName ++ "`")

/-- How far the running of a plan got: the ledger, what was said, and the failure that stopped it, if any. -/
structure NamingRun where
  ledger : Ledger
  notices : List ReservedWordNotice
  failure : Option NameError
  deriving Repr

namespace NamingRun

/-- Nothing done. -/
def start (l : Ledger) : NamingRun := ⟨l, [], none⟩

/-- Goes on from where a run got to, unless it failed. -/
def andThen (r : NamingRun) (next : Ledger → NamingRun) : NamingRun :=
  match r.failure with
  | some _ => r
  | none => { next r.ledger with notices := r.notices ++ (next r.ledger).notices }

/-- Reserves one name, and tells of a reserved word if a new decision had to avoid one. -/
def reserve (l : Ledger) (r : Request) : Except NameError (Ledger × List ReservedWordNotice) := do
  let (name, after) ← l.reserve r
  let made := if (l.decision? r.id r.scope).isSome then none else after.decision? r.id r.scope
  return (after, (made.filter (·.sanitized)).toList.map fun d => ⟨r.id, d.requested, d.scope, name⟩)

/-- Takes one step. A step that fails leaves the ledger as it was. -/
def step (l : Ledger) (s : NamingStep) : NamingRun :=
  match s.request l >>= reserve l with
  | .ok (after, notices) => ⟨after, notices, none⟩
  | .error e => ⟨l, [], some e⟩

/-- Takes the steps in turn, up to the first that fails. -/
def run (l : Ledger) : List NamingStep → NamingRun
  | [] => start l
  | s :: rest => (step l s).andThen (run · rest)

@[simp] theorem start_andThen (l : Ledger) (next : Ledger → NamingRun) :
    (start l).andThen next = next l := by
  simp [start, andThen]

theorem andThen_assoc (r : NamingRun) (f g : Ledger → NamingRun) :
    (r.andThen f).andThen g = r.andThen fun l => (f l).andThen g := by
  unfold andThen
  cases hr : r.failure with
  | some e => simp [hr]
  | none => cases hf : (f r.ledger).failure <;> simp [hf]

theorem run_append (l : Ledger) (first second : List NamingStep) :
    run l (first ++ second) = (run l first).andThen (run · second) := by
  induction first generalizing l with
  | nil => simp [run]
  | cons s rest ih => simp [run, andThen_assoc, ih]

end NamingRun

/-- Reserves the names of everything in a graph. -/
def SymbolGraph.reserveNames (g : SymbolGraph) (l : Ledger) : NamingRun :=
  NamingRun.run l (NamingStep.plan g)

end Exonym
