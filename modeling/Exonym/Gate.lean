import Exonym.Diagnostic
import Exonym.Graph
import Exonym.Ledger

/-!
# The gate

Before anything is written out, a graph with names is held against the ledger its names come from. Four rules
are checked, each from the graph and the ledger alone: names are stamped as they were decided, names are unique in
their scopes, names that were derived are no reserved words, and views hold what they should.

Main statements:

* `Gate.compare?_eq_none_iff`: a stamp passes exactly when it is the name that was decided.
* `Gate.repeated_eq_nil_iff`: a scope passes exactly when symbols with one name are of one overload group.
-/

namespace Exonym

inductive Violation where
  | unstamped (id : SymbolId) (scope : Scope)
  | neverReserved (id : SymbolId) (scope : Scope) (stamped : String)
  | stampedOtherwise (id : SymbolId) (scope : Scope) (stamped committed : String)
  | omittedNamed (id : MemberId) (name : String)
  | alreadyHeld (id : SymbolId) (scope : Scope) (name : String) (holder : SymbolId)
  | reservedWord (id : SymbolId) (scope : Scope) (name : String)
  | unnamedAccessor (accessor : MemberId)
  | unknownViewMember (member : MemberId) (interface : TypeRef)
  | emittedViewMember (member : MemberId) (interface : TypeRef) (placement : Placement)
  | viewMemberOnSurface (member : MemberId) (scope : Scope)
  deriving Repr

namespace Violation

/-- The symbol that breaks a rule. -/
def location : Violation → SymbolId
  | .unstamped id _ => id
  | .neverReserved id _ _ => id
  | .stampedOtherwise id _ _ _ => id
  | .omittedNamed id _ => .member id
  | .alreadyHeld id _ _ _ => id
  | .reservedWord id _ _ => id
  | .unnamedAccessor id => .member id
  | .unknownViewMember id _ => .member id
  | .emittedViewMember id _ _ => .member id
  | .viewMemberOnSurface id _ => .member id

/-- The rule that is broken. -/
def rule : Violation → String
  | .unstamped .. | .neverReserved .. | .stampedOtherwise .. | .omittedNamed .. => "names-stamped"
  | .alreadyHeld .. => "scope-uniqueness"
  | .reservedWord .. => "reserved-words"
  | .unnamedAccessor .. | .unknownViewMember .. | .emittedViewMember .. | .viewMemberOnSurface .. =>
    "view-consistency"

def explanation : Violation → String
  | .unstamped _ scope => "no final name stamped for " ++ scope.key
  | .neverReserved _ scope stamped => "`" ++ stamped ++ "` was never reserved in " ++ scope.key
  | .stampedOtherwise _ scope stamped committed =>
    "stamped `" ++ stamped ++ "` but " ++ scope.key ++ " committed `" ++ committed ++ "`"
  | .omittedNamed _ name => "omitted member carries the name `" ++ name ++ "`"
  | .alreadyHeld _ scope name holder =>
    "`" ++ name ++ "` in " ++ scope.key ++ " is already held by " ++ holder.text
  | .reservedWord _ scope name => "`" ++ name ++ "` in " ++ scope.key ++ " is a reserved word"
  | .unnamedAccessor _ => "view accessor has no final name"
  | .unknownViewMember _ interface => "view " ++ interface.text ++ " lists an unknown member"
  | .emittedViewMember _ interface placement =>
    "member in view " ++ interface.text ++ " is emitted on " ++ placement.text
  | .viewMemberOnSurface _ scope => "view-only member is named in " ++ scope.key

def diagnostic (v : Violation) : Diagnostic :=
  .about .error .phaseViolation v.location.text ("[" ++ v.rule ++ "] " ++ v.explanation)

end Violation

namespace Gate

/-! ## Names are stamped as they were decided -/

/-- What is wrong with the name stamped on a symbol for a scope. -/
def compare? (l : Ledger) (id : SymbolId) (s : Scope) (stamped : Option String) : Option Violation :=
  match stamped, (l.decision? id s).map (·.finalName) with
  | none, _ => some (.unstamped id s)
  | some name, none => some (.neverReserved id s name)
  | some name, some committed => if name = committed then none else some (.stampedOtherwise id s name committed)

theorem compare?_eq_none_iff {l : Ledger} {id : SymbolId} {s : Scope} {stamped : Option String} :
    compare? l id s stamped = none ↔ ∃ name, stamped = some name ∧ l.finalName id s = .ok name := by
  unfold compare? Ledger.finalName
  cases stamped <;> cases l.decision? id s <;> simp [eq_comm]

def stampOfMember? (l : Ledger) (t : TypeSymbol) (info : MemberInfo) : Option Violation :=
  match info.placement with
  | .classSurface | .staticSurface =>
    compare? l (.member info.id) (.ofSurface t.id info.isStatic) info.finalName
  | .viewOnly => (t.viewOf? info.id).bind fun v =>
    compare? l (.member info.id) (.ofView t.id v.interfaceId info.isStatic) info.finalName
  | .omitted => info.finalName.map (.omittedNamed info.id)

def stamps (g : SymbolGraph) (l : Ledger) : List Violation :=
  g.types.flatMap fun t =>
    (compare? l (.type t.id) (.internal t.namespace) t.finalName).toList ++
      t.members.infos.filterMap fun (_, info) => stampOfMember? l t info

/-! ## Names are unique -/

/-- Decisions may have one name only as members of one overload group. -/
def mayShare (first later : Decision) : Bool :=
  later.group.isSome && later.group = first.group

/-- The decisions that have the name of an earlier one and may not; `seen` holds the first one of each name. -/
def repeated (s : Scope) (seen : List Decision) : List Decision → List Violation
  | [] => []
  | d :: rest =>
    match seen.find? (·.finalName = d.finalName) with
    | none => repeated s (seen ++ [d]) rest
    | some first =>
      if mayShare first d then repeated s seen rest
      else .alreadyHeld d.id s d.finalName first.id :: repeated s seen rest

/-- Where a name is held already, holding it once more changes no search for the first decision with a name. -/
theorem find?_concat_of_held {seen : List Decision} {d first : Decision}
    (h : seen.find? (·.finalName = d.finalName) = some first) (name : String) :
    (seen ++ [d]).find? (·.finalName = name) = seen.find? (·.finalName = name) := by
  rw [List.find?_append]
  by_cases hname : d.finalName = name
  · rw [hname] at h
    rw [h, Option.some_or]
  · rw [List.find?_cons_of_neg (by simpa using hname), List.find?_nil, Option.or_none]

/-- Of the decisions seen before, only the first one of each name counts. -/
theorem repeated_congr {s : Scope} {seen seen' ds : List Decision}
    (h : ∀ name, seen.find? (·.finalName = name) = seen'.find? (·.finalName = name)) :
    repeated s seen ds = repeated s seen' ds := by
  induction ds generalizing seen seen' with
  | nil => rfl
  | cons d rest ih =>
    have hconcat : ∀ name, (seen ++ [d]).find? (·.finalName = name) = (seen' ++ [d]).find? (·.finalName = name) := by
      intro name
      rw [List.find?_append, List.find?_append, h]
    simp only [repeated, h d.finalName, ih h, ih hconcat]

theorem repeated_cons_eq_nil_iff {s : Scope} {seen rest : List Decision} {d : Decision} :
    repeated s seen (d :: rest) = [] ↔
      (∀ first, seen.find? (·.finalName = d.finalName) = some first → mayShare first d = true) ∧
        repeated s (seen ++ [d]) rest = [] := by
  simp only [repeated]
  cases hfirst : seen.find? (·.finalName = d.finalName) with
  | none => simp
  | some first =>
    rw [repeated_congr (find?_concat_of_held hfirst)]
    cases hshare : mayShare first d <;> simp [hshare]

theorem repeated_eq_nil_iff {s : Scope} {seen ds : List Decision} :
    repeated s seen ds = [] ↔ ∀ before d after, ds = before ++ d :: after →
      ∀ first, (seen ++ before).find? (·.finalName = d.finalName) = some first → mayShare first d = true := by
  induction ds generalizing seen with
  | nil => simp [repeated]
  | cons d rest ih =>
    rw [repeated_cons_eq_nil_iff, ih]
    constructor
    · rintro ⟨hhead, htail⟩ before e after heq first hfirst
      -- The decision looked at is `d`, or it comes later and `d` is among the ones before it.
      cases before with
      | nil =>
        obtain ⟨rfl, rfl⟩ := List.cons.inj heq
        rw [List.append_nil] at hfirst
        exact hhead first hfirst
      | cons b before =>
        obtain ⟨rfl, rfl⟩ := List.cons.inj heq
        exact htail before e after rfl first (by rwa [List.append_assoc])
    · intro h
      refine ⟨fun first hfirst => h [] d rest rfl first (by rwa [List.append_nil]), ?_⟩
      intro before e after heq first hfirst
      refine h (d :: before) e after (by rw [heq, List.cons_append]) first ?_
      rwa [List.append_assoc] at hfirst

def uniqueness (l : Ledger) : List Violation :=
  (l.scopes.mergeSort fun a b => (compare a b).isLE).flatMap fun s => repeated s [] (l.decisionsIn s)

/-! ## Derived names are no reserved words -/

def reservedWords (l : Ledger) : List Violation :=
  (l.sortedDecisions.filter fun d => d.source ≠ .verbatim && l.reservedWords.contains d.finalName).map fun d =>
    .reservedWord d.id d.scope d.finalName

/-! ## Views hold what they should -/

def viewMember? (t : TypeSymbol) (v : View) (id : MemberId) : Option Violation :=
  match t.members.find? id with
  | none => some (.unknownViewMember id v.interface)
  | some (_, info) =>
    if info.placement = .viewOnly then none else some (.emittedViewMember id v.interface info.placement)

def viewFaults (t : TypeSymbol) (v : View) : List Violation :=
  (if v.accessorName.isNone then [.unnamedAccessor v.accessorId] else []) ++
    v.members.filterMap (viewMember? t v)

/-- A member of a view that has a name on a surface of its type. -/
def surfaced? (l : Ledger) (t : TypeSymbol) (info : MemberInfo) : Option Violation :=
  let surface := Scope.ofSurface t.id info.isStatic
  if info.placement = .viewOnly && (l.decision? (.member info.id) surface).isSome then
    some (.viewMemberOnSurface info.id surface)
  else none

def views (g : SymbolGraph) (l : Ledger) : List Violation :=
  g.types.flatMap fun t =>
    t.views.flatMap (viewFaults t) ++ t.members.infos.filterMap fun (_, info) => surfaced? l t info

end Gate

/-- Everything that is wrong with the names of a graph, rule by rule. -/
def SymbolGraph.violations (g : SymbolGraph) (l : Ledger) : List Violation :=
  Gate.stamps g l ++ Gate.uniqueness l ++ Gate.reservedWords l ++ Gate.views g l

end Exonym
