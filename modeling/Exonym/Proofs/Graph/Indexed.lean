import Exonym.Proofs.Graph.Canonical
import Mathlib.Data.List.Induction

/-!
# Graphs with their indexes

A graph in store says the same things several times: its types have places, a table has the place of every identity, and
the identities are listed a second time in the namespaces, where the aliases are as well. Building fills all of it in one
go, a change of types makes the table anew and leaves the namespaces as they are, and a graph that grows is built again.
Namespaces are looked up by halving, which finds them as long as their names are in strict order.

Main statements:

* `IndexedGraph.Canonical`: what is said in several places agrees.
* `IndexedGraph.bisect_eq_some_iff`, `IndexedGraph.namespace?_eq_some_iff`: halving finds what there is to find.
* `IndexedGraph.lookup_placesOf`: the table has the place of every identity.
* `IndexedGraph.foldl_enlist`, `IndexedGraph.foldl_attach`: what has been listed in the namespaces one by one.
-/

namespace Exonym

/-- A graph with the place of each identity and with its namespaces. -/
structure IndexedGraph where
  types : List TypeSymbol
  /-- The latest entry for an identity counts. -/
  places : List (TypeId × Nat)
  namespaces : List Namespace

namespace IndexedGraph

/-! ## The graph in store -/

def placesOf (types : List TypeSymbol) : List (TypeId × Nat) :=
  types.zipIdx.foldl (fun places (t, place) => (t.id, place) :: places) []

/-- Lists a type in the namespace of the given name, which is put in its place among the others if it is not there. -/
def enlist (name : String) (id : TypeId) : List Namespace → List Namespace
  | [] => [⟨name, [id], []⟩]
  | ns :: rest =>
    match compare name ns.name with
    | .lt => ⟨name, [id], []⟩ :: ns :: rest
    | .eq => { ns with types := ns.types ++ [id] } :: rest
    | .gt => ns :: enlist name id rest

/-- Lists an alias in the namespace of its target, if there is one. -/
def attach (namespaces : List Namespace) (a : Alias) : List Namespace :=
  namespaces.map fun ns =>
    if ns.name = a.target.namespace then { ns with aliases := ns.aliases ++ [a] } else ns

def sortByTarget (aliases : List Alias) : List Alias :=
  aliases.mergeSort fun a b => (compare a.target b.target).isLE

/-- Puts types that are in order in store, with aliases in any order. -/
def store (types : List TypeSymbol) (aliases : List Alias) : IndexedGraph where
  types := types
  places := placesOf types
  namespaces :=
    (sortByTarget aliases).foldl attach (types.foldl (fun namespaces t => enlist t.namespace t.id namespaces) [])

def build (types : List TypeSymbol) (aliases : List Alias) : Except GraphError IndexedGraph :=
  let sorted := SymbolGraph.sortTypes types
  match SymbolGraph.fault? sorted aliases with
  | some e => .error e
  | none => .ok (store (sorted.map SymbolGraph.settle) aliases)

/-- All aliases, namespace by namespace. -/
def aliases (g : IndexedGraph) : List Alias :=
  g.namespaces.flatMap (·.aliases)

def get? (g : IndexedGraph) (id : TypeId) : Option TypeSymbol :=
  (g.places.lookup id).bind (g.types[·]?)

/-- Where the half begins in which to look on. -/
def halfOf (order : Nat → Ordering) (first left : Nat) : Nat :=
  if order (first + left / 2) = .gt then first else first + left / 2

/-- The place from `first` on, among as many as there are left, that comes out as `eq`. Places that come before it are to
come out as `lt`, and those after it as `gt`. -/
def bisect (order : Nat → Ordering) (first left : Nat) : Option Nat :=
  if left = 0 then none
  else if left = 1 then if order first = .eq then some first else none
  else bisect order (halfOf order first left) (left - left / 2)
termination_by left
decreasing_by omega

def namespace? (g : IndexedGraph) (name : String) : Option Namespace :=
  (bisect (fun place => g.namespaces[place]?.elim .gt fun ns => compare ns.name name) 0 g.namespaces.length).bind
    (g.namespaces[·]?)

/-- The graph with other types in the places of its types. -/
def withTypes (g : IndexedGraph) (types : List TypeSymbol) : IndexedGraph :=
  { g with types := types, places := placesOf types }

def extend (g : IndexedGraph) (types : List TypeSymbol) (aliases : List Alias) : Except GraphError IndexedGraph :=
  build (g.types ++ types) (g.aliases ++ aliases)

/-- The graph without its indexes. -/
def graph (g : IndexedGraph) : SymbolGraph :=
  ⟨g.types, g.aliases⟩

/-! ## Passes -/

/-- Analysis changes types in their places, and then adds what it made, if anything. -/
def analyzeInterfaces (g : IndexedGraph) (budget : Nat) (settings : InterfaceSettings) :
    Except InterfaceError IndexedGraph := do
  let planned ← (g.types.mapM (InterfaceAnalysis.planType ⟨g.graph, budget⟩ settings)).mapError .hierarchy
  let plans := planned.map (·.1)
  let reduced := g.withTypes (List.zipWith InterfaceAnalysis.afterPlan g.types plans)
  let diamonds := InterfaceAnalysis.diamondsOf plans
  if diamonds.isEmpty then return reduced
  else (reduced.extend (diamonds.map (·.base)) (diamonds.map (·.intersection))).mapError .graph

def run (g : IndexedGraph) : Pass → Except PipelineError IndexedGraph
  | .interfaces budget settings => (g.analyzeInterfaces budget settings).mapError .interfaces
  | .overloads => .ok (g.withTypes (g.types.map fun t => (OverloadPlan.ofConflicts t.conflicts).applyTo t))
  | .views => .ok (g.withTypes (g.types.map fun t => t.planViews.applyTo t))
  | .names ledger => ((g.types.mapM (Stamp.stampType ledger)).map g.withTypes).mapError .naming

def afterPasses (g : IndexedGraph) (passes : List Pass) : Except PipelineError IndexedGraph :=
  passes.foldlM run g

/-- What building makes of types and aliases, after passes in turn. -/
def made (types : List TypeSymbol) (aliases : List Alias) (passes : List Pass) : Except PipelineError IndexedGraph := do
  let g ← (build types aliases).mapError .graph
  g.afterPasses passes

/-! ## How it goes together -/

/-- What is in store agrees with itself: places, namespaces and aliases are those of the types, in their order, and static
members are where they belong. -/
structure Canonical (g : IndexedGraph) : Prop where
  sorted : g.types.Pairwise fun t u => TypeId.graphOrder t.id u.id = .lt
  found : ∀ id t, g.get? id = some t ↔ t ∈ g.types ∧ t.id = id
  namespaces : g.namespaces.Pairwise fun a b => compare a.name b.name = .lt
  listed : g.namespaces.flatMap (·.types) = g.types.map (·.id)
  homes : ∀ ns ∈ g.namespaces, ns.types ≠ [] ∧ ∀ id ∈ ns.types, id.namespace = ns.name
  named : ∀ name ns, g.namespace? name = some ns ↔ ns ∈ g.namespaces ∧ ns.name = name
  inhabited : ∀ name, (g.namespace? name).isSome = true ↔ ∃ t ∈ g.types, t.namespace = name
  aliases : ∀ ns ∈ g.namespaces, (∀ a ∈ ns.aliases, a.target.namespace = ns.name) ∧
    ns.aliases.Pairwise fun a b => (compare a.target b.target).isLE = true
  targets : ∀ a ∈ g.aliases, ∃ t ∈ g.types, t.id = a.target
  static : ∀ t ∈ g.types, ∀ m ∈ t.members.infos, m.2.isStatic = true →
    m.2.placement ≠ .classSurface ∧ (m.1 = .constructor → m.2.placement = .omitted)

/-- What is in store is the graph. -/
structure Shows (x : IndexedGraph) (g : SymbolGraph) : Prop where
  types : x.types = g.types
  get? : ∀ id, x.get? id = g.find? id
  namespaces : x.namespaces = g.namespaces
  named : ∀ name, x.namespace? name = g.namespace? name
  aliases : x.aliases = g.aliases

/-! ## Looking up by halving -/

section Halving

variable {order : Nat → Ordering} {first left place : Nat}

/-- The half in which to look on is a part of what is left. -/
theorem halfOf_bounds (order : Nat → Ordering) (first left : Nat) :
    first ≤ halfOf order first left ∧ halfOf order first left + (left - left / 2) ≤ first + left := by
  unfold halfOf
  split <;> omega

/-- A place that comes out as `eq` is in the half in which to look on. -/
theorem mem_half (h : ∀ i j, first ≤ i → i < j → j < first + left → order j ≠ .gt → order i = .lt)
    (hfirst : first ≤ place) (hlast : place < first + left) (heq : order place = .eq) :
    halfOf order first left ≤ place ∧ place < halfOf order first left + (left - left / 2) := by
  unfold halfOf
  split
  · rename_i hgt
    -- the middle comes out as `gt`, so the place cannot be the middle or behind it
    have hmiddle : ¬first + left / 2 < place := fun hbehind => by
      have := h (first + left / 2) place (by omega) hbehind hlast (by simp [heq])
      simp [hgt] at this
    have hne : place ≠ first + left / 2 := by
      rintro rfl
      simp [hgt] at heq
    exact ⟨hfirst, by omega⟩
  · rename_i hle
    have hmiddle : ¬place < first + left / 2 := fun hbefore => by
      have := h place (first + left / 2) hfirst hbefore (by omega) hle
      simp [heq] at this
    exact ⟨by omega, by omega⟩

/-- Halving finds the one place that comes out as `eq`. -/
theorem bisect_eq_some_iff (h : ∀ i j, first ≤ i → i < j → j < first + left → order j ≠ .gt → order i = .lt) :
    bisect order first left = some place ↔ first ≤ place ∧ place < first + left ∧ order place = .eq := by
  fun_induction bisect order first left with
  | case1 first => simp; omega
  | case2 first heq hone =>
    rw [Option.some.injEq]
    constructor
    · rintro rfl
      exact ⟨Nat.le_refl _, by omega, heq⟩
    · rintro ⟨hfirst, hlast, -⟩
      omega
  | case3 first hneq hone =>
    refine iff_of_false (by simp) ?_
    rintro ⟨hfirst, hlast, heq⟩
    obtain rfl : first = place := by omega
    exact hneq heq
  | case4 first left hnone hone ih =>
    obtain ⟨hbegin, hend⟩ := halfOf_bounds order first left
    rw [ih fun i j hi hij hj => h i j (by omega) hij (by omega)]
    constructor
    · rintro ⟨hfirst, hlast, heq⟩
      exact ⟨by omega, by omega, heq⟩
    · rintro ⟨hfirst, hlast, heq⟩
      obtain ⟨hfirst', hlast'⟩ := mem_half h hfirst hlast heq
      exact ⟨hfirst', hlast', heq⟩

end Halving

/-- Namespaces in the strict order of their names are found by their names. -/
theorem namespace?_eq_some_iff {g : IndexedGraph}
    (hsorted : g.namespaces.Pairwise fun a b => compare a.name b.name = .lt) {name : String} {ns : Namespace} :
    g.namespace? name = some ns ↔ ns ∈ g.namespaces ∧ ns.name = name := by
  have horder : ∀ i j, 0 ≤ i → i < j → j < 0 + g.namespaces.length →
      (g.namespaces[j]?.elim .gt fun ns => compare ns.name name) ≠ .gt →
      (g.namespaces[i]?.elim .gt fun ns => compare ns.name name) = .lt := by
    intro i j _ hij hj hle
    have hj : j < g.namespaces.length := by omega
    have hi : i < g.namespaces.length := by omega
    rw [List.getElem?_eq_getElem hj, Option.elim_some] at hle
    rw [List.getElem?_eq_getElem hi, Option.elim_some]
    exact Std.TransCmp.lt_of_lt_of_isLE (List.pairwise_iff_getElem.1 hsorted i j hi hj hij) (Ordering.isLE_iff_ne_gt.2 hle)
  unfold namespace?
  rw [Option.bind_eq_some_iff]
  simp only [bisect_eq_some_iff horder]
  constructor
  · rintro ⟨place, ⟨-, -, heq⟩, hplace⟩
    rw [hplace, Option.elim_some] at heq
    exact ⟨List.mem_of_getElem? hplace, Std.LawfulEqCmp.eq_of_compare heq⟩
  · rintro ⟨hmem, rfl⟩
    obtain ⟨place, hplace, rfl⟩ := List.mem_iff_getElem.1 hmem
    refine ⟨place, ⟨Nat.zero_le _, by omega, ?_⟩, List.getElem?_eq_getElem hplace⟩
    rw [List.getElem?_eq_getElem hplace, Option.elim_some]
    exact Std.ReflCmp.compare_self

/-! ## Places -/

theorem placesOf_append (types : List TypeSymbol) (t : TypeSymbol) :
    placesOf (types ++ [t]) = (t.id, types.length) :: placesOf types := by
  unfold placesOf
  rw [List.zipIdx_append, List.foldl_append]
  simp

/-- The table has the first place of an identity if there is no second one. -/
theorem lookup_placesOf {types : List TypeSymbol} (h : types.Pairwise fun t u => t.id ≠ u.id) (id : TypeId) :
    (placesOf types).lookup id = types.findIdx? (·.id = id) := by
  induction types using List.reverseRecOn with
  | nil => rfl
  | append_singleton types t ih =>
    obtain ⟨hrest, -, hlast⟩ := List.pairwise_append.1 h
    rw [placesOf_append, List.lookup_cons, List.findIdx?_append, ih hrest]
    by_cases hid : id = t.id
    · have hnone : types.findIdx? (·.id = id) = none := by
        rw [List.findIdx?_eq_none_iff]
        exact fun u hu => by simpa [hid] using hlast u hu t (List.mem_singleton_self t)
      rw [hnone, Option.none_or]
      simp [hid]
    · have hother : (id == t.id) = false := by simpa using hid
      have hnone : [t].findIdx? (·.id = id) = none := by simpa using fun h => hid h.symm
      rw [hother, hnone, Option.map_none, Option.or_none]

/-! ## Namespaces -/

section Enlisting

variable {name : String} {id : TypeId}

theorem enlist_of_mem {namespaces : List Namespace}
    (hsorted : (namespaces.map (·.name)).Pairwise fun a b => compare a b = .lt)
    (hmem : name ∈ namespaces.map (·.name)) :
    enlist name id namespaces = namespaces.map fun ns =>
      if ns.name = name then { ns with types := ns.types ++ [id] } else ns := by
  induction namespaces with
  | nil => simp at hmem
  | cons ns rest ih =>
    rw [List.map_cons, List.pairwise_cons] at hsorted
    unfold enlist
    by_cases hname : name = ns.name
    · have horder : compare name ns.name = .eq := Std.LawfulEqCmp.compare_eq_iff_eq.2 hname
      -- in strict order no other namespace has the name, so the rest stays as it is
      have hrest : ∀ other ∈ rest, other.name ≠ name := by
        intro other hother hsame
        have hlt := hsorted.1 other.name (List.mem_map_of_mem hother)
        have heq : compare ns.name other.name = .eq :=
          Std.LawfulEqCmp.compare_eq_iff_eq.2 (hname.symm.trans hsame.symm)
        rw [heq] at hlt
        cases hlt
      rw [horder, List.map_cons, if_pos hname.symm]
      show { ns with types := ns.types ++ [id] } :: rest = _
      congr 1
      conv => lhs; rw [← List.map_id rest]
      exact List.map_congr_left fun other hother => (if_neg (hrest other hother)).symm
    · have hmem : name ∈ rest.map (·.name) := by
        rw [List.map_cons, List.mem_cons] at hmem
        exact hmem.resolve_left hname
      obtain ⟨other, hother, rfl⟩ := List.mem_map.1 hmem
      have horder : compare other.name ns.name = .gt := Std.OrientedCmp.gt_iff_lt.2 (hsorted.1 other.name hmem)
      rw [horder, List.map_cons, if_neg (Ne.symm hname)]
      show ns :: enlist other.name id rest = _
      rw [ih hsorted.2 hmem]

theorem enlist_of_forall_lt {namespaces : List Namespace} (h : ∀ ns ∈ namespaces, compare ns.name name = .lt) :
    enlist name id namespaces = namespaces ++ [⟨name, [id], []⟩] := by
  induction namespaces with
  | nil => rfl
  | cons ns rest ih =>
    have hns : compare name ns.name = .gt := Std.OrientedCmp.gt_iff_lt.2 (h ns List.mem_cons_self)
    unfold enlist
    rw [hns]
    show ns :: enlist name id rest = _
    rw [ih fun other hother => h other (List.mem_cons_of_mem ns hother)]
    rfl

/-- What comes in the order of its namespaces is listed in order, each namespace with what is its own. -/
theorem foldl_enlist {α : Type} {home : α → String} {known : α → TypeId} {xs : List α}
    (h : xs.Pairwise fun x y => (compare (home x) (home y)).isLE = true) :
    xs.foldl (fun namespaces x => enlist (home x) (known x) namespaces) [] =
      (xs.map home).eraseDups.map fun name => ⟨name, (xs.filter (home · = name)).map known, []⟩ := by
  induction xs using List.reverseRecOn with
  | nil => rfl
  | append_singleton xs x ih =>
    obtain ⟨hrest, -, hlast⟩ := List.pairwise_append.1 h
    have hsorted := pairwise_eraseDups (c := compare) (List.pairwise_map.2 hrest)
    rw [List.foldl_append, ih hrest, List.foldl_cons, List.foldl_nil, List.map_append, List.map_singleton,
      eraseDups_concat]
    -- the namespace is there already, or it comes after all that are there
    by_cases hknown : home x ∈ xs.map home
    · rw [if_pos hknown, enlist_of_mem (by simpa [Function.comp_def] using hsorted) (by simpa using hknown),
        List.map_map]
      refine List.map_congr_left fun name _ => ?_
      by_cases hname : name = home x
      · simp [hname]
      · simp [hname, Ne.symm hname]
    · have hnone : ∀ y ∈ xs, home y ≠ home x := fun y hy hsame => hknown (List.mem_map.2 ⟨y, hy, hsame⟩)
      rw [if_neg hknown, List.map_append, List.map_singleton, enlist_of_forall_lt]
      · congr 1
        · refine List.map_congr_left fun name hname => ?_
          have hne : home x ≠ name := by
            rintro rfl
            exact hknown (List.mem_eraseDups.1 hname)
          simp [hne]
        · have hnew : xs.filter (home · = home x) = [] := List.filter_eq_nil_iff.2 (by simpa using hnone)
          simp [hnew]
      · intro ns hns
        obtain ⟨name, hname, rfl⟩ := List.mem_map.1 hns
        obtain ⟨y, hy, rfl⟩ := List.mem_map.1 (List.mem_eraseDups.1 hname)
        have hle := hlast y hy x (List.mem_singleton_self x)
        show compare (home y) (home x) = .lt
        cases horder : compare (home y) (home x) with
        | lt => rfl
        | eq => exact absurd (Std.LawfulEqCmp.eq_of_compare horder) (hnone y hy)
        | gt => simp [horder] at hle

end Enlisting

theorem foldl_attach (aliases : List Alias) (namespaces : List Namespace) :
    aliases.foldl attach namespaces = namespaces.map fun ns =>
      { ns with aliases := ns.aliases ++ aliases.filter (·.target.namespace = ns.name) } := by
  induction aliases generalizing namespaces with
  | nil => simp
  | cons a rest ih =>
    rw [List.foldl_cons, ih, attach, List.map_map]
    refine List.map_congr_left fun ns _ => ?_
    by_cases hname : ns.name = a.target.namespace
    · simp [hname]
    · simp [hname, Ne.symm hname]

/-- In one namespace, aliases are in the same order whether they are sorted by namespaces first or not. -/
theorem filter_sortByTarget (aliases : List Alias) (name : String) :
    (sortByTarget aliases).filter (·.target.namespace = name) =
      (SymbolGraph.sortAliases aliases).filter (·.target.namespace = name) := by
  refine filter_sort_congr (k := Alias.target) fun a _ ha b _ hb => ?_
  exact (SymbolGraph.graphOrder_eq_compare ((of_decide_eq_true ha).trans (of_decide_eq_true hb).symm)).symm

end IndexedGraph

end Exonym
