import Exonym.Proofs.Graph.Indexed
import Exonym.Proofs.Ledger.Requests
import Exonym.Sample.Gallery

/-!
# What graphs have in store

A graph with its indexes is made in the same steps as one without: it is built of the same types and aliases, and goes
through the same passes. At every step it is the other graph put in store, so whatever is looked up in an index is what
the types and aliases say. That the indexes agree with each other then only has to be seen of graphs put in store, whose
types and aliases are in order.

Main statements:

* `SymbolGraph.indexed_build_eq`, `SymbolGraph.Canonical.run_stored`: building and passes, with indexes and without.
* `SymbolGraph.Canonical.stored`, `SymbolGraph.Canonical.shows_stored`: what a graph in order has in store.
* `SymbolGraph.stored_canonical_of_made`: the indexes agree after building and any passes.
-/

namespace Exonym

namespace SymbolGraph

/-! ## Putting graphs in store -/

/-- The graph with its indexes. -/
def stored (g : SymbolGraph) : IndexedGraph :=
  ⟨g.types, IndexedGraph.placesOf g.types, g.namespaces⟩

variable {g : SymbolGraph}

/-- Of its types, only the identities show in the namespaces of a graph. -/
theorem namespaces_congr {types : List TypeSymbol} (h : types.map (·.id) = g.types.map (·.id)) :
    ({ g with types := types } : SymbolGraph).namespaces = g.namespaces := by
  have hnames : ∀ ts : List TypeSymbol, ts.map (·.namespace) = (ts.map (·.id)).map (·.namespace) := by
    intro ts
    simp only [TypeSymbol.namespace, List.map_map, Function.comp_def]
  have hids : ∀ (ts : List TypeSymbol) (name : String),
      (ts.filter (·.namespace = name)).map (·.id) = (ts.map (·.id)).filter (·.namespace = name) := by
    intro ts name
    rw [List.filter_map, List.filter_congr]
    intro t _
    rw [Function.comp_apply, decide_eq_decide]
    exact Iff.rfl
  unfold namespaces namespaceNames namespaceNamed
  simp only [hnames, hids, h]

theorem stored_withTypes {types : List TypeSymbol} (h : types.map (·.id) = g.types.map (·.id)) :
    g.stored.withTypes types = ({ g with types := types } : SymbolGraph).stored := by
  unfold stored IndexedGraph.withTypes
  rw [namespaces_congr h]

/-- The types of a graph are in the order of their namespaces. -/
theorem Canonical.types_isLE (hg : g.Canonical) :
    g.types.Pairwise fun t u => (compare t.namespace u.namespace).isLE = true := by
  refine hg.types.imp fun horder => namespace_isLE ?_
  rw [horder]
  rfl

theorem Canonical.namespaceNames_lt (hg : g.Canonical) :
    g.namespaceNames.Pairwise fun a b => compare a b = .lt :=
  pairwise_eraseDups (List.pairwise_map.2 hg.types_isLE)

/-- Aliases stand for types of the graph, so there is a namespace for each. -/
theorem Canonical.home_mem (hg : g.Canonical) {a : Alias} (ha : a ∈ g.aliases) :
    a.target.namespace ∈ g.namespaceNames := by
  obtain ⟨t, ht, hid⟩ := hg.buildable.targets a ha
  rw [mem_namespaceNames, ← hid]
  exact ⟨t, ht, rfl⟩

/-- The namespaces hold all types, in their order. -/
theorem Canonical.flatMap_types (hg : g.Canonical) : g.namespaces.flatMap (·.types) = g.types.map (·.id) := by
  have hruns := flatMap_filter_of_sorted (k := TypeSymbol.namespace) hg.namespaceNames_lt hg.types_isLE
    fun t ht => mem_namespaceNames.2 ⟨t, ht, rfl⟩
  conv => rhs; rw [← hruns]
  rw [List.map_flatMap]
  unfold namespaces
  rw [List.flatMap_map]
  rfl

/-- The namespaces hold all aliases, in their order. -/
theorem Canonical.flatMap_aliases (hg : g.Canonical) : g.namespaces.flatMap (·.aliases) = g.aliases := by
  unfold namespaces
  rw [List.flatMap_map]
  refine flatMap_filter_of_sorted (k := fun a : Alias => a.target.namespace) hg.namespaceNames_lt ?_
    fun a ha => hg.home_mem ha
  exact hg.aliases.imp namespace_isLE

theorem Canonical.graph_stored (hg : g.Canonical) : g.stored.graph = g := by
  have haliases : g.stored.aliases = g.aliases := hg.flatMap_aliases
  unfold IndexedGraph.graph
  rw [haliases]
  rfl

/-- What is entered type by type and alias by alias is what the graph says of its namespaces. -/
theorem Canonical.store_eq (hg : g.Canonical) {aliases : List Alias} (haliases : g.aliases = sortAliases aliases) :
    IndexedGraph.store g.types aliases = g.stored := by
  have hnamespaces : (IndexedGraph.sortByTarget aliases).foldl IndexedGraph.attach
      (g.types.foldl (fun namespaces t => IndexedGraph.enlist t.namespace t.id namespaces) []) = g.namespaces := by
    rw [IndexedGraph.foldl_enlist hg.types_isLE, IndexedGraph.foldl_attach, List.map_map]
    show List.map _ g.namespaceNames = List.map _ g.namespaceNames
    congr 1
    funext name
    unfold namespaceNamed
    rw [haliases, ← IndexedGraph.filter_sortByTarget]
    rfl
  unfold IndexedGraph.store
  rw [hnamespaces]
  rfl

/-- A graph is built with its indexes if it is built at all, and then it is the same graph. -/
theorem indexed_build_eq (types : List TypeSymbol) (aliases : List Alias) :
    IndexedGraph.build types aliases = (build types aliases).map stored := by
  cases hfault : fault? (sortTypes types) aliases with
  | some e =>
    rw [build_eq_error_iff.2 hfault]
    unfold IndexedGraph.build
    simp only [hfault]
    rfl
  | none =>
    have hbuild := build_eq_ok_iff.2 ⟨hfault, rfl⟩
    rw [hbuild]
    unfold IndexedGraph.build
    simp only [hfault]
    exact congrArg Except.ok ((canonical_of_build hbuild).store_eq rfl)

/-! ## Passes on graphs in store -/

theorem Canonical.extend_stored (hg : g.Canonical) (types : List TypeSymbol) (aliases : List Alias) :
    g.stored.extend types aliases = (g.extend types aliases).map stored := by
  have haliases : g.stored.aliases = g.aliases := hg.flatMap_aliases
  unfold IndexedGraph.extend
  rw [haliases]
  exact indexed_build_eq (g.types ++ types) (g.aliases ++ aliases)

theorem Canonical.analyzeInterfaces_stored (hg : g.Canonical) (budget : Nat) (settings : InterfaceSettings) :
    g.stored.analyzeInterfaces budget settings =
      (g.analyzeInterfaces budget settings).map fun analyzed => analyzed.1.stored := by
  have hgraph : (⟨g.stored.graph, budget⟩ : Hierarchy) = ⟨g, budget⟩ := by rw [hg.graph_stored]
  unfold IndexedGraph.analyzeInterfaces SymbolGraph.analyzeInterfaces
  rw [hgraph, show g.stored.types = g.types from rfl]
  cases hplanned : g.types.mapM (InterfaceAnalysis.planType ⟨g, budget⟩ settings) with
  | error e => rfl
  | ok planned =>
    have hreduced := hg.reduceBy hplanned
    have hstored : g.stored.withTypes (List.zipWith InterfaceAnalysis.afterPlan g.types (planned.map (·.1))) =
        (InterfaceAnalysis.reduceBy g (planned.map (·.1))).stored := by
      refine stored_withTypes (map_eq_of_forall₂ (InterfaceAnalysis.forall₂_reduceBy (mapM_eq_ok_iff.1 hplanned)) ?_).symm
      rintro t u ⟨p, -, rfl⟩
      exact (InterfaceAnalysis.afterPlan_id t p.1).symm
    simp only [Except.mapError, bind, Except.bind, hstored, hreduced.extend_stored]
    unfold InterfaceAnalysis.diamondsOf InterfaceAnalysis.reduceBy
    split
    · rfl
    · cases SymbolGraph.extend _ _ _ <;> rfl

theorem Canonical.run_stored (hg : g.Canonical) (p : Pass) : g.stored.run p = (g.run p).map stored := by
  cases p with
  | interfaces budget settings =>
    unfold IndexedGraph.run SymbolGraph.run
    simp only [hg.analyzeInterfaces_stored]
    cases g.analyzeInterfaces budget settings <;> rfl
  | overloads =>
    refine congrArg Except.ok (stored_withTypes ?_)
    rw [List.map_map]
    rfl
  | views =>
    refine congrArg Except.ok (stored_withTypes ?_)
    rw [List.map_map]
    exact List.map_congr_left fun t _ => ViewPlan.applyTo_id _ t
  | names ledger =>
    show Except.mapError _ (Except.map _ (g.types.mapM (Stamp.stampType ledger))) = Except.map _ (Except.mapError _ _)
    unfold SymbolGraph.stampNames
    cases hstamp : g.types.mapM (Stamp.stampType ledger) with
    | error e => rfl
    | ok types =>
      -- stamping keeps the identities, so every type stays at its place in the store
      have hids : types.map (·.id) = g.types.map (·.id) :=
        (map_eq_of_forall₂ (mapM_eq_ok_iff.1 hstamp) fun _ _ h => (Stamp.id_of_stampType h).symm).symm
      exact congrArg Except.ok (stored_withTypes hids)

theorem Canonical.afterPasses_stored (hg : g.Canonical) (passes : List Pass) :
    g.stored.afterPasses passes = (g.afterPasses passes).map stored := by
  unfold IndexedGraph.afterPasses SymbolGraph.afterPasses
  induction passes generalizing g with
  | nil => rfl
  | cons p rest ih =>
    rw [List.foldlM_cons, List.foldlM_cons, hg.run_stored]
    cases hrun : g.run p with
    | error e => rfl
    | ok after => exact ih (hg.run hrun)

/-- What building makes of types and aliases, after passes in turn. -/
def made (types : List TypeSymbol) (aliases : List Alias) (passes : List Pass) : Except PipelineError SymbolGraph := do
  let g ← (build types aliases).mapError .graph
  g.afterPasses passes

variable {types : List TypeSymbol} {aliases : List Alias} {passes : List Pass}

theorem made_eq_ok_iff :
    made types aliases passes = .ok g ↔ ∃ first, build types aliases = .ok first ∧ first.afterPasses passes = .ok g := by
  unfold made
  cases build types aliases <;> simp [Except.mapError, bind, Except.bind]

theorem indexed_made_eq (types : List TypeSymbol) (aliases : List Alias) (passes : List Pass) :
    IndexedGraph.made types aliases passes = (made types aliases passes).map stored := by
  unfold IndexedGraph.made made
  rw [indexed_build_eq]
  cases hbuild : build types aliases with
  | error e => rfl
  | ok first => exact (canonical_of_build hbuild).afterPasses_stored passes

/-! ## What is in store -/

theorem Canonical.get?_stored (hg : g.Canonical) (id : TypeId) : g.stored.get? id = g.find? id := by
  show ((IndexedGraph.placesOf g.types).lookup id).bind (g.types[·]?) = g.types.find? (·.id = id)
  rw [IndexedGraph.lookup_placesOf hg.buildable.distinct, List.find?_eq_bind_findIdx?_getElem?]

theorem Canonical.namespaces_lt (hg : g.Canonical) :
    g.namespaces.Pairwise fun a b => compare a.name b.name = .lt := by
  unfold namespaces
  rw [List.pairwise_map]
  exact hg.namespaceNames_lt

theorem namespace?_eq_some_iff {name : String} {ns : Namespace} :
    g.namespace? name = some ns ↔ ns ∈ g.namespaces ∧ ns.name = name := by
  have hnames : (g.namespaces.map (·.name)).Nodup := by
    unfold namespaces
    rw [List.map_map, show Namespace.name ∘ g.namespaceNamed = id from rfl, List.map_id]
    exact Grouping.nodup_eraseDups _
  unfold namespace?
  constructor
  · intro h
    exact ⟨List.mem_of_find?_eq_some h, by simpa using List.find?_some h⟩
  · rintro ⟨hmem, rfl⟩
    cases hfind : g.namespaces.find? (·.name = ns.name) with
    | none => simpa using List.find?_eq_none.1 hfind ns hmem
    | some other =>
      have hname : other.name = ns.name := by simpa using List.find?_some hfind
      rw [List.inj_on_of_nodup_map hnames (List.mem_of_find?_eq_some hfind) hmem hname]

theorem mem_namespaces {ns : Namespace} :
    ns ∈ g.namespaces ↔ ∃ name ∈ g.namespaceNames, g.namespaceNamed name = ns := by
  unfold namespaces
  rw [List.mem_map]

/-- What a canonical graph has in store agrees with itself. -/
theorem Canonical.stored (hg : g.Canonical) : g.stored.Canonical where
  sorted := hg.types
  found id t := by
    rw [hg.get?_stored]
    constructor
    · intro hfind
      obtain ⟨hid, ht⟩ := find?_eq_some hfind
      exact ⟨ht, hid⟩
    · rintro ⟨ht, rfl⟩
      exact hg.consistent.find?_eq ht
  namespaces := hg.namespaces_lt
  listed := hg.flatMap_types
  homes := by
    intro ns hns
    obtain ⟨name, hname, rfl⟩ := mem_namespaces.1 hns
    obtain ⟨t, ht, hhome⟩ := mem_namespaceNames.1 hname
    refine ⟨List.ne_nil_of_mem (List.mem_map_of_mem (List.mem_filter.2 ⟨ht, decide_eq_true hhome⟩)), fun id hid => ?_⟩
    obtain ⟨u, hu, rfl⟩ := List.mem_map.1 hid
    exact of_decide_eq_true (List.mem_filter.1 hu).2
  named name ns := IndexedGraph.namespace?_eq_some_iff hg.namespaces_lt
  inhabited name := by
    rw [Option.isSome_iff_exists]
    simp only [IndexedGraph.namespace?_eq_some_iff (g := g.stored) hg.namespaces_lt]
    constructor
    · rintro ⟨ns, hns, rfl⟩
      obtain ⟨name, hname, rfl⟩ := mem_namespaces.1 hns
      exact mem_namespaceNames.1 hname
    · intro hlives
      exact ⟨g.namespaceNamed name, mem_namespaces.2 ⟨name, mem_namespaceNames.2 hlives, rfl⟩, rfl⟩
  aliases := by
    intro ns hns
    obtain ⟨name, hname, rfl⟩ := mem_namespaces.1 hns
    have hhome : ∀ a ∈ (g.namespaceNamed name).aliases, a.target.namespace = name :=
      fun a ha => of_decide_eq_true (List.mem_filter.1 ha).2
    refine ⟨hhome, (hg.aliases.filter _).imp_of_mem fun ha hb horder => ?_⟩
    rwa [graphOrder_eq_compare ((hhome _ ha).trans (hhome _ hb).symm)] at horder
  targets a ha := hg.buildable.targets a (hg.flatMap_aliases ▸ ha)
  static t ht m hm := (settleInfo_eq_self_iff.1 ((settle_eq_self_iff.1 (hg.settled t ht)).1 m hm)).2

theorem Canonical.shows_stored (hg : g.Canonical) : g.stored.Shows g where
  types := rfl
  get? := hg.get?_stored
  namespaces := rfl
  named name := by
    refine Option.ext fun ns => ?_
    rw [IndexedGraph.namespace?_eq_some_iff hg.namespaces_lt, namespace?_eq_some_iff]
    rfl
  aliases := hg.flatMap_aliases

/-- Whatever passes follow, a graph that was built has in store what it has without indexes, everything in store agrees,
and adding nothing to it changes nothing. -/
theorem stored_canonical_of_made (types : List TypeSymbol) (aliases : List Alias) (passes : List Pass) :
    IndexedGraph.made types aliases passes = (made types aliases passes).map stored ∧
      ∀ g, made types aliases passes = .ok g →
        g.stored.Shows g ∧ g.stored.Canonical ∧ g.stored.extend [] [] = .ok g.stored ∧ g.extend [] [] = .ok g := by
  refine ⟨indexed_made_eq types aliases passes, fun g hmade => ?_⟩
  obtain ⟨first, hbuild, hpasses⟩ := made_eq_ok_iff.1 hmade
  have hg := (canonical_of_build hbuild).afterPasses hpasses
  refine ⟨hg.shows_stored, hg.stored, ?_, hg.extend_nil⟩
  rw [hg.extend_stored, hg.extend_nil]
  rfl

/-- Two interfaces of which neither inherits from the other, and a class with a static method that has both. -/
def lamp : List TypeSymbol := [
  (Gallery.draft "App.Lamp" .classType
    |>.implements (Gallery.app "App" "ISwitch")
    |>.implements (Gallery.app "App" "IBulb")
    |>.method "Make" [] (Gallery.app "App" "Lamp") fun info => { info with isStatic := true }).type,
  (Gallery.draft "App.ISwitch" .interface).type,
  (Gallery.draft "App.IBulb" .interface).type]

/-- Names for the types of the lamp, for the base that is made for it, and for its method. -/
def lampLedger : Ledger :=
  (Ledger.empty .default).afterRequests <|
    ["Lamp", "ISwitch", "IBulb", "Lamp_Base"].map (fun name => .of (.type ⟨"app", "App." ++ name⟩) name (.internal "App"))
      ++ [.of (.member (.of "app" "App.Lamp" "Make" "()")) "Make" (.ofSurface ⟨"app", "App.Lamp"⟩ true)]

/-- All four passes on the lamp, of which the first one adds a type and an alias. -/
theorem stored_canonical_of_lamp :
    ∃ g, made lamp [] [.interfaces 10 ⟨true⟩, .overloads, .views, .names lampLedger] = .ok g ∧
      g.types.length = 4 ∧ g.aliases.length = 1 ∧ g.stored.Canonical ∧ g.extend [] [] = .ok g := by
  have hmade : (made lamp [] [.interfaces 10 ⟨true⟩, .overloads, .views, .names lampLedger]).toOption.any
      (fun g => g.types.length = 4 && g.aliases.length = 1) = true := by
    simp only [made, afterPasses, List.foldlM_cons, List.foldlM_nil, run, build, extend, sortTypes, settle_eq,
      sortAliases, analyzeInterfaces, resolveOverloads, TypeSymbol.conflicts, TypeSymbol.buckets, TypeSymbol.candidates,
      Conflict.inBucket, Conflict.among, planViews, TypeSymbol.planViews, sortMembers,
      mergeSort_eq_sortTo]
    decide +kernel
  obtain ⟨g, hmade, hcounts⟩ := exists_of_any hmade
  obtain ⟨htypes, haliases⟩ := Bool.and_eq_true_iff.1 hcounts
  obtain ⟨-, hcanonical, -, hextend⟩ := (stored_canonical_of_made _ _ _).2 g hmade
  exact ⟨g, hmade, of_decide_eq_true htypes, of_decide_eq_true haliases, hcanonical, hextend⟩

end SymbolGraph

end Exonym
