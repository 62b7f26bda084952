import Exonym.Pipeline
import Exonym.Proofs.Graph.Building
import Exonym.Proofs.Naming.Stamped

/-!
# Graphs that building gives back

A graph is canonical when its types stand in strict order and are settled, its aliases are in order, and everything in
it goes together. These are the graphs that come out when their own types and aliases are built again. Building makes
such graphs, and every pass keeps them so: a pass changes types in their places, in parts of them that building does not
look at, or it builds again.

Main statements:

* `SymbolGraph.canonical_of_build`, `SymbolGraph.canonical_iff_build`: what building makes, and what it gives back.
* `SymbolGraph.Canonical.withTypes`: types may be changed as long as their outlines stay.
* `SymbolGraph.Canonical.run`, `SymbolGraph.Canonical.afterPasses`: one pass keeps a graph canonical, and so do many.
-/

namespace Exonym

/-! ## Outlines -/

/-- What building looks at, and settling does not change. -/
structure TypeSymbol.SameOutline (t u : TypeSymbol) : Prop where
  id : u.id = t.id
  members : u.memberIds = t.memberIds
  declaring : u.declaringType = t.declaringType
  nested : u.nestedTypes.Perm t.nestedTypes

theorem SymbolGraph.sameOutline_settle (t : TypeSymbol) : t.SameOutline (settle t) :=
  ⟨settle_id t, memberIds_settle t, rfl, List.mergeSort_perm t.nestedTypes _⟩

theorem ids_of_sameOutline {types types' : List TypeSymbol} (h : List.Forall₂ TypeSymbol.SameOutline types types') :
    types'.map (·.id) = types.map (·.id) :=
  (map_eq_of_forall₂ h fun _ _ ht => ht.id.symm).symm

/-- Types of the same outlines go together as well as those they are made from. -/
theorem Buildable.of_sameOutline {types types' : List TypeSymbol} {aliases : List Alias} (hb : Buildable types aliases)
    (h : List.Forall₂ TypeSymbol.SameOutline types types') : Buildable types' aliases := by
  have hids := ids_of_sameOutline h
  have hthere : ∀ {id : TypeId}, (∃ t ∈ types, t.id = id) → ∃ u ∈ types', u.id = id := by
    intro id ht
    rw [← List.mem_map] at ht ⊢
    rwa [hids]
  refine ⟨?_, fun u hu => ?_, fun u hu id hid => ?_, fun u hu id hid => ?_, fun a ha => hthere (hb.targets a ha)⟩
  · have := List.pairwise_map.2 hb.distinct
    rw [← hids] at this
    exact List.pairwise_map.1 this
  · obtain ⟨t, ht, hsame⟩ := exists_of_mem_right h hu
    exact (hb.members t ht).congr hsame.id hsame.members
  · obtain ⟨t, ht, hsame⟩ := exists_of_mem_right h hu
    exact hthere (hb.declaring t ht id (hsame.declaring ▸ hid))
  · obtain ⟨t, ht, hsame⟩ := exists_of_mem_right h hu
    exact hthere (hb.nested t ht id (hsame.nested.mem_iff.1 hid))

namespace SymbolGraph

/-! ## The order of a graph -/

/-- The order of a graph is an order of namespaces first. -/
theorem graphOrder_eq_then (a b : TypeId) :
    TypeId.graphOrder a b = (compare a.namespace b.namespace).then (compare a b) := rfl

theorem namespace_isLE {a b : TypeId} (h : (TypeId.graphOrder a b).isLE = true) :
    (compare a.namespace b.namespace).isLE = true := by
  rw [graphOrder_eq_then] at h
  exact Ordering.isLE_left_of_isLE_then h

/-- In one namespace, the order of a graph is that of identities. -/
theorem graphOrder_eq_compare {a b : TypeId} (h : a.namespace = b.namespace) :
    TypeId.graphOrder a b = compare a b := by
  have hsame : compare a.namespace b.namespace = .eq := Std.LawfulEqCmp.compare_eq_iff_eq.2 h
  rw [graphOrder_eq_then, hsame, Ordering.eq_then]

/-! ## What building makes -/

/-- What is settled: members of a static type are static, static members are not on the class surface, and static
constructors are not emitted. -/
theorem settleInfo_eq_self_iff {allStatic : Bool} {kind : MemberKind} {info : MemberInfo} :
    settleInfo allStatic kind info = info ↔ (allStatic = true → info.isStatic = true) ∧
      (info.isStatic = true → info.placement ≠ .classSurface ∧ (kind = .constructor → info.placement = .omitted)) := by
  obtain ⟨id, name, accessibility, isStatic, placement, provenance, explicitInterface, sourceInterface, order, final⟩ :=
    info
  cases isStatic <;> cases allStatic <;> by_cases hkind : kind = .constructor <;> cases placement <;>
    simp [settleInfo, hkind]

/-- Types and aliases stand as building leaves them. -/
structure Canonical (g : SymbolGraph) : Prop where
  buildable : Buildable g.types g.aliases
  settled : ∀ t ∈ g.types, settle t = t
  types : g.types.Pairwise fun t u => TypeId.graphOrder t.id u.id = .lt
  aliases : g.aliases.Pairwise fun a b => (TypeId.graphOrder a.target b.target).isLE = true

/-- In a list of distinct types, those that do not come after others come before them. -/
theorem pairwise_lt_of_isLE {types : List TypeSymbol} (hids : types.Pairwise fun t u => t.id ≠ u.id)
    (h : types.Pairwise fun t u => (TypeId.graphOrder t.id u.id).isLE = true) :
    types.Pairwise fun t u => TypeId.graphOrder t.id u.id = .lt := by
  refine (hids.and h).imp ?_
  rintro t u ⟨hne, hle⟩
  cases horder : TypeId.graphOrder t.id u.id with
  | lt => rfl
  | eq => exact absurd (graphOrder_eq_iff.1 horder) hne
  | gt => simp [horder] at hle

theorem canonical_of_build {types : List TypeSymbol} {aliases : List Alias} {g : SymbolGraph}
    (h : build types aliases = .ok g) : g.Canonical := by
  have hsettled := settle_of_mem_build h
  obtain ⟨hfault, rfl⟩ := build_eq_ok_iff.1 h
  have hbuildable := fault?_eq_none_iff_buildable.1 hfault
  have houtline : List.Forall₂ TypeSymbol.SameOutline (sortTypes types) ((sortTypes types).map settle) := by
    rw [List.forall₂_map_right_iff, List.forall₂_same]
    exact fun t _ => sameOutline_settle t
  have hafter := hbuildable.of_sameOutline houtline
  refine ⟨⟨hafter.distinct, hafter.members, hafter.declaring, hafter.nested, fun a ha => ?_⟩, hsettled,
    pairwise_lt_of_isLE hafter.distinct ?_, pairwise_sort Alias.target aliases⟩
  · exact hafter.targets a (List.mem_mergeSort.1 ha)
  · rw [List.pairwise_map]
    exact pairwise_sort TypeSymbol.id types

/-- What is in order already is left as it is. -/
theorem Canonical.build_eq {g : SymbolGraph} (hg : g.Canonical) : build g.types g.aliases = .ok g := by
  have htypes : sortTypes g.types = g.types :=
    List.mergeSort_of_pairwise (hg.types.imp fun h => by rw [h]; rfl)
  have haliases : sortAliases g.aliases = g.aliases := List.mergeSort_of_pairwise hg.aliases
  have hsettled : g.types.map settle = g.types := by
    conv => rhs; rw [← List.map_id g.types]
    exact List.map_congr_left hg.settled
  refine build_eq_ok_iff.2 ⟨?_, ?_⟩
  · rw [htypes]
    exact fault?_eq_none_iff_buildable.2 hg.buildable
  · rw [htypes, haliases, hsettled]

/-- The canonical graphs are those that building gives back. -/
theorem canonical_iff_build {g : SymbolGraph} : g.Canonical ↔ build g.types g.aliases = .ok g :=
  ⟨Canonical.build_eq, canonical_of_build⟩

/-- Adding nothing changes nothing. -/
theorem Canonical.extend_nil {g : SymbolGraph} (hg : g.Canonical) : g.extend [] [] = .ok g := by
  unfold extend
  rw [List.append_nil, List.append_nil, hg.build_eq]

theorem Canonical.consistent {g : SymbolGraph} (hg : g.Canonical) : g.Consistent :=
  ⟨hg.buildable.distinct, hg.buildable.members⟩

/-- Types that are changed in their places, stay settled and keep their outlines make a canonical graph again. -/
theorem Canonical.withTypes {g : SymbolGraph} (hg : g.Canonical) {types : List TypeSymbol}
    (houtline : List.Forall₂ TypeSymbol.SameOutline g.types types) (hsettled : ∀ t ∈ types, settle t = t) :
    ({ g with types := types } : SymbolGraph).Canonical := by
  refine ⟨hg.buildable.of_sameOutline houtline, hsettled, ?_, hg.aliases⟩
  have horder := (List.pairwise_map (f := TypeSymbol.id) (R := fun a b => TypeId.graphOrder a b = .lt)).2 hg.types
  rw [← ids_of_sameOutline houtline, List.pairwise_map] at horder
  exact horder

theorem Canonical.mapTypes {g : SymbolGraph} (hg : g.Canonical) {f : TypeSymbol → TypeSymbol}
    (houtline : ∀ t : TypeSymbol, t.SameOutline (f t)) (hsettled : ∀ t ∈ g.types, settle (f t) = f t) :
    (g.mapTypes f).Canonical := by
  refine hg.withTypes ?_ ?_
  · rw [List.forall₂_map_right_iff, List.forall₂_same]
    exact fun t _ => houtline t
  · intro u hu
    obtain ⟨t, ht, rfl⟩ := List.mem_map.1 hu
    exact hsettled t ht

end SymbolGraph

/-! ## What passes do to one type -/

theorem InterfaceAnalysis.sameOutline_afterPlan (t : TypeSymbol) (plan : Option InterfacePlan) :
    t.SameOutline (afterPlan t plan) := by
  cases plan <;> exact ⟨rfl, rfl, rfl, List.Perm.refl _⟩

namespace TypeSymbol

theorem sameOutline_applyOverloads (p : OverloadPlan) (t : TypeSymbol) : t.SameOutline (p.applyTo t) :=
  ⟨rfl, memberIds_applyOverloads p t, rfl, List.Perm.refl _⟩

theorem sameOutline_applyViews (p : ViewPlan) (t : TypeSymbol) : t.SameOutline (p.applyTo t) :=
  ⟨ViewPlan.applyTo_id p t, memberIds_applyTo p t, by rw [ViewPlan.applyTo_frame],
    .of_eq (by rw [ViewPlan.applyTo_frame])⟩

/-- A constructor that is static is not emitted, so it is in no view; whatever else is settled stays so in a view. -/
theorem settle_applyViews {t : TypeSymbol} (ho : t.OwnsMembers) (h : SymbolGraph.settle t = t) :
    SymbolGraph.settle (t.planViews.applyTo t) = t.planViews.applyTo t := by
  obtain ⟨hmembers, hnested⟩ := SymbolGraph.settle_eq_self_iff.1 h
  have hflags : (t.planViews.applyTo t).flags = t.flags := by rw [ViewPlan.applyTo_frame]
  have hnestedTypes : (t.planViews.applyTo t).nestedTypes = t.nestedTypes := by rw [ViewPlan.applyTo_frame]
  refine SymbolGraph.settle_eq_self_iff.2 ⟨?_, by rwa [hnestedTypes]⟩
  rw [hflags, members_applyTo_planViews, Members.infos_mapInfo]
  intro y hy
  obtain ⟨x, hx, rfl⟩ := List.mem_map.1 hy
  show SymbolGraph.settleInfo t.flags.isStatic x.1 (t.planViews.moveInfo x.2) = t.planViews.moveInfo x.2
  have hsettled := hmembers x hx
  unfold ViewPlan.moveInfo
  split
  · rename_i hmoved
    obtain ⟨hconcerns, -, -⟩ := (ho.any_moved_iff hx).1 hmoved
    have hemitted : x.2.placement ≠ .omitted := by
      intro homitted
      simp [View.concerns, homitted] at hconcerns
    -- in a static type constructors are omitted, and what a view is concerned with is not
    by_cases hkind : x.1 = .constructor
    · obtain ⟨hall, hstatic⟩ := SymbolGraph.settleInfo_eq_self_iff.1 hsettled
      exact SymbolGraph.settleInfo_eq_self_iff.2 ⟨hall, fun his => absurd ((hstatic his).2 hkind) hemitted⟩
    · exact settleInfo_of_moved hsettled hkind rfl
  · exact hsettled

end TypeSymbol

namespace Stamp

variable {l : Ledger} {t after : TypeSymbol}

theorem sameOutline_of_stampType (h : stampType l t = .ok after) : t.SameOutline after := by
  refine ⟨id_of_stampType h, memberIds_of_stampType h, ?_, ?_⟩ <;>
    obtain ⟨name, members, views, -, -, -, rfl⟩ := stampType_eq_ok_iff.1 h
  · rfl
  · exact List.Perm.refl _

/-- Names have no part in settling. -/
theorem settleInfo_finalName (allStatic : Bool) (kind : MemberKind) (info : MemberInfo) (name : Option String) :
    SymbolGraph.settleInfo allStatic kind { info with finalName := name } =
      { SymbolGraph.settleInfo allStatic kind info with finalName := name } := by
  unfold SymbolGraph.settleInfo
  grind

theorem settle_of_stampType (hsettled : SymbolGraph.settle t = t) (h : stampType l t = .ok after) :
    SymbolGraph.settle after = after := by
  obtain ⟨hmembers, hnested⟩ := SymbolGraph.settle_eq_self_iff.1 hsettled
  refine SymbolGraph.settle_eq_self_iff.2 ⟨fun x hx => ?_, ?_⟩
  · obtain ⟨y, hy, hkind, hinfo⟩ := member_of_stampType h hx
    have hflags : after.flags = t.flags := by
      obtain ⟨name, members, views, -, -, -, rfl⟩ := stampType_eq_ok_iff.1 h
      rfl
    obtain ⟨name, hname⟩ := exists_finalName_of_stampInfo hinfo
    rw [hname, hflags, ← hkind, settleInfo_finalName, hmembers y hy]
  · obtain ⟨name, members, views, -, -, -, rfl⟩ := stampType_eq_ok_iff.1 h
    exact hnested

end Stamp

/-! ## Passes -/

/-- A stage that makes a graph of a graph, with what it goes by. -/
inductive Pass where
  | interfaces (budget : Nat) (settings : InterfaceSettings)
  | overloads
  | views
  | names (ledger : Ledger)

namespace SymbolGraph

variable {g after : SymbolGraph}

/-- The graph that a pass makes, without what it has to say. -/
def run (g : SymbolGraph) : Pass → Except PipelineError SymbolGraph
  | .interfaces budget settings => ((g.analyzeInterfaces budget settings).map (·.1)).mapError .interfaces
  | .overloads => .ok g.resolveOverloads.1
  | .views => .ok g.planViews.1
  | .names ledger => (g.stampNames ledger).mapError .naming

/-- The graph after passes in turn, up to the first that fails. -/
def afterPasses (g : SymbolGraph) (passes : List Pass) : Except PipelineError SymbolGraph :=
  passes.foldlM run g

theorem Canonical.reduceBy (hg : g.Canonical) {h : Hierarchy} {settings : InterfaceSettings}
    {planned : List (Option InterfacePlan × List InterfaceNotice)}
    (hplanned : g.types.mapM (InterfaceAnalysis.planType h settings) = .ok planned) :
    (InterfaceAnalysis.reduceBy g (planned.map (·.1))).Canonical := by
  have hplaces := InterfaceAnalysis.forall₂_reduceBy (mapM_eq_ok_iff.1 hplanned)
  refine hg.withTypes (hplaces.imp ?_) ?_
  · rintro t u ⟨p, -, rfl⟩
    exact InterfaceAnalysis.sameOutline_afterPlan t p.1
  · intro u hu
    obtain ⟨t, ht, p, -, rfl⟩ := exists_of_mem_right hplaces hu
    rw [InterfaceAnalysis.settle_afterPlan, hg.settled t ht]

/-- Analysis builds again where it adds something, and else only lists of interfaces are others. -/
theorem Canonical.analyzeInterfaces (hg : g.Canonical) {budget : Nat} {settings : InterfaceSettings}
    {notices : List InterfaceNotice} (h : g.analyzeInterfaces budget settings = .ok (after, notices)) :
    after.Canonical := by
  obtain ⟨planned, hplanned, hafter, -⟩ := analyzeInterfaces_eq_ok_iff.1 h
  obtain ⟨-, rfl⟩ | ⟨-, hextend⟩ := extendBy_eq_ok_iff.1 hafter
  · exact hg.reduceBy hplanned
  · exact canonical_of_build hextend

theorem Canonical.resolveOverloads (hg : g.Canonical) : g.resolveOverloads.1.Canonical :=
  hg.mapTypes (fun t => TypeSymbol.sameOutline_applyOverloads _ t)
    fun t ht => TypeSymbol.settle_applyOverloads (hg.buildable.members t ht) (hg.settled t ht)

theorem Canonical.planViews (hg : g.Canonical) : g.planViews.1.Canonical :=
  hg.mapTypes (fun t => TypeSymbol.sameOutline_applyViews _ t)
    fun t ht => TypeSymbol.settle_applyViews (hg.buildable.members t ht) (hg.settled t ht)

theorem Canonical.stampNames (hg : g.Canonical) {l : Ledger} (h : g.stampNames l = .ok after) : after.Canonical := by
  obtain ⟨types, htypes, rfl⟩ := Stamp.stampNames_eq_ok_iff.1 h
  have hplaces := mapM_eq_ok_iff.1 htypes
  refine hg.withTypes (hplaces.imp fun _ _ => Stamp.sameOutline_of_stampType) ?_
  intro u hu
  obtain ⟨t, ht, hstamp⟩ := exists_of_mem_right hplaces hu
  exact Stamp.settle_of_stampType (hg.settled t ht) hstamp

/-- One pass keeps a graph canonical. -/
theorem Canonical.run (hg : g.Canonical) {p : Pass} (h : g.run p = .ok after) : after.Canonical := by
  cases p with
  | interfaces budget settings =>
    unfold SymbolGraph.run at h
    cases ha : g.analyzeInterfaces budget settings with
    | error e => simp [ha, Except.map, Except.mapError] at h
    | ok analyzed =>
      obtain ⟨a, notices⟩ := analyzed
      obtain rfl : a = after := by simpa [ha, Except.map, Except.mapError] using h
      exact hg.analyzeInterfaces ha
  | overloads =>
    obtain rfl : g.resolveOverloads.1 = after := Except.ok.inj h
    exact hg.resolveOverloads
  | views =>
    obtain rfl : g.planViews.1 = after := Except.ok.inj h
    exact hg.planViews
  | names ledger =>
    unfold SymbolGraph.run at h
    cases hs : g.stampNames ledger with
    | error e => simp [hs, Except.mapError] at h
    | ok stamped =>
      obtain rfl : stamped = after := by simpa [hs, Except.mapError] using h
      exact hg.stampNames hs

/-- However many passes follow, in whatever order. -/
theorem Canonical.afterPasses (hg : g.Canonical) {passes : List Pass} (h : g.afterPasses passes = .ok after) :
    after.Canonical := by
  unfold SymbolGraph.afterPasses at h
  induction passes generalizing g with
  | nil =>
    obtain rfl : g = after := Except.ok.inj h
    exact hg
  | cons p rest ih =>
    rw [List.foldlM_cons] at h
    obtain ⟨next, hnext, hrest⟩ := bind_eq_ok h
    exact ih (hg.run hnext) hrest

end SymbolGraph

end Exonym
