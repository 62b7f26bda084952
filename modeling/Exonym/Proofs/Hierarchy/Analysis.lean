import Exonym.Hierarchy.Analysis
import Exonym.Proofs.Graph.Consistency
import Exonym.Proofs.Graph.Traverse

/-!
# What interface analysis does to the types of a graph

A successful analysis plans every type of the graph on its own, puts the plans into effect, and adds the base
interfaces of the diamonds. The types that come out are those that went in, with other interface lists, and the
bases.

Main statements:

* `InterfaceAnalysis.planType_eq_ok`: the plans that there may be for a type.
* `SymbolGraph.analyzeInterfaces_eq_ok_iff`: the stage in three steps.
* `SymbolGraph.mem_types_of_analyzeInterfaces`: which types come out.
* `SymbolGraph.consistent_of_analyzeInterfaces`: the graph stays consistent.
* `SymbolGraph.find?_of_analyzeInterfaces`: what a type that went in has become.
-/

namespace Exonym

namespace InterfaceAnalysis

/-- The graph with the plans for its types put into effect. -/
def reduceBy (g : SymbolGraph) (plans : List (Option InterfacePlan)) : SymbolGraph :=
  { g with types := List.zipWith afterPlan g.types plans }

/-- The diamonds among the plans. -/
def diamondsOf (plans : List (Option InterfacePlan)) : List Diamond :=
  plans.filterMap (·.bind (·.diamond))

/-- The graph with the bases and aliases of diamonds; without a diamond it is left as it is. -/
def extendBy (g : SymbolGraph) (diamonds : List Diamond) : Except GraphError SymbolGraph :=
  if diamonds.isEmpty then .ok g else g.extend (diamonds.map (·.base)) (diamonds.map (·.intersection))

@[simp] theorem afterPlan_id (t : TypeSymbol) (plan : Option InterfacePlan) : (afterPlan t plan).id = t.id := by
  cases plan <;> rfl

@[simp] theorem afterPlan_members (t : TypeSymbol) (plan : Option InterfacePlan) :
    (afterPlan t plan).members = t.members := by
  cases plan <;> rfl

@[simp] theorem afterPlan_views (t : TypeSymbol) (plan : Option InterfacePlan) :
    (afterPlan t plan).views = t.views := by
  cases plan <;> rfl

theorem settle_afterPlan (t : TypeSymbol) (plan : Option InterfacePlan) :
    SymbolGraph.settle (afterPlan t plan) = afterPlan (SymbolGraph.settle t) plan := by
  cases plan <;> rfl

/-- A type has no plan if it lists nothing or if its list cannot be reduced; otherwise it is left with the reduced
list. -/
theorem planType_eq_ok {h : Hierarchy} {settings : InterfaceSettings} {t : TypeSymbol} {plan : Option InterfacePlan}
    {said : List InterfaceNotice} (hplan : planType h settings t = .ok (plan, said)) :
    (t.interfaces = [] ∧ plan = none) ∨
      (∃ cause, h.reduce t = .error cause ∧ (∀ budget, cause ≠ .exhausted budget) ∧ plan = none ∧
        said = [.skipped t.id cause]) ∨
      ∃ r, t.interfaces ≠ [] ∧ h.reduce t = .ok r ∧ plan = some ⟨r.kept, (diamondOf h.graph settings t r).1⟩ := by
  unfold planType at hplan
  split at hplan
  · rename_i hempty
    obtain ⟨rfl, -⟩ : none = plan ∧ [] = said := by simpa using hplan
    exact .inl ⟨by simpa using hempty, rfl⟩
  · rename_i hlisted
    split at hplan
    · simp at hplan
    · rename_i cause hcause hreduce
      obtain ⟨rfl, rfl⟩ : none = plan ∧ [.skipped t.id cause] = said := by simpa using hplan
      exact .inr (.inl ⟨cause, hreduce, hcause, rfl, rfl⟩)
    · rename_i r hreduce
      simp only [Except.ok.injEq, Prod.mk.injEq] at hplan
      obtain ⟨rfl, -⟩ := hplan
      exact .inr (.inr ⟨r, by simpa using hlisted, hreduce, rfl⟩)

/-- A planned diamond is that of the type the plan is for. -/
theorem diamond_of_planType {h : Hierarchy} {settings : InterfaceSettings} {t : TypeSymbol}
    {plan : Option InterfacePlan} {said : List InterfaceNotice} (hplan : planType h settings t = .ok (plan, said))
    {d : Diamond} (hd : plan.bind (·.diamond) = some d) : ∃ kept, d = .synthesize t kept := by
  rcases planType_eq_ok hplan with ⟨-, rfl⟩ | ⟨-, -, -, rfl, -⟩ | ⟨r, -, -, rfl⟩
  · cases hd
  · cases hd
  · simp only [Option.bind_some, diamondOf] at hd
    grind

theorem forall₂_reduceBy {α : Type} {R : TypeSymbol → Option InterfacePlan × α → Prop} {g : SymbolGraph}
    {planned : List (Option InterfacePlan × α)} (h : List.Forall₂ R g.types planned) :
    List.Forall₂ (fun t u => ∃ p, R t p ∧ u = afterPlan t p.1) g.types (reduceBy g (planned.map (·.1))).types := by
  unfold reduceBy
  generalize g.types = types at h
  induction h with
  | nil => exact .nil
  | cons hp _ ih => exact .cons ⟨_, hp, rfl⟩ ih

end InterfaceAnalysis

namespace Diamond

/-- The members of a base are copies of members of the type it stands for, under the same names and signatures. -/
theorem mem_infos_synthesize {t : TypeSymbol} {kept : List TypeRef} {x : MemberKind × MemberInfo}
    (h : x ∈ (synthesize t kept).base.members.infos) :
    ∃ y ∈ t.members.infos, carries y.2 = true ∧ x.2 = rehomeInfo (baseId t.id) y.2 := by
  simp only [synthesize, baseMembers, Members.infos, List.map_nil, List.append_nil, List.mem_append, List.mem_map,
    List.mem_filter, List.map_append, exists_exists_and_eq_and] at h
  obtain ((⟨a, ⟨ha, hc⟩, rfl⟩ | ⟨a, ⟨ha, hc⟩, rfl⟩ | ⟨a, ⟨ha, hc⟩, rfl⟩) | ⟨a, ⟨ha, hc⟩, rfl⟩) := h
  · exact ⟨(.method, a.info), by simpa [Members.infos] using ⟨a, ha, rfl⟩, hc, rfl⟩
  · exact ⟨(.property, a.info), by simpa [Members.infos] using ⟨a, ha, rfl⟩, hc, rfl⟩
  · exact ⟨(.field, a.info), by simpa [Members.infos] using ⟨a, ha, rfl⟩, hc, rfl⟩
  · exact ⟨(.event, a.info), by simpa [Members.infos] using ⟨a, ha, rfl⟩, hc, rfl⟩

theorem signature_of_mem_synthesize {t : TypeSymbol} {kept : List TypeRef} {id : MemberId}
    (h : id ∈ (synthesize t kept).base.memberIds) : ∃ other ∈ t.memberIds, id.signature = other.signature := by
  obtain ⟨x, hx, rfl⟩ := List.mem_map.1 h
  obtain ⟨y, hy, -, hxy⟩ := mem_infos_synthesize hx
  exact ⟨y.2.id, List.mem_map_of_mem hy, by rw [hxy]; rfl⟩

end Diamond

namespace SymbolGraph

open InterfaceAnalysis

theorem analyzeInterfaces_eq_ok_iff {g a : SymbolGraph} {budget : Nat} {settings : InterfaceSettings}
    {notices : List InterfaceNotice} :
    g.analyzeInterfaces budget settings = .ok (a, notices) ↔
      ∃ planned, g.types.mapM (planType ⟨g, budget⟩ settings) = .ok planned ∧
        extendBy (reduceBy g (planned.map (·.1))) (diamondsOf (planned.map (·.1))) = .ok a ∧
        planned.flatMap (·.2) = notices := by
  unfold analyzeInterfaces
  cases hp : g.types.mapM (planType ⟨g, budget⟩ settings) with
  | error e => simp [Except.mapError, bind, Except.bind]
  | ok planned =>
    simp only [Except.mapError, bind, Except.bind, Except.ok.injEq, exists_eq_left']
    unfold extendBy
    by_cases hd : (diamondsOf (planned.map (·.1))).isEmpty = true
    · have hd' : ((planned.map (·.1)).filterMap (·.bind (·.diamond))).isEmpty = true := hd
      rw [if_pos hd, if_pos hd']
      simp [pure, Except.pure, reduceBy]
    · have hd' : ¬((planned.map (·.1)).filterMap (·.bind (·.diamond))).isEmpty = true := hd
      rw [if_neg hd, if_neg hd']
      unfold reduceBy diamondsOf
      cases extend _ _ _ <;> simp [pure, Except.pure]

theorem extendBy_eq_ok_iff {g a : SymbolGraph} {diamonds : List Diamond} :
    extendBy g diamonds = .ok a ↔ (diamonds = [] ∧ g = a) ∨
      (diamonds ≠ [] ∧ g.extend (diamonds.map (·.base)) (diamonds.map (·.intersection)) = .ok a) := by
  unfold extendBy
  cases diamonds <;> simp

section Analyzed

variable {g a : SymbolGraph} {budget : Nat} {settings : InterfaceSettings} {notices : List InterfaceNotice}

theorem mem_reduceBy {planned : List (Option InterfacePlan × List InterfaceNotice)}
    (h : g.types.mapM (planType ⟨g, budget⟩ settings) = .ok planned) {t : TypeSymbol} :
    t ∈ (reduceBy g (planned.map (·.1))).types ↔
      ∃ u ∈ g.types, ∃ p, planType ⟨g, budget⟩ settings u = .ok p ∧ t = afterPlan u p.1 := by
  have hall := forall₂_reduceBy (mapM_eq_ok_iff.1 h)
  constructor
  · intro ht
    exact exists_of_mem_right hall ht
  · rintro ⟨u, hu, p, hp, rfl⟩
    obtain ⟨t, ht, q, hq, rfl⟩ := exists_of_mem_left hall hu
    obtain rfl : q = p := by simpa [hq] using hp
    exact ht

theorem mem_diamondsOf {planned : List (Option InterfacePlan × List InterfaceNotice)}
    (h : g.types.mapM (planType ⟨g, budget⟩ settings) = .ok planned) {d : Diamond} :
    d ∈ diamondsOf (planned.map (·.1)) ↔
      ∃ u ∈ g.types, ∃ p, planType ⟨g, budget⟩ settings u = .ok p ∧ p.1.bind (·.diamond) = some d := by
  have hall := mapM_eq_ok_iff.1 h
  simp only [diamondsOf, List.mem_filterMap, List.mem_map, exists_exists_and_eq_and]
  constructor
  · rintro ⟨p, hp, hd⟩
    obtain ⟨u, hu, hup⟩ := exists_of_mem_right hall hp
    exact ⟨u, hu, p, hup, hd⟩
  · rintro ⟨u, hu, p, hp, hd⟩
    obtain ⟨q, hq, huq⟩ := exists_of_mem_left hall hu
    obtain rfl : q = p := by simpa [huq] using hp
    exact ⟨q, hq, hd⟩

/-- What comes out of an analysis is a type that went in, as its plan leaves it, or the base of a diamond. -/
theorem mem_types_of_analyzeInterfaces (h : g.analyzeInterfaces budget settings = .ok (a, notices))
    (hg : ∀ t ∈ g.types, settle t = t) {t : TypeSymbol} :
    t ∈ a.types ↔ ∃ u ∈ g.types, ∃ p, planType ⟨g, budget⟩ settings u = .ok p ∧
      (t = afterPlan u p.1 ∨ ∃ d, p.1.bind (·.diamond) = some d ∧ t = settle d.base) := by
  obtain ⟨planned, hplanned, ha, -⟩ := analyzeInterfaces_eq_ok_iff.1 h
  have hreduced := mem_reduceBy hplanned (t := t)
  have hdiamonds := fun d => mem_diamondsOf hplanned (d := d)
  -- without diamonds the graph is not built again; where it is, settling finds nothing to do for the types it had
  rcases extendBy_eq_ok_iff.1 ha with ⟨hnone, rfl⟩ | ⟨-, hext⟩
  · rw [hreduced]
    constructor
    · rintro ⟨u, hu, p, hp, ht⟩
      exact ⟨u, hu, p, hp, .inl ht⟩
    · rintro ⟨u, hu, p, hp, ht | ⟨d, hd, -⟩⟩
      · exact ⟨u, hu, p, hp, ht⟩
      · have := (hdiamonds d).2 ⟨u, hu, p, hp, hd⟩
        simp [hnone] at this
  · have hsettled : ∀ u ∈ g.types, ∀ p : Option InterfacePlan, settle (afterPlan u p) = afterPlan u p :=
      fun u hu p => by rw [settle_afterPlan, hg u hu]
    rw [mem_types_of_build hext]
    constructor
    · rintro ⟨s, hs, rfl⟩
      rcases List.mem_append.1 hs with hs | hs
      · obtain ⟨u, hu, p, hp, rfl⟩ := (mem_reduceBy hplanned).1 hs
        exact ⟨u, hu, p, hp, .inl (hsettled u hu p.1)⟩
      · obtain ⟨d, hd, rfl⟩ := List.mem_map.1 hs
        obtain ⟨u, hu, p, hp, hd⟩ := (hdiamonds d).1 hd
        exact ⟨u, hu, p, hp, .inr ⟨d, hd, rfl⟩⟩
    · rintro ⟨u, hu, p, hp, rfl | ⟨d, hd, rfl⟩⟩
      · exact ⟨_, List.mem_append_left _ (hreduced.2 ⟨u, hu, p, hp, rfl⟩), hsettled u hu p.1⟩
      · exact ⟨_, List.mem_append_right _ (List.mem_map_of_mem ((hdiamonds d).2 ⟨u, hu, p, hp, hd⟩)), rfl⟩

theorem consistent_of_analyzeInterfaces (h : g.analyzeInterfaces budget settings = .ok (a, notices))
    (hg : g.Consistent) : a.Consistent := by
  obtain ⟨planned, hplanned, ha, -⟩ := analyzeInterfaces_eq_ok_iff.1 h
  rcases extendBy_eq_ok_iff.1 ha with ⟨-, rfl⟩ | ⟨-, hext⟩
  · refine hg.of_forall₂ ((forall₂_reduceBy (mapM_eq_ok_iff.1 hplanned)).imp ?_)
    rintro t u ⟨p, -, rfl⟩
    exact ⟨afterPlan_id t p.1, fun ho => ho.congr (afterPlan_id t p.1) (by simp [TypeSymbol.memberIds])⟩
  · exact consistent_of_build hext

/-- A type that went in comes out under its identity as its plan leaves it. -/
theorem find?_of_analyzeInterfaces (h : g.analyzeInterfaces budget settings = .ok (a, notices)) (hg : g.Consistent)
    (hsettled : ∀ t ∈ g.types, settle t = t) {id : TypeId} {t : TypeSymbol} (ht : g.find? id = some t) :
    ∃ plan said, planType ⟨g, budget⟩ settings t = .ok (plan, said) ∧ a.find? id = some (afterPlan t plan) := by
  obtain ⟨rfl, htypes⟩ := find?_eq_some ht
  obtain ⟨planned, hplanned, -, -⟩ := analyzeInterfaces_eq_ok_iff.1 h
  obtain ⟨p, -, hp⟩ := exists_of_mem_left (mapM_eq_ok_iff.1 hplanned) htypes
  refine ⟨p.1, p.2, hp, ?_⟩
  have hmem := (mem_types_of_analyzeInterfaces h hsettled).2 ⟨t, htypes, p, hp, .inl rfl⟩
  have hfind := (consistent_of_analyzeInterfaces h hg).find?_eq hmem
  rwa [afterPlan_id] at hfind

/-- A type that comes out under a new identity is the base of a diamond. -/
theorem interfaces_of_find?_eq_none (h : g.analyzeInterfaces budget settings = .ok (a, notices)) (hg : g.Consistent)
    (hsettled : ∀ t ∈ g.types, settle t = t) {id : TypeId} {t : TypeSymbol} (hnew : g.find? id = none)
    (ht : a.find? id = some t) : t.interfaces = [] ∧ ∃ u ∈ g.types, id = Diamond.baseId u.id := by
  obtain ⟨rfl, htypes⟩ := find?_eq_some ht
  obtain ⟨u, hu, p, hp, rfl | ⟨d, hd, rfl⟩⟩ := (mem_types_of_analyzeInterfaces h hsettled).1 htypes
  · rw [afterPlan_id, hg.find?_eq hu] at hnew
    cases hnew
  · obtain ⟨kept, rfl⟩ := diamond_of_planType hp hd
    exact ⟨rfl, u, hu, rfl⟩

end Analyzed

end SymbolGraph

end Exonym
