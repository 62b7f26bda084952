import Exonym.Proofs.Graph.Canonical
import Exonym.Proofs.Naming.Plan
import Exonym.Sample.Gallery
import Mathlib.Logic.Relation

/-!
# Who is in the facade

The facade of a namespace is for the types that are exported: those that are public, and that are in public types only.
What gets a name there are the types that are public by their own declarations, wherever they are declared. Both come
to the same just in case no public type is declared in one that is not. Analyses do not change that, for the base
interfaces that they add are as public as the types that they are for, and declared in the same place.

Main statements:

* `SymbolGraph.shows_iff`: who has a name in the facade.
* `SymbolGraph.Analyzed.keepsDeclarations`: what analyses leave of where types are declared.
* `SymbolGraph.forall_exports_iff`: whether all public types are exported can be seen from pairs of types.
* `SymbolGraph.facade_iff_of_build`: when the facade is for exported types.
* `SymbolGraph.shows_unexported_of_lodge`: a type in the facade that is not exported.
-/

namespace Exonym

open Relation (ReflTransGen TransGen)

namespace Ledger

variable {l : Ledger} {id : SymbolId} {s : Scope} {d : Decision}

/-- The decisions about a symbol in a scope. -/
def decisionsAbout (l : Ledger) (id : SymbolId) (s : Scope) : List Decision :=
  (l.decisionsIn s).filter (·.id.same id)

theorem mem_decisionsAbout :
    d ∈ l.decisionsAbout id s ↔ d ∈ l.decisions ∧ d.scope = s ∧ d.id.same id = true := by
  rw [decisionsAbout, List.mem_filter, mem_decisionsIn, and_assoc]

/-- There is one decision at most about a symbol in a scope. -/
theorem Coherent.decisionsAbout_eq (hl : l.Coherent) (hd : d ∈ l.decisionsAbout id s) :
    l.decisionsAbout id s = [d] := by
  have hnone : (l.decisionsAbout id s).Pairwise fun _ _ => False := by
    refine ((hl.pairwise_scope id).sublist (List.filter_sublist.filter _)).imp_of_mem fun {a b} ha hb hne => hne ?_
    exact (mem_decisionsAbout.1 ha).2.1.trans (mem_decisionsAbout.1 hb).2.1.symm
  match h : l.decisionsAbout id s with
  | [] => simp [h] at hd
  | [e] =>
    rw [h] at hd
    rw [List.mem_singleton.1 hd]
  | e :: f :: rest =>
    rw [h] at hnone
    exact ((List.pairwise_cons.1 hnone).1 f List.mem_cons_self).elim

/-- The facade of its namespace has a name for the type. -/
def Shows (l : Ledger) (t : TypeSymbol) : Prop :=
  l.decisionsAbout (.type t.id) (.facade t.namespace) ≠ []

instance (l : Ledger) : DecidablePred l.Shows := fun t =>
  inferInstanceAs (Decidable (l.decisionsAbout (.type t.id) (.facade t.namespace) ≠ []))

end Ledger

/-- A type asks for a name among all types of its namespace, and in the facade if it is public. -/
theorem NamingStep.exists_mem_ofType_iff {t : TypeSymbol} {isInternal : Bool} :
    (∃ s ∈ ofType t, s.scope = .namespace t.namespace isInternal) ↔
      isInternal = true ∨ t.accessibility.isPublic = true := by
  cases isInternal <;> cases h : t.accessibility.isPublic <;>
    simp [ofType, h, scope, Request.of, Scope.internal, Scope.facade]

/-! ## Types in types -/

/-- The types are declared in the same place and with the same accessibility. -/
structure TypeSymbol.DeclaredAs (t u : TypeSymbol) : Prop where
  accessibility : u.accessibility = t.accessibility
  declaringType : u.declaringType = t.declaringType

theorem TypeSymbol.DeclaredAs.trans {t u v : TypeSymbol} (htu : t.DeclaredAs u) (huv : u.DeclaredAs v) :
    t.DeclaredAs v :=
  ⟨huv.accessibility.trans htu.accessibility, huv.declaringType.trans htu.declaringType⟩

namespace SymbolGraph

variable {g a b : SymbolGraph} {t u : TypeSymbol}

/-- A type is declared in another one of the graph. -/
def DeclaredIn (g : SymbolGraph) (t u : TypeSymbol) : Prop :=
  u ∈ g.types ∧ t.declaringType = some u.id

/-- A type is exported if it is public, and so is every type that it is declared in, at whatever depth. -/
def Exports (g : SymbolGraph) (t : TypeSymbol) : Prop :=
  ∀ u, ReflTransGen g.DeclaredIn t u → u.accessibility.isPublic = true

/-- No public type is declared in one that is not public. -/
def NestsPublicly (g : SymbolGraph) : Prop :=
  ∀ t ∈ g.types, t.accessibility.isPublic = true → ∀ u ∈ g.types, t.declaringType = some u.id →
    u.accessibility.isPublic = true

instance (g : SymbolGraph) : Decidable g.NestsPublicly :=
  inferInstanceAs (Decidable (∀ t ∈ g.types, _))

theorem Exports.isPublic (h : g.Exports t) : t.accessibility.isPublic = true :=
  h t .refl

/-- A type is exported if it is public and what it is declared in is exported. -/
theorem exports_iff :
    g.Exports t ↔ t.accessibility.isPublic = true ∧ ∀ u, g.DeclaredIn t u → g.Exports u := by
  constructor
  · intro h
    exact ⟨h.isPublic, fun u htu v huv => h v (.head htu huv)⟩
  · rintro ⟨hpublic, hrest⟩ v htv
    rcases ReflTransGen.cases_head htv with rfl | ⟨u, htu, huv⟩
    · exact hpublic
    · exact hrest u htu v huv

/-- All public types are exported just in case none is declared in a type that is not public. -/
theorem forall_exports_iff :
    (∀ t ∈ g.types, t.accessibility.isPublic = true → g.Exports t) ↔ g.NestsPublicly := by
  constructor
  · intro h t ht hpublic u hu htu
    exact ((exports_iff.1 (h t ht hpublic)).2 u ⟨hu, htu⟩).isPublic
  · intro h t ht hpublic v htv
    -- by induction over the way outwards, on which the graph is never left
    suffices v ∈ g.types ∧ v.accessibility.isPublic = true from this.2
    induction htv with
    | refl => exact ⟨ht, hpublic⟩
    | tail _ hstep ih => exact ⟨hstep.1, h _ ih.1 ih.2 _ hstep.1 hstep.2⟩

/-- Every type of the one graph is in the other one, declared as it was, and whatever else is there is declared as one
of them. -/
structure KeepsDeclarations (g a : SymbolGraph) : Prop where
  kept : ∀ t ∈ g.types, ∃ u ∈ a.types, u.id = t.id ∧ t.DeclaredAs u
  source : ∀ u ∈ a.types, ∃ t ∈ g.types, t.DeclaredAs u

namespace KeepsDeclarations

theorem refl (g : SymbolGraph) : g.KeepsDeclarations g :=
  ⟨fun t ht => ⟨t, ht, rfl, rfl, rfl⟩, fun t ht => ⟨t, ht, rfl, rfl⟩⟩

theorem trans (hga : g.KeepsDeclarations a) (hab : a.KeepsDeclarations b) : g.KeepsDeclarations b := by
  constructor
  · intro t ht
    obtain ⟨u, hu, huid, htu⟩ := hga.kept t ht
    obtain ⟨v, hv, hvid, huv⟩ := hab.kept u hu
    exact ⟨v, hv, hvid.trans huid, htu.trans huv⟩
  · intro v hv
    obtain ⟨u, hu, huv⟩ := hab.source v hv
    obtain ⟨t, ht, htu⟩ := hga.source u hu
    exact ⟨t, ht, htu.trans huv⟩

theorem mapTypes {f : TypeSymbol → TypeSymbol} (hid : ∀ t, (f t).id = t.id)
    (hdeclared : ∀ t : TypeSymbol, t.DeclaredAs (f t)) : g.KeepsDeclarations (g.mapTypes f) := by
  constructor
  · intro t ht
    exact ⟨f t, List.mem_map_of_mem ht, hid t, hdeclared t⟩
  · intro u hu
    obtain ⟨t, ht, rfl⟩ := List.mem_map.1 hu
    exact ⟨t, ht, hdeclared t⟩

theorem planViews (a : SymbolGraph) : a.KeepsDeclarations a.planViews.1 := by
  refine mapTypes (fun t => ViewPlan.applyTo_id _ t) fun t => ?_
  rw [ViewPlan.applyTo_frame]
  exact ⟨rfl, rfl⟩

/-- A base interface is declared as the type that it is for. -/
theorem analyzeInterfaces {budget : Nat} {settings : InterfaceSettings} {notices : List InterfaceNotice}
    (h : g.analyzeInterfaces budget settings = .ok (a, notices)) (hg : g.Consistent)
    (hsettled : ∀ t ∈ g.types, settle t = t) : g.KeepsDeclarations a := by
  have hplan : ∀ (t : TypeSymbol) (plan : Option InterfacePlan), t.DeclaredAs (InterfaceAnalysis.afterPlan t plan) := by
    rintro t (_ | p) <;> exact ⟨rfl, rfl⟩
  constructor
  · intro t ht
    obtain ⟨plan, said, -, hfind⟩ := find?_of_analyzeInterfaces h hg hsettled (hg.find?_eq ht)
    obtain ⟨hid, hu⟩ := find?_eq_some hfind
    exact ⟨_, hu, hid, hplan t plan⟩
  · intro u hu
    obtain ⟨t, ht, p, hp, rfl | ⟨d, hd, rfl⟩⟩ := (mem_types_of_analyzeInterfaces h hsettled).1 hu
    · exact ⟨t, ht, hplan t p.1⟩
    · obtain ⟨kept, rfl⟩ := InterfaceAnalysis.diamond_of_planType hp hd
      exact ⟨t, ht, rfl, rfl⟩

/-- Whether public types are declared in public ones is the same for both graphs, if what types of the first one are
declared in is there. -/
theorem nestsPublicly_iff (h : g.KeepsDeclarations a) (ha : a.Consistent)
    (hdeclaring : ∀ t ∈ g.types, ∀ id, t.declaringType = some id → ∃ u ∈ g.types, u.id = id) :
    a.NestsPublicly ↔ g.NestsPublicly := by
  constructor
  · intro hnests t ht hpublic u hu htu
    obtain ⟨t', ht', -, htt'⟩ := h.kept t ht
    obtain ⟨u', hu', huid, huu'⟩ := h.kept u hu
    rw [← huu'.accessibility]
    refine hnests t' ht' (htt'.accessibility ▸ hpublic) u' hu' ?_
    rw [htt'.declaringType, htu, huid]
  · intro hnests t' ht' hpublic u' hu' htu
    obtain ⟨t, ht, htt'⟩ := h.source t' ht'
    obtain ⟨u, hu, huid⟩ := hdeclaring t ht u'.id (htt'.declaringType ▸ htu)
    obtain ⟨v, hv, hvid, huv⟩ := h.kept u hu
    obtain rfl := ha.eq_of_id hv hu' (hvid.trans huid)
    rw [huv.accessibility]
    refine hnests t ht (htt'.accessibility ▸ hpublic) u hu ?_
    rw [← htt'.declaringType, htu, huid]

end KeepsDeclarations

theorem Analyzed.keepsDeclarations (h : g.Analyzed a) (hg : g.Consistent) (hsettled : ∀ t ∈ g.types, settle t = t) :
    g.KeepsDeclarations a := by
  induction h with
  | refl => exact .refl g
  | interfaces h hanalyzed ih => exact ih.trans (.analyzeInterfaces hanalyzed (h.consistent hg) (h.settled hg hsettled))
  | overloads _ ih => exact ih.trans (.mapTypes (fun _ => rfl) fun _ => ⟨rfl, rfl⟩)

/-! ## Names of types -/

variable {settings : NameSettings}

/-- When names were found for everything, a type has one in its namespace, and one in the facade if it is public. -/
theorem decisionsAbout_type_ne_nil_iff (hg : g.Consistent) (hrun : (g.reserveNames (.empty settings)).failure = none)
    (ht : t ∈ g.types) (isInternal : Bool) :
    (g.reserveNames (.empty settings)).ledger.decisionsAbout (.type t.id) (.namespace t.namespace isInternal) ≠ [] ↔
      isInternal = true ∨ t.accessibility.isPublic = true := by
  rw [← NamingStep.exists_mem_ofType_iff]
  constructor
  · intro hne
    obtain ⟨d, hd⟩ := List.exists_mem_of_ne_nil _ hne
    obtain ⟨hd, hdscope, hid⟩ := Ledger.mem_decisionsAbout.1 hd
    obtain ⟨s, hs, hsubject, hsscope, -⟩ := NamingRun.origin_of_run hd
    have hscope : s.scope = .namespace t.namespace isInternal := hsscope.symm.trans hdscope
    obtain ⟨u, hu, hmem⟩ := NamingStep.exists_mem_ofType hs hscope
    rw [hsubject, (NamingStep.of_mem_ofType hmem).1, SymbolId.same_type, decide_eq_true_eq] at hid
    obtain rfl := hg.eq_of_id hu ht hid
    exact ⟨s, hmem, hscope⟩
  · rintro ⟨s, hs, hscope⟩
    obtain ⟨d, hd, hdscope, hid⟩ := NamingRun.decided_of_run hrun s (NamingStep.mem_plan_iff.2 (.type ht hs))
    rw [(NamingStep.of_mem_ofType hs).1] at hid
    exact List.ne_nil_of_mem (Ledger.mem_decisionsAbout.2 ⟨hd, hdscope.trans hscope, hid⟩)

theorem shows_iff (hg : g.Consistent) (hrun : (g.reserveNames (.empty settings)).failure = none) (ht : t ∈ g.types) :
    (g.reserveNames (.empty settings)).ledger.Shows t ↔ t.accessibility.isPublic = true :=
  (decisionsAbout_type_ne_nil_iff hg hrun ht false).trans (by simp)

theorem exists_decisionsAbout_eq (hg : g.Consistent) (hrun : (g.reserveNames (.empty settings)).failure = none)
    (ht : t ∈ g.types) : ∃ d,
      (g.reserveNames (.empty settings)).ledger.decisionsAbout (.type t.id) (.internal t.namespace) = [d] := by
  have hne := (decisionsAbout_type_ne_nil_iff hg hrun ht true).2 (.inl rfl)
  obtain ⟨d, hd⟩ := List.exists_mem_of_ne_nil _ hne
  exact ⟨d, (coherent_reserveNames g settings).decisionsAbout_eq hd⟩

/-- When names were found for everything, a type has one name among all types of its namespace, and one in the facade
just in case it is public itself. The facade is for exported types just in case no public type was declared in one that
is not public. -/
theorem facade_iff_of_build {types : List TypeSymbol} {aliases : List Alias} (hbuild : build types aliases = .ok g)
    (ha : g.Analyzed a) (hrun : (a.planViews.1.reserveNames (.empty settings)).failure = none) :
    (∀ t ∈ a.planViews.1.types, (∃ d, (a.planViews.1.reserveNames (.empty settings)).ledger.decisionsAbout (.type t.id)
        (.internal t.namespace) = [d]) ∧
        ((a.planViews.1.reserveNames (.empty settings)).ledger.Shows t ↔ t.accessibility.isPublic = true)) ∧
      ((∀ t ∈ a.planViews.1.types, (a.planViews.1.reserveNames (.empty settings)).ledger.Shows t ↔
        a.planViews.1.Exports t) ↔ g.NestsPublicly) := by
  have hg := canonical_of_build hbuild
  have hconsistent := (ha.consistent (consistent_of_build hbuild)).planViews
  have hshows := fun t ht => shows_iff (t := t) hconsistent hrun ht
  have hkeeps := (ha.keepsDeclarations (consistent_of_build hbuild) (settle_of_mem_build hbuild)).trans (.planViews a)
  refine ⟨fun t ht => ⟨exists_decisionsAbout_eq hconsistent hrun ht, hshows t ht⟩, ?_⟩
  rw [← hkeeps.nestsPublicly_iff hconsistent hg.buildable.declaring, ← forall_exports_iff]
  refine forall₂_congr fun t ht => ?_
  rw [hshows t ht]
  exact ⟨fun h => h.1, fun h => ⟨h, Exports.isPublic⟩⟩

/-- A public class with a public one in it, which has two interfaces, and one that is not public. -/
def manor : List TypeSymbol := [
  (Gallery.draft "App.Manor" .classType).type,
  { (Gallery.draft "App.Manor+Cellar" .classType |>.withAccessibility .internal).type with
    declaringType := some ⟨"app", "App.Manor"⟩ },
  { (Gallery.draft "App.Manor+Hall" .classType
      |>.implements (Gallery.system "IDisposable")
      |>.implements (Gallery.system "IFormattable")).type with
    declaringType := some ⟨"app", "App.Manor"⟩ }]

/-- The hall and its base interface are in the facade, the cellar is not. -/
theorem facade_iff_of_manor :
    ∃ g a notices, build manor [] = .ok g ∧ g.analyzeInterfaces 10 ⟨true⟩ = .ok (a, notices) ∧
      (a.planViews.1.reserveNames (.empty .default)).failure = none ∧
      (∀ t ∈ a.planViews.1.types,
        (a.planViews.1.reserveNames (.empty .default)).ledger.Shows t ↔ a.planViews.1.Exports t) ∧
      (a.planViews.1.types.filter fun t => (a.planViews.1.reserveNames (.empty .default)).ledger.Shows t).map
        (·.id.fullName) = ["App.Manor", "App.Manor+Hall", "App.Manor+Hall_Base"] := by
  have hrun : (build manor []).toOption.any (fun g => decide g.NestsPublicly &&
      (g.analyzeInterfaces 10 ⟨true⟩).toOption.any fun p =>
        (p.1.planViews.1.reserveNames (.empty .default)).failure.isNone &&
          decide ((p.1.planViews.1.types.filter fun t =>
            (p.1.planViews.1.reserveNames (.empty .default)).ledger.Shows t).map (·.id.fullName) =
              ["App.Manor", "App.Manor+Hall", "App.Manor+Hall_Base"])) = true := by
    simp only [build, sortTypes, settle_eq, sortAliases, analyzeInterfaces, extend, planViews, TypeSymbol.planViews,
      sortMembers, reserveNames, NamingStep.plan, NamingStep.ofMembers, NamingStep.surfaceMembers,
      mergeSort_eq_sortTo]
    decide +kernel
  obtain ⟨g, hbuild, hrun⟩ := exists_of_any hrun
  obtain ⟨hnests, hrun⟩ := Bool.and_eq_true_iff.1 hrun
  obtain ⟨⟨a, notices⟩, hanalyzed, hrun⟩ := exists_of_any hrun
  obtain ⟨hnone, hshown⟩ := Bool.and_eq_true_iff.1 hrun
  have hnone := Option.isNone_iff_eq_none.1 hnone
  exact ⟨g, a, notices, hbuild, hanalyzed, hnone,
    (facade_iff_of_build hbuild (.interfaces .refl hanalyzed) hnone).2.2 (of_decide_eq_true hnests),
    of_decide_eq_true hshown⟩

/-- A class that is not public, with a public one in it. -/
def lodge : List TypeSymbol := [
  (Gallery.draft "App.Lodge" .classType |>.withAccessibility .internal).type,
  { (Gallery.draft "App.Lodge+Porch" .classType).type with declaringType := some ⟨"app", "App.Lodge"⟩ }]

/-- The class in the other one is in the facade, though it is not exported. No type is declared in itself, at whatever
depth. -/
theorem shows_unexported_of_lodge :
    ∃ g, build lodge [] = .ok g ∧ (g.planViews.1.reserveNames (.empty .default)).failure = none ∧
      (∀ t, ¬TransGen g.planViews.1.DeclaredIn t t) ∧ ∃ t ∈ g.planViews.1.types, t.id.fullName = "App.Lodge+Porch" ∧
        (g.planViews.1.reserveNames (.empty .default)).ledger.Shows t ∧ ¬g.planViews.1.Exports t := by
  have hrun : (build lodge []).toOption.any (fun g =>
      (g.planViews.1.reserveNames (.empty .default)).failure.isNone &&
        decide ((∀ t ∈ g.planViews.1.types, ∀ u ∈ g.planViews.1.types, t.declaringType = some u.id →
            u.declaringType = none) ∧
          ∃ t ∈ g.planViews.1.types, t.id.fullName = "App.Lodge+Porch" ∧
            (g.planViews.1.reserveNames (.empty .default)).ledger.Shows t ∧
            ∃ u ∈ g.planViews.1.types, t.declaringType = some u.id ∧ u.accessibility.isPublic = false)) = true := by
    simp only [build, sortTypes, settle_eq, sortAliases, planViews, TypeSymbol.planViews, sortMembers, reserveNames,
      NamingStep.plan, NamingStep.ofMembers, NamingStep.surfaceMembers, mergeSort_eq_sortTo]
    decide +kernel
  obtain ⟨g, hbuild, hrun⟩ := exists_of_any hrun
  obtain ⟨hnone, hrun⟩ := Bool.and_eq_true_iff.1 hrun
  obtain ⟨hflat, t, ht, hname, hshown, u, hu, htu, hpublic⟩ := of_decide_eq_true hrun
  refine ⟨g, hbuild, Option.isNone_iff_eq_none.1 hnone, fun v hv => ?_, t, ht, hname, hshown, fun hexports => ?_⟩
  · -- what `v` is declared in is declared in nothing, so there is no way back from there
    obtain ⟨x, -, hxv⟩ := TransGen.tail'_iff.1 hv
    obtain ⟨w, hvw, hwv⟩ := TransGen.head'_iff.1 hv
    have houtermost : w.declaringType = none := hflat v hxv.1 w hvw.1 hvw.2
    rcases ReflTransGen.cases_head hwv with rfl | ⟨y, hwy, -⟩
    · exact Option.some_ne_none _ (hvw.2.symm.trans houtermost)
    · exact Option.some_ne_none _ (hwy.2.symm.trans houtermost)
  · have := hexports u (.single ⟨hu, htu⟩)
    simp [hpublic] at this

end SymbolGraph

end Exonym
