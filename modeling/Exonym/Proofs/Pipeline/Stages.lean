import Exonym.Pipeline
import Exonym.Proofs.Hierarchy.Analysis
import Exonym.Proofs.Overload.Demotions
import Exonym.Proofs.View.Planned

/-!
# The stages of a run

A run is taken apart into its stages, and what the stages before naming establish is put together: a graph that
was built of plain types is consistent when its names are given, and its views are as they were planned.

Main statements:

* `SymbolGraph.planned_planViews`: planning the views of a graph, whatever analyses it went through.
* `Pipeline.analyze_eq_ok_iff`, `Pipeline.name_eq_ok_iff`, `Pipeline.run_eq_ok_iff`: successful stages.
* `Pipeline.planned_of_analyze`: the graph that names are given to.
-/

namespace Exonym

/-- A graph whose names can be given: it is consistent, its views are planned, and no declared member could be
taken for the accessor of a view. -/
structure SymbolGraph.Planned (g : SymbolGraph) : Prop where
  consistent : g.Consistent
  views : ∀ t ∈ g.types, t.ViewsPlanned
  signatures : ∀ t ∈ g.types, ∀ id ∈ t.memberIds, ¬id.HasViewSignature

/-! ## Types stay plain -/

namespace TypeSymbol

theorem Plain.congr {t u : TypeSymbol} (h : t.Plain) (hviews : u.views = t.views) (hids : u.memberIds = t.memberIds) :
    u.Plain :=
  ⟨hviews.trans h.views, hids ▸ h.signatures⟩

theorem Plain.settle {t : TypeSymbol} (h : t.Plain) : (SymbolGraph.settle t).Plain :=
  h.congr (SymbolGraph.settle_views t) (SymbolGraph.memberIds_settle t)

theorem Plain.synthesize {t : TypeSymbol} (h : t.Plain) (kept : List TypeRef) :
    (Diamond.synthesize t kept).base.Plain := by
  refine ⟨rfl, ?_⟩
  intro id hid hview
  obtain ⟨other, hother, hsignature⟩ := Diamond.signature_of_mem_synthesize hid
  refine h.signatures other hother ?_
  unfold MemberId.HasViewSignature at hview ⊢
  rwa [← hsignature]

@[simp] theorem memberIds_applyOverloads (p : OverloadPlan) (t : TypeSymbol) :
    (p.applyTo t).memberIds = t.memberIds := by
  simp [memberIds, OverloadPlan.infos_applyTo, OverloadPlan.moveInfo]

end TypeSymbol

theorem SymbolGraph.plain_of_build {types : List TypeSymbol} {aliases : List Alias} {g : SymbolGraph}
    (h : build types aliases = .ok g) (hplain : ∀ t ∈ types, t.Plain) : ∀ t ∈ g.types, t.Plain := by
  intro t ht
  obtain ⟨u, hu, rfl⟩ := (mem_types_of_build h).1 ht
  exact (hplain u hu).settle

theorem SymbolGraph.plain_of_analyzeInterfaces {g a : SymbolGraph} {budget : Nat} {settings : InterfaceSettings}
    {notices : List InterfaceNotice} (h : g.analyzeInterfaces budget settings = .ok (a, notices))
    (hg : ∀ t ∈ g.types, settle t = t) (hplain : ∀ t ∈ g.types, t.Plain) : ∀ t ∈ a.types, t.Plain := by
  intro t ht
  obtain ⟨u, hu, p, hp, rfl | ⟨d, hd, rfl⟩⟩ := (mem_types_of_analyzeInterfaces h hg).1 ht
  · exact (hplain u hu).congr (InterfaceAnalysis.afterPlan_views u p.1) (by simp [TypeSymbol.memberIds])
  · obtain ⟨kept, rfl⟩ := InterfaceAnalysis.diamond_of_planType hp hd
    exact ((hplain u hu).synthesize kept).settle

/-- The types that come out of interface analysis are settled if those that went in are. -/
theorem SymbolGraph.settle_of_analyzeInterfaces {g a : SymbolGraph} {budget : Nat} {settings : InterfaceSettings}
    {notices : List InterfaceNotice} (h : g.analyzeInterfaces budget settings = .ok (a, notices))
    (hg : ∀ t ∈ g.types, settle t = t) : ∀ t ∈ a.types, settle t = t := by
  intro t ht
  obtain ⟨u, hu, p, -, rfl | ⟨d, -, rfl⟩⟩ := (mem_types_of_analyzeInterfaces h hg).1 ht
  · rw [InterfaceAnalysis.settle_afterPlan, hg u hu]
  · exact settle_settle d.base

/-! ## Graphs after analyses -/

/-- The graphs that the analyses before view planning make of a graph, in whatever order and however often. -/
inductive SymbolGraph.Analyzed (g : SymbolGraph) : SymbolGraph → Prop
  | refl : Analyzed g g
  | interfaces {a b : SymbolGraph} {budget : Nat} {settings : InterfaceSettings} {notices : List InterfaceNotice} :
      Analyzed g a → a.analyzeInterfaces budget settings = .ok (b, notices) → Analyzed g b
  | overloads {a : SymbolGraph} : Analyzed g a → Analyzed g a.resolveOverloads.1

namespace SymbolGraph

variable {g a : SymbolGraph}

theorem Analyzed.consistent (h : g.Analyzed a) (hg : g.Consistent) : a.Consistent := by
  induction h with
  | refl => exact hg
  | interfaces _ hanalyzed ih => exact consistent_of_analyzeInterfaces hanalyzed ih
  | overloads _ ih => exact ih.mapTypes (fun _ => rfl) (fun t => TypeSymbol.memberIds_applyOverloads _ t)

theorem Analyzed.settled (h : g.Analyzed a) (hg : g.Consistent) (hsettled : ∀ t ∈ g.types, settle t = t) :
    ∀ t ∈ a.types, settle t = t := by
  induction h with
  | refl => exact hsettled
  | interfaces _ hanalyzed ih => exact settle_of_analyzeInterfaces hanalyzed ih
  | overloads h ih =>
    intro t ht
    obtain ⟨u, hu, rfl⟩ := List.mem_map.1 ht
    exact TypeSymbol.settle_applyOverloads ((h.consistent hg).members u hu) (ih u hu)

theorem Analyzed.plain (h : g.Analyzed a) (hg : g.Consistent) (hsettled : ∀ t ∈ g.types, settle t = t)
    (hplain : ∀ t ∈ g.types, t.Plain) : ∀ t ∈ a.types, t.Plain := by
  induction h with
  | refl => exact hplain
  | interfaces h hanalyzed ih => exact plain_of_analyzeInterfaces hanalyzed (h.settled hg hsettled) ih
  | overloads _ ih =>
    intro t ht
    obtain ⟨u, hu, rfl⟩ := List.mem_map.1 ht
    exact (ih u hu).congr rfl (by simp)

/-- View planning leaves it a consistent graph. -/
theorem Consistent.planViews (ha : a.Consistent) : a.planViews.1.Consistent :=
  ha.mapTypes (fun t => ViewPlan.applyTo_id _ t) fun t => TypeSymbol.memberIds_applyTo _ t

/-- Names can be given once the views of a graph of plain types are planned. -/
theorem planned_planViews (ha : a.Consistent) (hplain : ∀ t ∈ a.types, t.Plain) : a.planViews.1.Planned := by
  refine ⟨ha.planViews, ?_, ?_⟩
  · intro t ht
    obtain ⟨u, hu, rfl⟩ := List.mem_map.1 ht
    exact TypeSymbol.viewsPlanned_applyTo (hplain u hu)
  · intro t ht
    obtain ⟨u, hu, rfl⟩ := List.mem_map.1 ht
    rw [TypeSymbol.memberIds_applyTo]
    exact (hplain u hu).signatures

end SymbolGraph

/-! ## Taking a run apart -/

namespace Pipeline

variable {budget : Nat} {settings : Settings} {g planned : SymbolGraph} {said : List Diagnostic} {named : Named}

theorem analyze_eq_ok_iff :
    analyze budget settings g = .ok (planned, said) ↔
      ∃ a notices, g.analyzeInterfaces budget settings.interfaces = .ok (a, notices) ∧
        a.resolveOverloads.1.planViews.1 = planned ∧
        notices.map (·.diagnostic) ++ a.resolveOverloads.2.map (·.diagnostic) ++
          a.resolveOverloads.1.planViews.2.map (·.diagnostic) = said := by
  unfold analyze
  cases h : g.analyzeInterfaces budget settings.interfaces with
  | error e => simp [Except.mapError, bind, Except.bind]
  | ok analyzed => simp [Except.mapError, bind, Except.bind, pure, Except.pure, Prod.ext_iff]

theorem name_eq_ok_iff :
    name settings planned said = .ok named ↔
      (planned.reserveNames (.empty settings.naming)).failure = none ∧
        ∃ stamped, planned.stampNames (planned.reserveNames (.empty settings.naming)).ledger = .ok stamped ∧
          named = ⟨stamped, (planned.reserveNames (.empty settings.naming)).ledger,
            said ++ (planned.reserveNames (.empty settings.naming)).notices.map (·.diagnostic)⟩ := by
  unfold name
  obtain ⟨ledger, notices, failure⟩ := planned.reserveNames (.empty settings.naming)
  cases failure with
  | some cause => simp [throw, throwThe, MonadExceptOf.throw, bind, Except.bind]
  | none => cases hs : planned.stampNames ledger <;>
      simp [hs, Except.mapError, bind, Except.bind, pure, Except.pure, eq_comm]

/-- The stages before the gate fail with errors of their own. -/
theorem analyze_ne_rejected (violations : List Violation) : analyze budget settings g ≠ .error (.rejected violations) := by
  unfold analyze
  cases g.analyzeInterfaces budget settings.interfaces <;>
    simp [Except.mapError, bind, Except.bind, pure, Except.pure]

theorem name_ne_rejected (violations : List Violation) : name settings planned said ≠ .error (.rejected violations) := by
  unfold name
  obtain ⟨ledger, notices, failure⟩ := planned.reserveNames (.empty settings.naming)
  cases failure with
  | some cause => simp [throw, throwThe, MonadExceptOf.throw, bind, Except.bind]
  | none => cases hs : planned.stampNames ledger <;>
      simp [hs, Except.mapError, bind, Except.bind, pure, Except.pure]

/-- Past the stages that give names only the gate is left. -/
theorem run_of_named (ha : analyze budget settings g = .ok (planned, said))
    (hn : name settings planned said = .ok named) :
    run budget settings g = match named.graph.violations named.ledger with
      | [] => .ok named
      | violations => .error (.rejected violations) := by
  unfold run
  rw [ha]
  change (name settings planned said >>= _) = _
  rw [hn]
  rfl

theorem run_eq_ok_iff :
    run budget settings g = .ok named ↔ ∃ planned said, analyze budget settings g = .ok (planned, said) ∧
      name settings planned said = .ok named ∧ named.graph.violations named.ledger = [] := by
  constructor
  · intro h
    have hstages := h
    unfold run at hstages
    obtain ⟨⟨planned, said⟩, ha, hstages⟩ := bind_eq_ok hstages
    obtain ⟨n, hn, -⟩ := bind_eq_ok hstages
    rw [run_of_named ha hn] at h
    split at h
    · rename_i hv
      obtain rfl : n = named := by simpa using h
      exact ⟨planned, said, ha, hn, hv⟩
    · simp at h
  · rintro ⟨planned, said, ha, hn, hv⟩
    rw [run_of_named ha hn, hv]

/-- A run is rejected exactly when names were given to everything and the gate finds fault with them. -/
theorem run_eq_rejected_iff {violations : List Violation} :
    run budget settings g = .error (.rejected violations) ↔
      ∃ planned said named, analyze budget settings g = .ok (planned, said) ∧
        name settings planned said = .ok named ∧ named.graph.violations named.ledger = violations ∧
        violations ≠ [] := by
  constructor
  · intro h
    cases ha : analyze budget settings g with
    | error e =>
      have : e = .rejected violations := by simpa [run, ha, bind, Except.bind] using h
      exact absurd (this ▸ ha) (analyze_ne_rejected violations)
    | ok stage =>
      obtain ⟨planned, said⟩ := stage
      cases hn : name settings planned said with
      | error e =>
        have : e = .rejected violations := by simpa [run, ha, hn, bind, Except.bind] using h
        exact absurd (this ▸ hn) (name_ne_rejected violations)
      | ok named =>
        rw [run_of_named ha hn] at h
        split at h
        · simp at h
        · rename_i hne
          obtain rfl : named.graph.violations named.ledger = violations := by simpa using h
          exact ⟨planned, said, named, rfl, hn, rfl, hne⟩
  · rintro ⟨planned, said, named, ha, hn, rfl, hne⟩
    rw [run_of_named ha hn]
    split
    · contradiction
    · rfl

/-- The analyses before view planning, as a run carries them out. -/
theorem analyzed_of_analyze (ha : analyze budget settings g = .ok (planned, said)) :
    ∃ a, g.Analyzed a ∧ planned = a.planViews.1 := by
  obtain ⟨a, notices, hanalyzed, rfl, -⟩ := analyze_eq_ok_iff.1 ha
  exact ⟨_, (SymbolGraph.Analyzed.refl.interfaces hanalyzed).overloads, rfl⟩

/-- The graph that names are given to, when it comes from plain types. -/
theorem planned_of_analyze {types : List TypeSymbol} {aliases : List Alias}
    (hbuild : SymbolGraph.build types aliases = .ok g) (hplain : ∀ t ∈ types, t.Plain)
    (ha : analyze budget settings g = .ok (planned, said)) : planned.Planned := by
  obtain ⟨a, hanalyzed, rfl⟩ := analyzed_of_analyze ha
  have hconsistent := SymbolGraph.consistent_of_build hbuild
  refine SymbolGraph.planned_planViews (hanalyzed.consistent hconsistent) ?_
  exact hanalyzed.plain hconsistent (SymbolGraph.settle_of_mem_build hbuild) (SymbolGraph.plain_of_build hbuild hplain)

end Pipeline

end Exonym
