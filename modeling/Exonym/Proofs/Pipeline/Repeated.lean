import Exonym.Proofs.Overload.Resolved
import Exonym.Proofs.Pipeline.Stages
import Exonym.Proofs.Pipeline.Unstamped
import Exonym.Proofs.View.Replanned
import Exonym.Sample.Gallery

/-!
# Running again

The graph that comes out of a run may be put through another one. Its lists are reduced and its bases are there, what
is left on surfaces is in no conflict, its views are planned, and the names on it make no difference. So the second run
does what the first did, unless it comes to reduce a list that the first could not.

Main statements:

* `SymbolGraph.unstamped_arranged`: settling conflicts and planning views does nothing the second time.
* `Pipeline.exists_name_of_unstamped`: names are given as before.
* `Pipeline.run_again_iff`: when a second run reproduces the first.
-/

namespace Exonym

namespace SymbolGraph

variable {g stamped : SymbolGraph} {l : Ledger}

@[simp] theorem headings_resolveOverloads (g : SymbolGraph) : g.resolveOverloads.1.headings = g.headings := by
  simp [headings, resolveOverloads, mapTypes, OverloadPlan.applyTo, TypeSymbol.heading, Function.comp_def]

@[simp] theorem headings_planViews (g : SymbolGraph) : g.planViews.1.headings = g.headings := by
  have happly : ∀ (p : ViewPlan) (t : TypeSymbol), (p.applyTo t).heading = t.heading := by
    intro p t
    rw [ViewPlan.applyTo_frame]
    rfl
  simp [headings, planViews, mapTypes, happly, Function.comp_def]

@[simp] theorem headings_unstamped (g : SymbolGraph) : g.unstamped.headings = g.headings := by
  simp [headings, unstamped, mapTypes, TypeSymbol.unstamped, TypeSymbol.heading, Function.comp_def]

theorem headings_of_stampNames (h : g.stampNames l = .ok stamped) : stamped.headings = g.headings := by
  rw [← headings_unstamped stamped, unstamped_of_stampNames h, headings_unstamped]

end SymbolGraph

/-! ## Members and views -/

namespace TypeSymbol

/-- The type with its conflicts settled and its views planned. -/
def arranged (t : TypeSymbol) : TypeSymbol :=
  let resolved := (OverloadPlan.ofConflicts t.conflicts).applyTo t
  resolved.planViews.applyTo resolved

variable {t u : TypeSymbol}

theorem OwnsMembers.conflicts_arranged (h : t.OwnsMembers) : t.arranged.conflicts = [] := by
  refine h.conflicts_eq_nil (listedCandidates_sublist (members_applyTo_planViews _) fun info => ?_)
  unfold ViewPlan.moveInfo
  split
  · exact ⟨.viewOnly, rfl, by simp [Placement.isPrimary]⟩
  · exact ⟨info.placement, rfl, fun hprimary => hprimary⟩

/-- A type that was arranged is left as it is when it is arranged again, whatever names are on it by then. -/
theorem OwnsMembers.unstamped_arranged (h : t.OwnsMembers) (hu : u.unstamped = t.arranged.unstamped) :
    u.arranged.unstamped = t.arranged.unstamped := by
  have hconflicts : u.conflicts = [] := by
    rw [← conflicts_unstamped, hu, conflicts_unstamped, h.conflicts_arranged]
  have hresolved : ((OverloadPlan.ofConflicts t.conflicts).applyTo t).OwnsMembers :=
    h.congr rfl (memberIds_applyOverloads _ t)
  have hplanned : t.arranged.planViews.applyTo t.arranged = t.arranged := hresolved.applyTo_planViews
  calc u.arranged.unstamped
      = (u.planViews.applyTo u).unstamped := by rw [arranged, applyOverloads_eq_self hconflicts]
    _ = (u.unstamped.planViews.applyTo u.unstamped).unstamped := by rw [unstamped_applyTo, planViews_unstamped]
    _ = (t.arranged.planViews.applyTo t.arranged).unstamped := by
        rw [hu, planViews_unstamped, ← unstamped_applyTo]
    _ = t.arranged.unstamped := by rw [hplanned]

end TypeSymbol

namespace SymbolGraph

variable {a c : SymbolGraph}

theorem planViews_resolveOverloads (a : SymbolGraph) :
    a.resolveOverloads.1.planViews.1 = a.mapTypes TypeSymbol.arranged := by
  simp only [resolveOverloads, planViews, mapTypes, List.map_map]
  rfl

theorem unstamped_arranged (ha : a.Consistent) (hc : c.unstamped = (a.mapTypes TypeSymbol.arranged).unstamped) :
    (c.mapTypes TypeSymbol.arranged).unstamped = (a.mapTypes TypeSymbol.arranged).unstamped := by
  have haliases : c.aliases = a.aliases := by simpa [unstamped] using congrArg SymbolGraph.aliases hc
  have htypes : c.types.map TypeSymbol.unstamped = a.types.map fun t => t.arranged.unstamped := by
    simpa [unstamped, Function.comp_def] using congrArg SymbolGraph.types hc
  have hagain : (c.types.map fun u => u.arranged.unstamped) = a.types.map fun t => t.arranged.unstamped := by
    refine map_eq_of_forall₂ (forall₂_imp_of_mem (map_eq_map_iff.1 htypes) ?_) fun _ _ h => h
    exact fun u _ t ht hu => (ha.members t ht).unstamped_arranged hu
  simp [unstamped, mapTypes, haliases, hagain, Function.comp_def]

end SymbolGraph

namespace Pipeline

open InterfaceAnalysis (Leaves Skipped)

variable {budget : Nat} {settings : Settings} {g planned : SymbolGraph} {said : List Diagnostic} {named : Named}

/-- Names are given as before to a graph that differs in the names that are there already. -/
theorem exists_name_of_unstamped {planned' : SymbolGraph} (hsame : planned'.unstamped = planned.unstamped)
    (hn : name settings planned said = .ok named) (said' : List Diagnostic) :
    ∃ again, name settings planned' said' = .ok again ∧ again.graph.withoutBases = named.graph.withoutBases ∧
      again.ledger = named.ledger := by
  have hplan : NamingStep.plan planned' = NamingStep.plan planned := by
    rw [← NamingStep.plan_unstamped, hsame, NamingStep.plan_unstamped]
  have hreserved : planned'.reserveNames (.empty settings.naming) = planned.reserveNames (.empty settings.naming) := by
    unfold SymbolGraph.reserveNames
    rw [hplan]
  obtain ⟨hfailure, stamped, hstamped, rfl⟩ := name_eq_ok_iff.1 hn
  -- stamping does not look at the names that are there, up to which the graphs are the same
  have hstamps : (planned'.stampNames (planned.reserveNames (.empty settings.naming)).ledger).map
      SymbolGraph.withoutBases = .ok stamped.withoutBases := by
    rw [← SymbolGraph.stampNames_unstamped, hsame, SymbolGraph.stampNames_unstamped, hstamped]
    rfl
  cases hagain : planned'.stampNames (planned.reserveNames (.empty settings.naming)).ledger with
  | error e => simp [hagain, Except.map] at hstamps
  | ok stamped' =>
    refine ⟨_, name_eq_ok_iff.2 ⟨?_, stamped', ?_, rfl⟩, ?_, ?_⟩
    · rw [hreserved, hfailure]
    · rw [hreserved, hagain]
    · simpa [hagain, Except.map] using hstamps
    · exact congrArg NamingRun.ledger hreserved

/-- A second run reproduces the first if it leaves all types of the graph as they are in interface analysis. -/
theorem exists_again_of_leaves (hg : g.Consistent) (hrun : run budget settings g = .ok named)
    (hleaves : ∀ u ∈ named.graph.types, Leaves ⟨named.graph, budget⟩ settings.interfaces u) :
    ∃ again, run budget settings named.graph = .ok again ∧
      again.graph.withoutBases = named.graph.withoutBases ∧ again.ledger = named.ledger := by
  obtain ⟨planned, said, ha, hn, hgate⟩ := run_eq_ok_iff.1 hrun
  obtain ⟨a, notices, hanalyzed, rfl, -⟩ := analyze_eq_ok_iff.1 ha
  rw [SymbolGraph.planViews_resolveOverloads] at hn
  have hconsistent := SymbolGraph.consistent_of_analyzeInterfaces hanalyzed hg
  obtain ⟨-, stamped, hstamped, hnamed⟩ := name_eq_ok_iff.1 hn
  have hgraph : named.graph.unstamped = (a.mapTypes TypeSymbol.arranged).unstamped := by
    rw [hnamed]
    exact SymbolGraph.unstamped_of_stampNames hstamped
  obtain ⟨c, notices', hagain, hkept⟩ := SymbolGraph.analyzeInterfaces_of_leaves hleaves
  -- names and bases apart, the second analysis leaves what the first one left
  have hunstamped : c.unstamped = (a.mapTypes TypeSymbol.arranged).unstamped := by
    rw [← SymbolGraph.unstamped_withoutBases, hkept, SymbolGraph.unstamped_withoutBases, hgraph]
  have harranged := SymbolGraph.unstamped_arranged hconsistent hunstamped
  obtain ⟨again, hn', hwithout, hledger⟩ := exists_name_of_unstamped harranged hn
    (notices'.map (·.diagnostic) ++ c.resolveOverloads.2.map (·.diagnostic) ++
      c.resolveOverloads.1.planViews.2.map (·.diagnostic))
  have ha' := analyze_eq_ok_iff.2 ⟨c, notices', hagain, rfl, rfl⟩
  refine ⟨again, run_eq_ok_iff.2 ⟨_, _, ha', ?_, ?_⟩, hwithout, hledger⟩
  · rwa [SymbolGraph.planViews_resolveOverloads]
  · rw [← SymbolGraph.violations_withoutBases, hwithout, SymbolGraph.violations_withoutBases, hledger, hgate]

/-- The headings on the graph of a run are those that interface analysis left. -/
theorem headings_of_run (hrun : run budget settings g = .ok named) : ∃ a notices,
    g.analyzeInterfaces budget settings.interfaces = .ok (a, notices) ∧ a.headings = named.graph.headings := by
  obtain ⟨planned, said, ha, hn, -⟩ := run_eq_ok_iff.1 hrun
  obtain ⟨a, notices, hanalyzed, rfl, -⟩ := analyze_eq_ok_iff.1 ha
  obtain ⟨-, stamped, hstamped, rfl⟩ := name_eq_ok_iff.1 hn
  refine ⟨a, notices, hanalyzed, ?_⟩
  simp [SymbolGraph.headings_of_stampNames hstamped]

/-- A run on the graph of a run gives the same graph, the notes of bases aside, and the same decisions, exactly when
interface analysis leaves the types as they are that it skipped the first time. -/
theorem run_again_iff {types : List TypeSymbol} {aliases : List Alias} (hbuild : SymbolGraph.build types aliases = .ok g)
    (hrun : run budget settings g = .ok named) :
    (∃ again, run budget settings named.graph = .ok again ∧
      again.graph.withoutBases = named.graph.withoutBases ∧ again.ledger = named.ledger) ↔
    ∀ t ∈ g.types, Skipped ⟨g, budget⟩ t → ∀ u ∈ named.graph.types, u.id = t.id →
      Leaves ⟨named.graph, budget⟩ settings.interfaces u := by
  have hg := SymbolGraph.consistent_of_build hbuild
  obtain ⟨a, notices, hanalyzed, hheadings⟩ := headings_of_run hrun
  constructor
  · rintro ⟨again, hagain, hwithout, -⟩ t - - u hu -
    obtain ⟨c, notices', hanalyzed', hheadings'⟩ := headings_of_run hagain
    refine SymbolGraph.leaves_of_headings hanalyzed' ?_ hu
    rw [hheadings', ← SymbolGraph.headings_withoutBases, hwithout, SymbolGraph.headings_withoutBases]
  · intro hskipped
    refine exists_again_of_leaves hg hrun fun u hu => ?_
    by_cases h : ∃ t ∈ g.types, t.id = u.id ∧ Skipped ⟨g, budget⟩ t
    · obtain ⟨t, ht, hid, hskip⟩ := h
      exact hskipped t ht hskip u hu hid.symm
    · have hsettled := SymbolGraph.settle_of_mem_build hbuild
      refine SymbolGraph.leaves_of_analyzeInterfaces hanalyzed hg hsettled hheadings hu ?_
      exact fun t ht hid hskip => h ⟨t, ht, hid, hskip⟩

/-- Two interfaces, a class that lists both, and one that lists an interface with an argument too many. -/
def pairAndOdd : List TypeSymbol := [
  (Gallery.draft "App.IFirst" .interface).type,
  (Gallery.draft "App.ISecond" .interface).type,
  (Gallery.draft "App.Pair" .classType
    |>.implements (Gallery.app "App" "IFirst")
    |>.implements (Gallery.app "App" "ISecond")
    |>.method "Swap" [] (Gallery.app "App" "Pair") id).type,
  (Gallery.draft "App.Odd" .classType
    |>.implements (.named ⟨"app", "App", "IFirst", 0⟩ [Gallery.app "App" "Pair"] false)).type]

/-- A base is made in the first run and none in the second, and what is skipped in the first is skipped in both. -/
theorem run_again_of_pairAndOdd :
    ∃ g named again, SymbolGraph.build pairAndOdd [] = .ok g ∧ run 10 .default g = .ok named ∧
      g.types.length = 4 ∧ named.graph.types.length = 5 ∧ (∃ t ∈ g.types, Skipped ⟨g, 10⟩ t) ∧
      run 10 .default named.graph = .ok again ∧ again.graph.withoutBases = named.graph.withoutBases ∧
      again.ledger = named.ledger := by
  have hruns : (SymbolGraph.build pairAndOdd []).toOption.any (fun g =>
      (run 10 .default g).toOption.any fun named =>
        g.types.length = 4 && named.graph.types.length = 5 &&
        (g.types.any fun t => ((⟨g, 10⟩ : Hierarchy).reduce t).toOption.isNone) &&
        named.graph.types.all fun u => Leaves ⟨named.graph, 10⟩ Settings.default.interfaces u) = true := by
    simp only [SymbolGraph.build, SymbolGraph.extend, SymbolGraph.sortTypes, SymbolGraph.settle_eq,
      SymbolGraph.sortAliases, run, analyze, SymbolGraph.analyzeInterfaces, SymbolGraph.resolveOverloads,
      TypeSymbol.conflicts, TypeSymbol.buckets, TypeSymbol.candidates, Conflict.inBucket, Conflict.among,
      SymbolGraph.planViews, TypeSymbol.planViews, sortMembers, name, SymbolGraph.reserveNames, NamingStep.plan,
      NamingStep.ofMembers, NamingStep.surfaceMembers, SymbolGraph.violations, Gate.uniqueness, Gate.reservedWords,
      Ledger.sortedDecisions, mergeSort_eq_sortTo]
    decide +kernel
  obtain ⟨g, hbuild, hruns⟩ := exists_of_any hruns
  obtain ⟨named, hrun, hruns⟩ := exists_of_any hruns
  simp only [Bool.and_eq_true, decide_eq_true_eq, List.all_eq_true, List.any_eq_true] at hruns
  obtain ⟨⟨⟨hgiven, hmade⟩, t, ht, hskip⟩, hleaves⟩ := hruns
  have hskipped : Skipped ⟨g, 10⟩ t := by
    cases hreduce : (⟨g, 10⟩ : Hierarchy).reduce t with
    | error cause => exact ⟨cause, hreduce⟩
    | ok r => simp [hreduce, Except.toOption] at hskip
  obtain ⟨again, hagain, hgraph, hledger⟩ := (run_again_iff hbuild hrun).2 fun _ _ _ u hu _ => hleaves u hu
  exact ⟨g, named, again, hbuild, hrun, hgiven, hmade, ⟨t, ht, hskipped⟩, hagain, hgraph, hledger⟩

/-- Two interfaces that list each other, one of them its own parameter too, and a class that lists both with an
argument that is not what it should be. -/
def circle : List TypeSymbol :=
  let odd := TypeRef.named ⟨"app", "App", "Key", 0⟩ [Gallery.app "App" "Key"] false
  [(Gallery.draft "App.IFirst`1" .interface |>.generic ["T"]
      |>.implements (Gallery.ofApp "ISecond" (Gallery.parameterOf "App.IFirst`1"))
      |>.implements (Gallery.parameterOf "App.IFirst`1")).type,
    (Gallery.draft "App.ISecond`1" .interface |>.generic ["T"]
      |>.implements (Gallery.ofApp "IFirst" (Gallery.parameterOf "App.ISecond`1"))).type,
    (Gallery.draft "App.Key" .classType).type,
    (Gallery.draft "App.Ring" .classType
      |>.implements (Gallery.ofApp "IFirst" odd)
      |>.implements (Gallery.ofApp "ISecond" odd)).type]

/-- The class is skipped on account of the argument, which the first interface leads to. The parameter is dropped from
the list of that interface, since the other one leads back to it. Then nothing leads to the argument any more, and the
list of the class is reduced in the second run. -/
theorem run_again_reduces_circle :
    ∃ g named again t t', SymbolGraph.build circle [] = .ok g ∧ run 10 .default g = .ok named ∧
      run 10 .default named.graph = .ok again ∧ named.graph.find? ⟨"app", "App.Ring"⟩ = some t ∧
      again.graph.find? ⟨"app", "App.Ring"⟩ = some t' ∧ t.interfaces.length = 2 ∧ t'.interfaces.length = 1 := by
  have hruns : (SymbolGraph.build circle []).toOption.any (fun g =>
      (run 10 .default g).toOption.any fun named =>
        (run 10 .default named.graph).toOption.any fun again =>
          (named.graph.find? ⟨"app", "App.Ring"⟩).any fun t =>
            (again.graph.find? ⟨"app", "App.Ring"⟩).any fun t' =>
              t.interfaces.length = 2 && t'.interfaces.length = 1) = true := by
    simp only [SymbolGraph.build, SymbolGraph.extend, SymbolGraph.sortTypes, SymbolGraph.settle_eq,
      SymbolGraph.sortAliases, run, analyze, SymbolGraph.analyzeInterfaces, SymbolGraph.resolveOverloads,
      TypeSymbol.conflicts, TypeSymbol.buckets, TypeSymbol.candidates, Conflict.inBucket, Conflict.among,
      SymbolGraph.planViews, TypeSymbol.planViews, sortMembers, name, SymbolGraph.reserveNames, NamingStep.plan,
      NamingStep.ofMembers, NamingStep.surfaceMembers, SymbolGraph.violations, Gate.uniqueness, Gate.reservedWords,
      Ledger.sortedDecisions, mergeSort_eq_sortTo]
    decide +kernel
  obtain ⟨g, hbuild, hruns⟩ := exists_of_any hruns
  obtain ⟨named, hrun, hruns⟩ := exists_of_any hruns
  obtain ⟨again, hagain, hruns⟩ := exists_of_any hruns
  obtain ⟨t, ht, hruns⟩ := (Option.any_eq_true _ _).1 hruns
  obtain ⟨t', ht', hruns⟩ := (Option.any_eq_true _ _).1 hruns
  obtain ⟨hbefore, hafter⟩ := Bool.and_eq_true_iff.1 hruns
  exact ⟨g, named, again, t, t', hbuild, hrun, hagain, ht, ht', of_decide_eq_true hbefore, of_decide_eq_true hafter⟩

end Pipeline

end Exonym
