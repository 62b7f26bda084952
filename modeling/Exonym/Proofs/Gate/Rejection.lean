import Exonym.Proofs.Gate.Passing
import Exonym.Proofs.Naming.Constructors
import Exonym.Proofs.Overload.Demotions
import Exonym.Sample.Gallery

/-!
# When the gate rejects a graph

The rule on reserved words exempts names that were asked for verbatim. The word for constructors is asked for verbatim,
but only the first constructor of a scope is given it in this way: the others take it over as the name of their group,
and to the gate that is a derived name. So the names of a graph are rejected exactly where some type has two
constructors on its surface.

Main statements:

* `Gate.reservedWords_ne_nil_iff`: when the rule on reserved words is broken.
* `Pipeline.rejected_iff_two_constructors`: when a run is rejected.
-/

namespace Exonym

/-- The constructors of a type that are named on its surface: those that are placed there and do not implement a known
interface explicitly. -/
def TypeSymbol.surfaceConstructors (t : TypeSymbol) : List Constructor :=
  t.members.constructors.filter fun c =>
    c.info.onPrimarySurface && !(c.info.isExplicit && c.info.viewInterface?.isSome)

/-- The constructors that are on a surface once all placements are settled. -/
def TypeSymbol.placedConstructors (t : TypeSymbol) : List Constructor :=
  t.members.constructors.filter (·.info.onPrimarySurface)

theorem two_le_length_of_ne {α : Type} {xs : List α} {x y : α} (hx : x ∈ xs) (hy : y ∈ xs) (hne : x ≠ y) :
    2 ≤ xs.length := by
  match xs, hx, hy with
  | [z], hx, hy => exact absurd ((List.mem_singleton.1 hx).trans (List.mem_singleton.1 hy).symm) hne
  | _ :: _ :: _, _, _ => simp

/-- The members of one kind. -/
theorem mem_infos_constructor {m : Members} {info : MemberInfo} :
    (MemberKind.constructor, info) ∈ m.infos ↔ ∃ c ∈ m.constructors, c.info = info := by
  simp [Members.infos]

/-- No two constructors are the same. -/
theorem TypeSymbol.OwnsMembers.pairwise_constructors {t : TypeSymbol} (h : t.OwnsMembers) :
    t.members.constructors.Pairwise fun c c' => c.info.id.same c'.info.id = false := by
  have hdistinct := h.distinct
  simp only [memberIds, Members.infos, List.map_append, List.pairwise_append, List.pairwise_map] at hdistinct
  exact hdistinct.2.1

/-! ## The rule on reserved words -/

section Reserved

variable {g : SymbolGraph} {settings : NameSettings} {t : TypeSymbol}

theorem SymbolGraph.constructor_of_decision {d : Decision}
    (hd : d ∈ (g.reserveNames (.empty settings)).ledger.decisions) (hc : d.IsConstructor) :
    ∃ t ∈ g.types, ∃ c ∈ t.placedConstructors, d.scope = .ofSurface t.id c.info.isStatic ∧
      d.id = .member c.info.id := by
  obtain ⟨s, hs, hid, hscope, hgroup⟩ := NamingRun.origin_of_run hd
  have hctor : s.group = some "ctor" := hgroup.symm.trans hc
  cases NamingStep.mem_plan_iff.1 hs with
  | type ht hmem => simp [(NamingStep.of_mem_ofType hmem).2.2] at hctor
  | @surface t x ht hx hp =>
    obtain ⟨kind, info⟩ := x
    rw [NamingStep.group_ofMember] at hctor
    cases kind with
    | constructor =>
      obtain ⟨c, hc, rfl⟩ := mem_infos_constructor.1 hx
      exact ⟨t, ht, c, List.mem_filter.2 ⟨hc, hp⟩, hscope, hid⟩
    | method => exact absurd (Option.some.inj hctor) (NamingStep.methodGroup_ne_ctor info)
    | property | field | event => simp [NamingStep.surfaceGroup] at hctor
  | accessor ht hv => simp [NamingStep.ofAccessor, NamingStep.group, Request.of] at hctor
  | @viewed t v id x ht hv hid hf => exact absurd hctor (NamingStep.viewGroup_ne_ctor x.1 x.2)
  | «import» hns hmem => simp [(NamingStep.of_mem_ofImports hmem).2.1] at hctor

theorem Gate.reservedWords_eq_nil_iff {l : Ledger} :
    reservedWords l = [] ↔ ∀ d ∈ l.decisions, d.source = .verbatim ∨ l.reservedWords.contains d.finalName = false := by
  simp only [reservedWords, List.map_eq_nil_iff, List.filter_eq_nil_iff, Ledger.sortedDecisions, List.mem_mergeSort]
  refine forall₂_congr fun d _ => ?_
  cases l.reservedWords.contains d.finalName <;> simp

/-- Two constructors have names in one scope only if they are of one type, and placed on its surface. -/
theorem SymbolGraph.two_constructors_of_decisions (hg : g.Consistent) {d e : Decision}
    (hd : d ∈ (g.reserveNames (.empty settings)).ledger.decisions)
    (he : e ∈ (g.reserveNames (.empty settings)).ledger.decisions) (hdc : d.IsConstructor) (hec : e.IsConstructor)
    (hscope : e.scope = d.scope) (hid : e.id.same d.id = false) : ∃ t ∈ g.types, 2 ≤ t.placedConstructors.length := by
  obtain ⟨t, ht, c, hct, hdscope, hdid⟩ := SymbolGraph.constructor_of_decision hd hdc
  obtain ⟨u, hu, c', hcu, hescope, heid⟩ := SymbolGraph.constructor_of_decision he hec
  obtain rfl := hg.eq_of_id hu ht (Scope.type.inj (hescope.symm.trans (hscope.trans hdscope))).1
  refine ⟨u, hu, two_le_length_of_ne hct hcu ?_⟩
  rintro rfl
  simp [hdid, heid] at hid

/-- Two constructors on a surface have names of their own there. -/
theorem SymbolGraph.decisions_of_two_constructors (hg : g.Planned)
    (hstatic : ∀ t ∈ g.types, ∀ c ∈ t.placedConstructors, c.info.isStatic = false)
    (hrun : (g.reserveNames (.empty settings)).failure = none) (ht : t ∈ g.types)
    (hlength : 2 ≤ t.placedConstructors.length) :
    ∃ d ∈ (g.reserveNames (.empty settings)).ledger.decisions,
      ∃ e ∈ (g.reserveNames (.empty settings)).ledger.decisions,
        d.IsConstructor ∧ e.IsConstructor ∧ d.scope = e.scope ∧ d ≠ e := by
  obtain ⟨c, c', rest, hplaced⟩ : ∃ c c' rest, t.placedConstructors = c :: c' :: rest := by
    match h : t.placedConstructors, hlength with
    | c :: c' :: rest, _ => exact ⟨c, c', rest, rfl⟩
  have hpair : t.placedConstructors.Pairwise fun c c' => c.info.id.same c'.info.id = false :=
    (hg.consistent.members t ht).pairwise_constructors.filter _
  have hsame : c.info.id.same c'.info.id = false := by
    rw [hplaced] at hpair
    exact (List.pairwise_cons.1 hpair).1 c' (by simp)
  have hmem : ∀ x ∈ t.placedConstructors, ∃ d ∈ (g.reserveNames (.empty settings)).ledger.decisions,
      d.scope = .ofSurface t.id false ∧ d.id.same (.member x.info.id) = true ∧ d.IsConstructor := by
    intro x hx
    obtain ⟨hxt, hp⟩ := List.mem_filter.1 hx
    have := SymbolGraph.decided_of_surface hg hrun ht (mem_infos_constructor.2 ⟨x, hxt, rfl⟩) hp
    rwa [hstatic t ht x hx] at this
  obtain ⟨d, hd, hdscope, hdid, hdc⟩ := hmem c (by simp [hplaced])
  obtain ⟨e, he, hescope, heid, hec⟩ := hmem c' (by simp [hplaced])
  refine ⟨d, hd, e, he, hdc, hec, hdscope.trans hescope.symm, ?_⟩
  -- one decision for both is for one symbol, but the members of a type have identities of their own
  rintro rfl
  rw [SymbolId.same_iff] at hdid heid
  have := SymbolId.same_member.symm.trans (SymbolId.same_iff.2 (hdid.symm.trans heid))
  simp [hsame] at this

/-- A constructor that has taken the word over from another one breaks the rule. -/
theorem Gate.reservedWords_ne_nil_of_automatic {l : Ledger} (hl : l.WordsKept)
    (hwords : l.settings.extraReservedWords = []) {d : Decision} (hd : d ∈ l.decisions) (hc : d.IsConstructor)
    (hsource : d.source = .automatic) : reservedWords l ≠ [] := by
  intro hnil
  have hreserved : l.reservedWords.contains "constructor" = true := by
    rw [Ledger.reservedWords, hwords]
    decide
  rcases reservedWords_eq_nil_iff.1 hnil d hd with hverbatim | hfree
  · simp [hsource] at hverbatim
  · simp [(hl.constructor d hd hc).1, hreserved] at hfree

/-- The rule on reserved words is broken exactly where two constructors of a type are named on one surface. -/
theorem Gate.reservedWords_ne_nil_iff (hg : g.Planned)
    (hstatic : ∀ t ∈ g.types, ∀ c ∈ t.placedConstructors, c.info.isStatic = false)
    (hwords : settings.extraReservedWords = []) (hoverrides : settings.overrides = .empty)
    (hrun : (g.reserveNames (.empty settings)).failure = none) :
    reservedWords (g.reserveNames (.empty settings)).ledger ≠ [] ↔
      ∃ t ∈ g.types, 2 ≤ t.placedConstructors.length := by
  have hkept := g.wordsKept_reserveNames hwords hoverrides
  have hsettings : (g.reserveNames (.empty settings)).ledger.settings = settings := NamingRun.settings_run _ _
  constructor
  · intro hne
    by_contra hnone
    refine hne (reservedWords_eq_nil_iff.2 fun d hd => ?_)
    by_cases hc : d.IsConstructor
    · rcases hkept.first d hd hc with hverbatim | ⟨e, he, hec, hscope, hid⟩
      · exact .inl hverbatim
      · exact absurd (SymbolGraph.two_constructors_of_decisions hg.consistent hd he hc hec hscope hid) hnone
    · rcases hkept.derived d hd hc with hfree | ⟨hverbatim, -, -⟩
      · exact .inr hfree
      · exact .inl hverbatim
  · rintro ⟨t, ht, hlength⟩
    obtain ⟨d, hd, e, he, hdc, hec, hscope, hne⟩ := SymbolGraph.decisions_of_two_constructors hg hstatic hrun ht hlength
    -- whichever of the two comes later has taken the word over
    rcases hkept.automatic_of_ne hd he hne hdc hec hscope with h | h
    · exact reservedWords_ne_nil_of_automatic hkept (by rw [hsettings, hwords]) hd hdc h
    · exact reservedWords_ne_nil_of_automatic hkept (by rw [hsettings, hwords]) he hec h

end Reserved

/-! ## Constructors through the stages -/

namespace TypeSymbol

theorem surfaceConstructors_congr {t u : TypeSymbol} (h : t.members.constructors = u.members.constructors) :
    t.surfaceConstructors = u.surfaceConstructors := by
  unfold surfaceConstructors
  rw [h]

/-- Static constructors are not emitted. -/
theorem isStatic_of_settled {t : TypeSymbol} (h : SymbolGraph.settle t = t) :
    ∀ c ∈ t.members.constructors, c.info.onPrimarySurface = true → c.info.isStatic = false := by
  intro c hc hp
  rw [← h] at hc
  obtain ⟨c', -, rfl⟩ := List.mem_map.1 hc
  by_cases hstatic : (c'.info.isStatic || t.flags.isStatic) = true
  · simp [SymbolGraph.settleInfo, hstatic, MemberInfo.onPrimarySurface, Placement.isPrimary] at hp
  · simp [SymbolGraph.settleInfo, hstatic]

theorem placedConstructors_applyTo_planViews (t : TypeSymbol) :
    (t.planViews.applyTo t).placedConstructors =
      (t.members.constructors.filter fun c => (t.planViews.moveInfo c.info).onPrimarySurface).map fun c =>
        { c with info := t.planViews.moveInfo c.info } := by
  unfold placedConstructors
  rw [members_applyTo_planViews]
  unfold Members.mapInfo
  rw [List.filter_map]
  rfl

theorem length_placedConstructors {t : TypeSymbol} (h : t.OwnsMembers) :
    (t.planViews.applyTo t).placedConstructors.length = t.surfaceConstructors.length := by
  rw [placedConstructors_applyTo_planViews, List.length_map]
  refine congrArg List.length (List.filter_congr fun c hc => ?_)
  have hmem : (MemberKind.constructor, c.info) ∈ t.members.infos := mem_infos_constructor.2 ⟨c, hc, rfl⟩
  -- stated on its own: the goal does not show that the member comes with a kind
  have hsurface := h.onPrimarySurface_moveInfo hmem
  exact hsurface

theorem isStatic_of_placed {t : TypeSymbol} (h : t.OwnsMembers)
    (hstatic : ∀ c ∈ t.members.constructors, c.info.onPrimarySurface = true → c.info.isStatic = false) :
    ∀ c ∈ (t.planViews.applyTo t).placedConstructors, c.info.isStatic = false := by
  intro c hc
  rw [placedConstructors_applyTo_planViews] at hc
  obtain ⟨c', hc', rfl⟩ := List.mem_map.1 hc
  obtain ⟨hmem, hp⟩ := List.mem_filter.1 hc'
  rw [h.onPrimarySurface_moveInfo (mem_infos_constructor.2 ⟨c', hmem, rfl⟩), Bool.and_eq_true] at hp
  rw [ViewPlan.moveInfo_frame]
  exact hstatic c' hmem hp.1

end TypeSymbol

namespace SymbolGraph

variable {g a : SymbolGraph} {budget : Nat} {settings : InterfaceSettings} {notices : List InterfaceNotice}

/-- Interface analysis keeps constructors, and the bases it adds have none. -/
theorem constructors_of_analyzeInterfaces (h : g.analyzeInterfaces budget settings = .ok (a, notices))
    (hg : ∀ t ∈ g.types, settle t = t) {t : TypeSymbol} (ht : t ∈ a.types) :
    t.members.constructors = [] ∨ ∃ u ∈ g.types, t.members.constructors = u.members.constructors := by
  obtain ⟨u, hu, p, hp, rfl | ⟨d, hd, rfl⟩⟩ := (mem_types_of_analyzeInterfaces h hg).1 ht
  · exact .inr ⟨u, hu, by rw [InterfaceAnalysis.afterPlan_members]⟩
  · obtain ⟨kept, rfl⟩ := InterfaceAnalysis.diamond_of_planType hp hd
    exact .inl rfl

theorem exists_of_mem_analyzeInterfaces (h : g.analyzeInterfaces budget settings = .ok (a, notices))
    (hg : ∀ t ∈ g.types, settle t = t) {u : TypeSymbol} (hu : u ∈ g.types) :
    ∃ t ∈ a.types, t.members.constructors = u.members.constructors := by
  obtain ⟨planned, hplanned, -⟩ := analyzeInterfaces_eq_ok_iff.1 h
  obtain ⟨p, -, hp⟩ := exists_of_mem_left (mapM_eq_ok_iff.1 hplanned) hu
  refine ⟨InterfaceAnalysis.afterPlan u p.1, ?_, by rw [InterfaceAnalysis.afterPlan_members]⟩
  exact (mem_types_of_analyzeInterfaces h hg).2 ⟨u, hu, p, hp, .inl rfl⟩

end SymbolGraph

namespace Pipeline

variable {types : List TypeSymbol} {aliases : List Alias} {g planned : SymbolGraph} {budget : Nat}
  {settings : Settings} {said : List Diagnostic}

/-- The analyses leave as many constructors on a surface as a graph has for it. -/
theorem placedConstructors_of_analyze (hbuild : SymbolGraph.build types aliases = .ok g)
    (ha : analyze budget settings g = .ok (planned, said)) :
    ((∃ t ∈ planned.types, 2 ≤ t.placedConstructors.length) ↔ ∃ t ∈ g.types, 2 ≤ t.surfaceConstructors.length) ∧
      ∀ t ∈ planned.types, ∀ c ∈ t.placedConstructors, c.info.isStatic = false := by
  obtain ⟨a, notices, hanalyzed, rfl, -⟩ := analyze_eq_ok_iff.1 ha
  have hsettled := SymbolGraph.settle_of_mem_build hbuild
  have hconsistent := SymbolGraph.consistent_of_analyzeInterfaces hanalyzed (SymbolGraph.consistent_of_build hbuild)
  -- what becomes of one type in the two stages after interface analysis
  have hstages : ∀ t ∈ a.types,
      let r := (OverloadPlan.ofConflicts t.conflicts).applyTo t
      r.OwnsMembers ∧ r.members.constructors = t.members.constructors := by
    intro t ht
    have ho := hconsistent.members t ht
    exact ⟨ho.congr rfl (by simp), TypeSymbol.constructors_applyOverloads ho⟩
  simp only [SymbolGraph.planViews, SymbolGraph.resolveOverloads, SymbolGraph.types_mapTypes, List.mem_map,
    exists_exists_and_eq_and, forall_exists_index, and_imp, forall_apply_eq_imp_iff₂]
  refine ⟨⟨?_, ?_⟩, ?_⟩
  · rintro ⟨t, ht, hlength⟩
    obtain ⟨ho, hctors⟩ := hstages t ht
    rw [TypeSymbol.length_placedConstructors ho, TypeSymbol.surfaceConstructors_congr hctors] at hlength
    rcases SymbolGraph.constructors_of_analyzeInterfaces hanalyzed hsettled ht with hnone | ⟨u, hu, hsame⟩
    · simp [TypeSymbol.surfaceConstructors, hnone] at hlength
    · exact ⟨u, hu, by rwa [← TypeSymbol.surfaceConstructors_congr hsame]⟩
  · rintro ⟨u, hu, hlength⟩
    obtain ⟨t, ht, hsame⟩ := SymbolGraph.exists_of_mem_analyzeInterfaces hanalyzed hsettled hu
    obtain ⟨ho, hctors⟩ := hstages t ht
    refine ⟨t, ht, ?_⟩
    rw [TypeSymbol.length_placedConstructors ho, TypeSymbol.surfaceConstructors_congr (hctors.trans hsame)]
    exact hlength
  · intro t ht
    obtain ⟨ho, hctors⟩ := hstages t ht
    refine TypeSymbol.isStatic_of_placed ho ?_
    rw [hctors]
    rcases SymbolGraph.constructors_of_analyzeInterfaces hanalyzed hsettled ht with hnone | ⟨u, hu, hsame⟩
    · simp [hnone]
    · rw [hsame]
      exact TypeSymbol.isStatic_of_settled (hsettled u hu)

/-- Without overrides and reserved words of the user's own, a run on a graph that was built of plain types is rejected
exactly when names were found for everything and a type has two constructors on its surface. -/
theorem rejected_iff_two_constructors (hbuild : SymbolGraph.build types aliases = .ok g)
    (hplain : ∀ t ∈ types, t.Plain) (hoverrides : settings.naming.overrides = .empty)
    (hwords : settings.naming.extraReservedWords = []) :
    (∃ violations, run budget settings g = .error (.rejected violations)) ↔
      (∃ planned said named, analyze budget settings g = .ok (planned, said) ∧
        name settings planned said = .ok named) ∧
      ∃ t ∈ g.types, 2 ≤ t.surfaceConstructors.length := by
  have hgate : ∀ planned said named, analyze budget settings g = .ok (planned, said) →
      name settings planned said = .ok named →
      (named.graph.violations named.ledger ≠ [] ↔ ∃ t ∈ g.types, 2 ≤ t.surfaceConstructors.length) := by
    intro planned said named ha hn
    have hplanned := planned_of_analyze hbuild hplain ha
    obtain ⟨hiff, hstatic⟩ := placedConstructors_of_analyze hbuild ha
    obtain ⟨hrun, stamped, hstamp, rfl⟩ := name_eq_ok_iff.1 hn
    rw [Gate.violations_eq_reservedWords hplanned hstamp,
      Gate.reservedWords_ne_nil_iff hplanned hstatic hwords hoverrides hrun, hiff]
  constructor
  · rintro ⟨violations, h⟩
    obtain ⟨planned, said, named, ha, hn, rfl, hne⟩ := run_eq_rejected_iff.1 h
    exact ⟨⟨planned, said, named, ha, hn⟩, (hgate planned said named ha hn).1 hne⟩
  · rintro ⟨⟨planned, said, named, ha, hn⟩, htwo⟩
    exact ⟨_, run_eq_rejected_iff.2 ⟨planned, said, named, ha, hn, rfl, (hgate planned said named ha hn).2 htwo⟩⟩

/-- A type with two constructors. -/
def twoConstructors : List TypeSymbol := [
  (Gallery.draft "App.Point" .classType
    |>.constructor []
    |>.constructor [⟨"x", Gallery.system "Int32", .byValue, false⟩]).type]

theorem plain_twoConstructors : ∀ t ∈ twoConstructors, t.Plain := by
  intro t ht
  obtain rfl := List.mem_singleton.1 ht
  exact ⟨rfl, by decide +kernel⟩

theorem build_twoConstructors : ∃ g, SymbolGraph.build twoConstructors [] = .ok g := by
  have hbuild : (SymbolGraph.build twoConstructors []).toOption.any (fun _ => true) = true := by
    simp only [SymbolGraph.build, SymbolGraph.sortTypes, SymbolGraph.settle_eq, SymbolGraph.sortAliases,
      mergeSort_eq_sortTo]
    decide +kernel
  obtain ⟨g, hg, -⟩ := exists_of_any hbuild
  exact ⟨g, hg⟩

theorem rejected_iff_of_twoConstructors :
    ∃ g, SymbolGraph.build twoConstructors [] = .ok g ∧ (∀ t ∈ twoConstructors, t.Plain) ∧
      ((∃ violations, run 10 .default g = .error (.rejected violations)) ↔
        (∃ planned said named, analyze 10 .default g = .ok (planned, said) ∧
          name .default planned said = .ok named) ∧
        ∃ t ∈ g.types, 2 ≤ t.surfaceConstructors.length) := by
  obtain ⟨g, hg⟩ := build_twoConstructors
  exact ⟨g, hg, plain_twoConstructors, rejected_iff_two_constructors hg plain_twoConstructors rfl rfl⟩

/-- What the gate found where it rejected a run. -/
def rejection? : Except PipelineError Named → Option (List Violation)
  | .error (.rejected violations) => some violations
  | _ => none

theorem rejection?_eq_some {r : Except PipelineError Named} {violations : List Violation}
    (h : rejection? r = some violations) : r = .error (.rejected violations) := by
  unfold rejection? at h
  split at h
  · rw [Option.some.inj h]
  · simp at h

/-- The second of two constructors is found fault with, though nothing about the type is out of order. -/
theorem rejected_twoConstructors :
    ∃ g violations, SymbolGraph.build twoConstructors [] = .ok g ∧ (∀ t ∈ twoConstructors, t.Plain) ∧
      run 10 .default g = .error (.rejected violations) ∧
      violations.map (fun v => (v.location.text, v.explanation)) =
        [("app:App.Point::.ctor(System.Int32)",
          "`constructor` in type:app:App.Point#instance is a reserved word")] := by
  have hrun : (SymbolGraph.build twoConstructors []).toOption.any (fun g =>
      (rejection? (run 10 .default g)).any fun violations =>
        violations.map (fun v => (v.location.text, v.explanation)) =
          [("app:App.Point::.ctor(System.Int32)",
            "`constructor` in type:app:App.Point#instance is a reserved word")]) = true := by
    simp only [SymbolGraph.build, SymbolGraph.sortTypes, SymbolGraph.settle_eq, SymbolGraph.sortAliases, run, analyze,
      SymbolGraph.resolveOverloads, TypeSymbol.conflicts, TypeSymbol.buckets, TypeSymbol.candidates,
      Conflict.inBucket, Conflict.among, SymbolGraph.planViews, TypeSymbol.planViews, sortMembers, name,
      SymbolGraph.reserveNames, NamingStep.plan, NamingStep.ofMembers, NamingStep.surfaceMembers,
      SymbolGraph.violations, Gate.uniqueness, Gate.reservedWords, Ledger.sortedDecisions, mergeSort_eq_sortTo]
    decide +kernel
  obtain ⟨g, hbuild, hrun⟩ := exists_of_any hrun
  obtain ⟨violations, hrejected, hfound⟩ := (Option.any_eq_true _ _).1 hrun
  exact ⟨g, violations, hbuild, plain_twoConstructors, rejection?_eq_some hrejected, of_decide_eq_true hfound⟩

end Pipeline

end Exonym
