import Exonym.Proofs.Order.Interfaces
import Exonym.Proofs.Order.Names
import Exonym.Proofs.Order.Overloads
import Exonym.Sample.Gallery

/-!
# Runs on what is listed in another order

Everything that a run does is in an order of its own, except that a view refers to its interface as the first of its
members does. So a run on types that are listed in another order gives the same names and says the same if the views
refer to their interfaces in the same way, and, for plain types, only then.

Main statements:

* `Pipeline.SameNames`: what two runs are compared by.
* `Pipeline.exists_resolved_of_listedAnew`: the stages before views are planned.
* `Pipeline.sameNames_iff_viewReferences`: runs on what is listed in another order.
-/

namespace Exonym

/-! ## Names by identity -/

namespace SymbolGraph

/-- The name stamped on a type, if the graph has the type. -/
def nameOfType? (g : SymbolGraph) (id : TypeId) : Option (Option String) :=
  (g.find? id).map (·.finalName)

/-- The name stamped on a member, if the graph has the member. -/
def nameOfMember? (g : SymbolGraph) (id : MemberId) : Option (Option String) :=
  (g.find? id.declaringTypeId).bind fun t => (t.members.find? id).map (·.2.finalName)

/-- The name stamped on the accessor for an interface, if the type has a view of it. -/
def nameOfAccessor? (g : SymbolGraph) (type interface : TypeId) : Option (Option String) :=
  (g.find? type).bind fun t => (t.views.find? (·.interfaceId = interface)).map (·.accessorName)

variable {g g' stamped : SymbolGraph} {t : TypeSymbol}

theorem Alike.nameOfType?_eq (h : g.Alike View.Alike g') (id : TypeId) : g'.nameOfType? id = g.nameOfType? id := by
  unfold nameOfType?
  rcases h.find? id with ⟨hnone, hnone'⟩ | ⟨t, t', ht, ht', halike⟩
  · rw [hnone, hnone']
  · rw [ht, ht', Option.map_some, Option.map_some, halike.agree TypeSymbol.finalName fun _ _ => rfl]

theorem Alike.nameOfMember?_eq (h : g.Alike View.Alike g') (hg : g.Consistent) (id : MemberId) :
    g'.nameOfMember? id = g.nameOfMember? id := by
  unfold nameOfMember?
  rcases h.find? id.declaringTypeId with ⟨hnone, hnone'⟩ | ⟨t, t', ht, ht', halike⟩
  · rw [hnone, hnone']
  · rw [ht, ht', Option.bind_some, Option.bind_some, halike.find?_eq (hg.members t (find?_eq_some ht).2)]

theorem Alike.nameOfAccessor?_eq (h : g.Alike View.Alike g') (type interface : TypeId) :
    g'.nameOfAccessor? type interface = g.nameOfAccessor? type interface := by
  unfold nameOfAccessor?
  rcases h.find? type with ⟨hnone, hnone'⟩ | ⟨t, t', ht, ht', halike⟩
  · rw [hnone, hnone']
  · rw [ht, ht', Option.bind_some, Option.bind_some]
    rcases find?_of_forall₂ halike.views (p := (·.interfaceId = interface)) (q := (·.interfaceId = interface))
      fun _ _ hv => by rw [hv.interfaceId] with ⟨hnone, hnone'⟩ | ⟨v, w, hv, hw, hvw⟩
    · rw [hnone, hnone']
    · rw [hv, hw, Option.map_some, Option.map_some, hvw.accessorName]

/-- The name of an accessor is that of a decision about it, which is of no group. -/
theorem exists_nameOfAccessor? {settings : NameSettings} (hg : g.Planned)
    (hrun : (g.reserveNames (.empty settings)).failure = none)
    (hstamp : g.stampNames (g.reserveNames (.empty settings)).ledger = .ok stamped) (ht : t ∈ g.types) {v : View}
    (hv : v ∈ t.views) :
    ∃ d ∈ (g.reserveNames (.empty settings)).ledger.decisions, d.scope = .ofSurface t.id false ∧
      d.id.same (.member v.accessorId) = true ∧ d.group = none ∧
      stamped.nameOfAccessor? t.id v.interfaceId = some (some d.finalName) := by
  obtain ⟨after, hafter, hst⟩ := Stamp.exists_type_of_stampNames hstamp ht
  have hfind : stamped.find? t.id = some after := by
    rw [← Stamp.id_of_stampType hst]
    exact (Stamp.consistent_of_stampNames hg.consistent hstamp).find?_eq hafter
  obtain ⟨name, members, views, -, -, hviews, heq⟩ := Stamp.stampType_eq_ok_iff.1 hst
  obtain ⟨v', hv', hstampedView⟩ := exists_of_mem_left (mapM_eq_ok_iff.1 hviews) hv
  have hv' : v' ∈ after.views := by rwa [heq]
  obtain ⟨written, -, rfl⟩ := Stamp.stampView_eq_ok_iff.1 hstampedView
  -- there is no other view of the interface
  have hview : after.views.find? (·.interfaceId = v.interfaceId) = some { v with accessorName := some written } := by
    cases hf : after.views.find? (·.interfaceId = v.interfaceId) with
    | none => simpa using List.find?_eq_none.1 hf _ hv'
    | some u' =>
      obtain ⟨u, hu, hustamp⟩ := Stamp.view_of_stampType hst (List.mem_of_find?_eq_some hf)
      have hid : u'.interfaceId = v.interfaceId := by simpa using List.find?_some hf
      obtain ⟨_, -, hu'⟩ := Stamp.stampView_eq_ok_iff.1 hustamp
      obtain rfl := (hg.views t ht).eq_of_interfaceId hu hv (by rw [← hid, hu'])
      rw [Except.ok.inj (hustamp.symm.trans hstampedView)]
  obtain ⟨w, hw, d, hd, -, hscope, hid, hgroup, hname⟩ := Stamp.accessor_name hg hrun ht hst hv'
  refine ⟨d, hd, by rw [hscope, Stamp.id_of_stampType hst], hid, hgroup, ?_⟩
  unfold nameOfAccessor?
  rw [hfind, Option.bind_some, hview, Option.map_some, hname]

end SymbolGraph

/-! ## Runs -/

/-- Two results that decide, say and stamp the same, whatever order their symbols are in. -/
structure Named.SameNames (n n' : Named) : Prop where
  decisions : n'.ledger.sortedDecisions = n.ledger.sortedDecisions
  diagnostics : n'.diagnostics = n.diagnostics
  types : ∀ id, n'.graph.nameOfType? id = n.graph.nameOfType? id
  members : ∀ id, n'.graph.nameOfMember? id = n.graph.nameOfMember? id
  accessors : ∀ type interface, n'.graph.nameOfAccessor? type interface = n.graph.nameOfAccessor? type interface

theorem Named.SameNames.mem_decisions {n n' : Named} (h : n.SameNames n') {d : Decision}
    (hd : d ∈ n'.ledger.decisions) : d ∈ n.ledger.decisions := by
  have hsorted : d ∈ n'.ledger.sortedDecisions := List.mem_mergeSort.2 hd
  rw [h.decisions] at hsorted
  exact List.mem_mergeSort.1 hsorted

/-- Types that are listed in another order are plain if they were. -/
theorem ListedAnew.plain {types types' : List TypeSymbol} (h : ListedAnew types types') (hplain : ∀ t ∈ types, t.Plain) :
    ∀ t ∈ types', t.Plain := by
  obtain ⟨between, hperm, halike⟩ := h
  intro t' ht'
  obtain ⟨t, ht, hsame⟩ := exists_of_mem_right halike ht'
  have hp := hplain t (hperm.mem_iff.2 ht)
  refine ⟨?_, fun id hid => hp.signatures id (hsame.memberIds.mem_iff.2 hid)⟩
  have hviews := hsame.views
  rw [List.forall₂_eq_eq_eq] at hviews
  rw [← hviews, hp.views]

namespace Pipeline

/-- How the views that are planned for the listed types refer to their interfaces. -/
def viewReferences (budget : Nat) (settings : Settings) (types : List TypeSymbol) :
    Except PipelineError (List (List (String × String))) := do
  let g ← (SymbolGraph.build types []).mapError .graph
  let (planned, _) ← analyze budget settings g
  return planned.viewReferences

variable {types types' : List TypeSymbol} {g planned : SymbolGraph} {budget : Nat} {settings : Settings}
  {said : List Diagnostic} {named : Named}

theorem runOnTypes_eq_ok_iff :
    runOnTypes budget settings types = .ok named ↔
      ∃ g, SymbolGraph.build types [] = .ok g ∧ run budget settings g = .ok named := by
  unfold runOnTypes
  cases SymbolGraph.build types [] <;> simp [Except.mapError, bind, Except.bind]

theorem viewReferences_eq (hbuild : SymbolGraph.build types [] = .ok g)
    (ha : analyze budget settings g = .ok (planned, said)) :
    viewReferences budget settings types = .ok planned.viewReferences := by
  unfold viewReferences
  rw [hbuild]
  change (analyze budget settings g >>= _) = _
  rw [ha]
  rfl

/-- Up to the planning of views, listing in another order makes no difference but to how members are listed. -/
theorem exists_resolved_of_listedAnew (h : ListedAnew types types') (hbuild : SymbolGraph.build types [] = .ok g)
    (ha : analyze budget settings g = .ok (planned, said)) :
    ∃ (g' resolved resolved' : SymbolGraph) (before : List Diagnostic), SymbolGraph.build types' [] = .ok g' ∧ resolved.Alike Eq resolved' ∧
      resolved.Consistent ∧ planned = resolved.planViews.1 ∧
      said = before ++ resolved.planViews.2.map (·.diagnostic) ∧
      analyze budget settings g' =
        .ok (resolved'.planViews.1, before ++ resolved'.planViews.2.map (·.diagnostic)) := by
  obtain ⟨a, notices, hanalyzed, rfl, rfl⟩ := analyze_eq_ok_iff.1 ha
  obtain ⟨g', hbuild', hg⟩ := SymbolGraph.exists_build_of_listedAnew h hbuild
  obtain ⟨a', hanalyzed', halike⟩ := SymbolGraph.exists_analyzeInterfaces_of_alike hg hanalyzed
  have hconsistent := SymbolGraph.consistent_of_analyzeInterfaces hanalyzed (SymbolGraph.consistent_of_build hbuild)
  obtain ⟨hresolved, hconflicts⟩ := halike.resolveOverloads hconsistent
  refine ⟨g', _, _, _, hbuild', hresolved, ?_, rfl, rfl, ?_⟩
  · refine hconsistent.mapTypes ?_ ?_ <;> simp
  · rw [analyze_eq_ok_iff]
    exact ⟨a', notices, hanalyzed', rfl, by rw [hconflicts]⟩

/-- Graphs that are alike get the same names. -/
theorem exists_name_of_alike {planned' : SymbolGraph} (h : planned.Alike View.Alike planned') (hg : planned.Consistent)
    (hn : name settings planned said = .ok named) (hgate : named.graph.violations named.ledger = []) :
    ∃ named', name settings planned' said = .ok named' ∧ named'.graph.violations named'.ledger = [] ∧
      named.SameNames named' := by
  obtain ⟨hrun, stamped, hstamp, rfl⟩ := name_eq_ok_iff.1 hn
  obtain ⟨stamped', hstamp', halike⟩ := h.exists_stampNames hstamp
  have hconsistent := Stamp.consistent_of_stampNames hg hstamp
  have hreserve := h.reserveNames_eq hg (.empty settings.naming)
  refine ⟨_, name_eq_ok_iff.2 ⟨?_, stamped', ?_, rfl⟩, ?_, ?_⟩
  · rwa [hreserve]
  · rwa [hreserve]
  · rw [hreserve]
    exact halike.violations_eq_nil hconsistent hgate
  · rw [hreserve]
    exact ⟨rfl, rfl, halike.nameOfType?_eq, halike.nameOfMember?_eq hconsistent, halike.nameOfAccessor?_eq⟩

/-- Accessors that have one name have it from references of one short name. -/
theorem shortName_eq_of_sameNames {planned' : SymbolGraph} {said' : List Diagnostic} {named' : Named}
    (h : planned.Alike View.Corresponds planned') (hg : planned.Planned) (hg' : planned'.Planned)
    (hn : name settings planned said = .ok named) (hn' : name settings planned' said' = .ok named')
    (hsame : named.SameNames named') :
    planned.Alike (fun v w => w.interface.shortName = v.interface.shortName) planned' := by
  obtain ⟨hrun, stamped, hstamp, rfl⟩ := name_eq_ok_iff.1 hn
  obtain ⟨hrun', stamped', hstamp', rfl⟩ := name_eq_ok_iff.1 hn'
  refine ⟨forall₂_imp_of_mem h.types ?_, h.aliases⟩
  intro t ht t' ht' halike
  refine ⟨halike.members, forall₂_imp_of_mem halike.views ?_, halike.rest⟩
  intro v hv w hw hvw
  obtain ⟨d, hd, hdscope, hdid, hdgroup, hdname⟩ := SymbolGraph.exists_nameOfAccessor? hg hrun hstamp ht hv
  obtain ⟨e, he, hescope, heid, -, hename⟩ := SymbolGraph.exists_nameOfAccessor? hg' hrun' hstamp' ht' hw
  have hnames := hsame.accessors t.id v.interfaceId
  rw [halike.id_eq, hvw.interfaceId] at hename
  have hfinal : d.finalName = e.finalName := by
    simpa using hdname.symm.trans (hnames.symm.trans hename)
  -- a name that both accessors have is the name of one symbol, for accessors are in no group
  have hids : v.accessorId.same w.accessorId = true := by
    by_contra hne
    rw [Bool.not_eq_true, ← SymbolId.same_member] at hne
    have hscope : d.scope = e.scope := by rw [hdscope, hescope, halike.id_eq]
    obtain ⟨group, hgroup, -⟩ := ((SymbolGraph.coherent_reserveNames planned settings.naming).finalName_eq_iff hd
      (hsame.mem_decisions he) hscope hdid heid hne).1 hfinal
    simp [hdgroup] at hgroup
  rw [(hg.views t ht).accessor v hv, (hg'.views t' ht').accessor w hw] at hids
  have hname := congrArg MemberId.name (MemberId.same_iff.1 hids)
  simpa [View.accessorIdFor, MemberId.of, MemberId.bare, String.append_right_inj, eq_comm] using hname

/-- If the references are the same, so are the names. -/
theorem exists_runOnTypes_of_viewReferences (h : ListedAnew types types')
    (hrun : runOnTypes budget settings types = .ok named)
    (href : viewReferences budget settings types' = viewReferences budget settings types) :
    ∃ named', runOnTypes budget settings types' = .ok named' ∧ named.SameNames named' := by
  obtain ⟨g, hbuild, hrun⟩ := runOnTypes_eq_ok_iff.1 hrun
  obtain ⟨planned, said, ha, hn, hgate⟩ := run_eq_ok_iff.1 hrun
  obtain ⟨g', resolved, resolved', before, hbuild', hresolved, hconsistent, rfl, rfl, ha'⟩ :=
    exists_resolved_of_listedAnew h hbuild ha
  rw [viewReferences_eq hbuild ha, viewReferences_eq hbuild' ha'] at href
  have hreferences := Except.ok.inj href
  have halike := SymbolGraph.alike_of_viewReferences (hresolved.planViews hconsistent) hreferences
  have hsaid := (hresolved.diagnostics_planViews_eq_iff hconsistent
    (halike.imp fun _ _ hv => hv.shortName_eq)).2 hreferences
  have hplanned : resolved.planViews.1.Consistent := by
    refine hconsistent.mapTypes ?_ ?_ <;> simp
  obtain ⟨named', hn', hgate', hsame⟩ := exists_name_of_alike halike hplanned hn hgate
  rw [← hsaid] at hn'
  exact ⟨named', runOnTypes_eq_ok_iff.2 ⟨g', hbuild', run_eq_ok_iff.2 ⟨_, _, ha', hn', hgate'⟩⟩, hsame⟩

/-- If names are the same and the same is said, so are the references: an accessor is named after one half of a
reference, and what is said about a view shows the other. -/
theorem viewReferences_eq_of_sameNames {named' : Named} (h : ListedAnew types types') (hplain : ∀ t ∈ types, t.Plain)
    (hrun : runOnTypes budget settings types = .ok named) (hrun' : runOnTypes budget settings types' = .ok named')
    (hsame : named.SameNames named') :
    viewReferences budget settings types' = viewReferences budget settings types := by
  obtain ⟨g, hbuild, hrun⟩ := runOnTypes_eq_ok_iff.1 hrun
  obtain ⟨planned, said, ha, hn, -⟩ := run_eq_ok_iff.1 hrun
  obtain ⟨g', resolved, resolved', before, hbuild', hresolved, hconsistent, rfl, rfl, ha'⟩ :=
    exists_resolved_of_listedAnew h hbuild ha
  obtain ⟨g'', hbuild'', hrun'⟩ := runOnTypes_eq_ok_iff.1 hrun'
  obtain rfl := Except.ok.inj (hbuild'.symm.trans hbuild'')
  obtain ⟨planned', said', ha'', hn', -⟩ := run_eq_ok_iff.1 hrun'
  obtain ⟨rfl, rfl⟩ := Prod.mk.inj (Except.ok.inj (ha'.symm.trans ha''))
  have hshort := shortName_eq_of_sameNames (hresolved.planViews hconsistent) (planned_of_analyze hbuild hplain ha)
    (planned_of_analyze hbuild' (h.plain hplain) ha') hn hn' hsame
  -- the same is said before, and as much about the views
  have hsaid : resolved'.planViews.2.map (·.diagnostic) = resolved.planViews.2.map (·.diagnostic) := by
    have hdiagnostics := hsame.diagnostics
    obtain ⟨-, stamped, -, rfl⟩ := name_eq_ok_iff.1 hn
    obtain ⟨-, stamped', -, rfl⟩ := name_eq_ok_iff.1 hn'
    simp only [List.append_assoc, List.append_cancel_left_eq] at hdiagnostics
    refine (List.append_inj hdiagnostics ?_).1
    rw [List.length_map, List.length_map, hresolved.length_planViews hconsistent]
  rw [viewReferences_eq hbuild ha, viewReferences_eq hbuild' ha',
    (hresolved.diagnostics_planViews_eq_iff hconsistent hshort).1 hsaid]

/-- A run on types that are listed in another order succeeds and gives the same names if the views that are planned for
both refer to their interfaces in the same way, and for plain types only then. -/
theorem sameNames_iff_viewReferences (h : ListedAnew types types') (hrun : runOnTypes budget settings types = .ok named) :
    (viewReferences budget settings types' = viewReferences budget settings types →
      ∃ named', runOnTypes budget settings types' = .ok named' ∧ named.SameNames named') ∧
    ((∀ t ∈ types, t.Plain) → (∃ named', runOnTypes budget settings types' = .ok named' ∧ named.SameNames named') →
      viewReferences budget settings types' = viewReferences budget settings types) := by
  refine ⟨exists_runOnTypes_of_viewReferences h hrun, ?_⟩
  rintro hplain ⟨named', hrun', hsame⟩
  exact viewReferences_eq_of_sameNames h hplain hrun hrun' hsame

/-- The one view of this sample has one member, so it does not matter how the sample is listed. -/
theorem sameNames_of_store :
    ∃ named named', runOnTypes 10 .default Gallery.store = .ok named ∧
      runOnTypes 10 .default (TypeDraft.reverse Gallery.store) = .ok named' ∧ named.SameNames named' ∧
      viewReferences 10 .default (TypeDraft.reverse Gallery.store) = viewReferences 10 .default Gallery.store := by
  have hruns : (runOnTypes 10 .default Gallery.store).toOption.any (fun _ => true) = true ∧
      (viewReferences 10 .default Gallery.store).toOption.any (fun references =>
        references = [[("IDisposable", "System.IDisposable")]]) = true ∧
      (viewReferences 10 .default (TypeDraft.reverse Gallery.store)).toOption.any (fun references =>
        references = [[("IDisposable", "System.IDisposable")]]) = true := by
    simp only [runOnTypes, viewReferences, SymbolGraph.build, SymbolGraph.sortTypes, SymbolGraph.settle_eq,
      SymbolGraph.sortAliases, run, analyze, SymbolGraph.resolveOverloads, TypeSymbol.conflicts, TypeSymbol.buckets,
      TypeSymbol.candidates, Conflict.inBucket, Conflict.among, SymbolGraph.planViews, TypeSymbol.planViews,
      sortMembers, name, SymbolGraph.reserveNames, NamingStep.plan, NamingStep.ofMembers, NamingStep.surfaceMembers,
      SymbolGraph.violations, Gate.uniqueness, Gate.reservedWords, Ledger.sortedDecisions, mergeSort_eq_sortTo]
    decide +kernel
  have hplain : ∀ t ∈ Gallery.store, t.Plain := by
    intro t ht
    obtain rfl := List.mem_singleton.1 ht
    exact ⟨rfl, by decide +kernel⟩
  obtain ⟨named, hrun, -⟩ := exists_of_any hruns.1
  obtain ⟨references, href, hshown⟩ := exists_of_any hruns.2.1
  obtain ⟨references', href', hshown'⟩ := exists_of_any hruns.2.2
  obtain ⟨hsame, honly⟩ := sameNames_iff_viewReferences (listedAnew_reverse Gallery.store) hrun
  have hequal : references' = references := (of_decide_eq_true hshown').trans (of_decide_eq_true hshown).symm
  obtain ⟨named', hrun', hnames⟩ := hsame (by rw [href, href', hequal])
  exact ⟨named, named', hrun, hrun', hnames, honly hplain ⟨named', hrun', hnames⟩⟩

/-- Two methods that implement one interface with different arguments. -/
def equatables : List TypeSymbol :=
  let equatable argument := TypeRef.generic "core" "System" "IEquatable" [Gallery.app "App" argument]
  [(Gallery.draft "App.Pair" .classType
    |>.explicitMethod (equatable "A") "Equals" (Gallery.system "Boolean")
    |>.explicitMethod (equatable "B") "Equals" (Gallery.system "Boolean")).type]

/-- The method that is listed first is what the view of both methods is called after. -/
theorem messages_of_equatables :
    ListedAnew equatables (TypeDraft.reverse equatables) ∧ (∀ t ∈ equatables, t.Plain) ∧
      ∃ named named', runOnTypes 10 .default equatables = .ok named ∧
        runOnTypes 10 .default (TypeDraft.reverse equatables) = .ok named' ∧
        named.diagnostics.map (·.message) =
          ["2 member(s) reachable through System.IEquatable<App.A> via As_IEquatable"] ∧
        named'.diagnostics.map (·.message) =
          ["2 member(s) reachable through System.IEquatable<App.B> via As_IEquatable"] := by
  have hruns : (runOnTypes 10 .default equatables).toOption.any (fun named => named.diagnostics.map (·.message) =
        ["2 member(s) reachable through System.IEquatable<App.A> via As_IEquatable"]) = true ∧
      (runOnTypes 10 .default (TypeDraft.reverse equatables)).toOption.any (fun named =>
        named.diagnostics.map (·.message) =
          ["2 member(s) reachable through System.IEquatable<App.B> via As_IEquatable"]) = true := by
    simp only [runOnTypes, SymbolGraph.build, SymbolGraph.sortTypes, SymbolGraph.settle_eq, SymbolGraph.sortAliases,
      run, analyze, SymbolGraph.resolveOverloads, TypeSymbol.conflicts, TypeSymbol.buckets, TypeSymbol.candidates,
      Conflict.inBucket, Conflict.among, SymbolGraph.planViews, TypeSymbol.planViews, sortMembers, name,
      SymbolGraph.reserveNames, NamingStep.plan, NamingStep.ofMembers, NamingStep.surfaceMembers,
      SymbolGraph.violations, Gate.uniqueness, Gate.reservedWords, Ledger.sortedDecisions, mergeSort_eq_sortTo]
    decide +kernel
  have hplain : ∀ t ∈ equatables, t.Plain := by
    intro t ht
    obtain rfl := List.mem_singleton.1 ht
    exact ⟨rfl, by decide +kernel⟩
  obtain ⟨named, hrun, hmessages⟩ := exists_of_any hruns.1
  obtain ⟨named', hrun', hmessages'⟩ := exists_of_any hruns.2
  exact ⟨listedAnew_reverse _, hplain, named, named', hrun, hrun', of_decide_eq_true hmessages,
    of_decide_eq_true hmessages'⟩

end Pipeline

end Exonym
