import Exonym.Proofs.Naming.Stamped
import Exonym.Sample.Gallery

/-!
# Rules that names always pass

The gate reads four rules off a graph with names and the ledger they come from. Three of them hold of every graph with
planned views once its names are reserved and stamped: stamps are what was decided, names are unique in their scopes,
and views hold what they should.

Main statements:

* `Gate.stamps_eq_nil`, `Gate.uniqueness_eq_nil`, `Gate.views_eq_nil`: the three rules.
* `Gate.violations_eq_reservedWords`: only the rule on reserved words can be broken.
* `Pipeline.violation_iff_reservedWord`: what a run can be rejected for.
-/

namespace Exonym

namespace Gate

/-! ## Uniqueness -/

/-- Two decisions of one scope with one name are of one overload group. -/
theorem repeated_eq_nil_of_pairwise {s : Scope} {ds : List Decision} (h : ds.Pairwise Decision.Apart)
    (hscope : ∀ d ∈ ds, d.scope = s) : repeated s [] ds = [] := by
  refine repeated_eq_nil_iff.2 ?_
  intro before d after hds first hfirst
  rw [List.nil_append] at hfirst
  have hmem := List.mem_of_find?_eq_some hfirst
  have hname : first.finalName = d.finalName := by simpa using List.find?_some hfirst
  subst hds
  have hapart := (List.pairwise_append.1 h).2.2 first hmem d List.mem_cons_self
  have hsame : first.scope = d.scope := by
    rw [hscope first (List.mem_append_left _ hmem), hscope d (List.mem_append_right _ List.mem_cons_self)]
  obtain ⟨group, hfg, hdg⟩ := (hapart hsame).2.1 hname
  simp [mayShare, hfg, hdg]

theorem uniqueness_eq_nil {l : Ledger} (hl : l.Coherent) : uniqueness l = [] := by
  unfold uniqueness
  rw [List.flatMap_eq_nil_iff]
  intro s _
  refine repeated_eq_nil_of_pairwise (List.Pairwise.filter _ hl) ?_
  intro d hd
  simpa [Ledger.decisionsIn] using (List.mem_filter.1 hd).2

section Stamped

variable {g stamped : SymbolGraph} {settings : NameSettings} {l : Ledger} {t after : TypeSymbol}

/-! ## Stamps -/

/-- A view of a stamped type is one of the type, under another name at most. -/
theorem viewOf?_of_stampType (h : Stamp.stampType l t = .ok after) {id : MemberId} {v : View}
    (hv : after.viewOf? id = some v) : ∃ w ∈ t.views, w.holds id = true ∧ w.interfaceId = v.interfaceId := by
  have hmem := List.mem_of_find?_eq_some hv
  have hholds : v.holds id = true := by simpa using List.find?_some hv
  obtain ⟨w, hw, hstamped⟩ := Stamp.view_of_stampType h hmem
  obtain ⟨name, -, rfl⟩ := Stamp.stampView_eq_ok_iff.1 hstamped
  exact ⟨w, hw, hholds, rfl⟩

theorem stampOfMember?_eq_none (hv : t.ViewsPlanned) (ho : t.OwnsMembers)
    (h : Stamp.stampType l t = .ok after) {x : MemberKind × MemberInfo} (hx : x ∈ after.members.infos) :
    stampOfMember? l after x.2 = none := by
  obtain ⟨y, hy, -, hyx⟩ := Stamp.member_of_stampType h hx
  obtain ⟨hid, hstatic, hplacement⟩ := Stamp.fields_of_stampInfo hyx
  -- a member that has a scope has the name from there
  have hstamp : ∀ s, Stamp.memberScope? t y.2 = some s → compare? l (.member x.2.id) s x.2.finalName = none := by
    intro s hs
    obtain ⟨name, hname, hx⟩ := Stamp.finalName_of_stampInfo hyx hs
    exact compare?_eq_none_iff.2 ⟨name, hx, by rw [hid, hname]⟩
  unfold stampOfMember?
  rw [hplacement, hstatic, Stamp.id_of_stampType h]
  cases hp : y.2.placement with
  | classSurface => exact hstamp _ (by simp [Stamp.memberScope?, hp])
  | staticSurface => exact hstamp _ (by simp [Stamp.memberScope?, hp])
  | viewOnly =>
    cases hview : after.viewOf? x.2.id with
    | none => rfl
    | some v =>
      obtain ⟨w, hw, hwx, hinterface⟩ := viewOf?_of_stampType h hview
      rw [hid] at hwx
      have hscope := Stamp.memberScope?_of_holds hv ho hy hw hwx
      rw [hinterface] at hscope
      exact hstamp _ hscope
  | omitted =>
    have hscope : Stamp.memberScope? t y.2 = none := by simp [Stamp.memberScope?, hp]
    simp [Stamp.finalName_eq_none_of_stampInfo hyx hscope]

theorem stamps_eq_nil (hg : g.Planned) (h : g.stampNames l = .ok stamped) : stamps stamped l = [] := by
  unfold stamps
  rw [List.flatMap_eq_nil_iff]
  intro after hafter
  obtain ⟨t, ht, hst⟩ := Stamp.type_of_stampNames h hafter
  have htype : compare? l (.type after.id) (.internal after.namespace) after.finalName = none := by
    obtain ⟨name, members, views, hname, -, -, rfl⟩ := Stamp.stampType_eq_ok_iff.1 hst
    exact compare?_eq_none_iff.2 ⟨name, rfl, hname⟩
  have hmembers : after.members.infos.filterMap (fun x => stampOfMember? l after x.2) = [] := by
    rw [List.filterMap_eq_nil_iff]
    intro x hx
    exact stampOfMember?_eq_none (hg.views t ht) (hg.consistent.members t ht) hst hx
  rw [htype]
  exact hmembers

/-! ## Views -/

/-- The members that a view lists are there, and on no surface. -/
theorem viewMember?_eq_none (hv : t.ViewsPlanned) (ho : t.OwnsMembers) (h : Stamp.stampType l t = .ok after)
    {v w : View} (hw : w ∈ t.views) {id : MemberId} (hid : id ∈ w.members) : viewMember? after v id = none := by
  obtain ⟨x, hx, rfl, hp, -⟩ := hv.listed w hw id hid
  have hafter := ho.congr (Stamp.id_of_stampType h) (Stamp.memberIds_of_stampType h)
  have hstamped : ∃ y ∈ after.members.infos, x.1 = y.1 ∧ Stamp.stampInfo l t x.2 = .ok y.2 := by
    obtain ⟨name, members, views, -, hmembers, -, rfl⟩ := Stamp.stampType_eq_ok_iff.1 h
    exact exists_of_mem_left (Members.infos_of_traverseInfo hmembers) hx
  obtain ⟨y, hy, -, hxy⟩ := hstamped
  obtain ⟨written, hwritten⟩ := Stamp.exists_finalName_of_stampInfo hxy
  have hfind : after.members.find? x.2.id = some y := hafter.find?_eq hy (by rw [hwritten]; simp)
  have hplacement : y.2.placement = .viewOnly := by rw [hwritten]; exact hp
  simp [viewMember?, hfind, hplacement]

theorem viewFaults_eq_nil (hv : t.ViewsPlanned) (ho : t.OwnsMembers) (h : Stamp.stampType l t = .ok after)
    {v : View} (hmem : v ∈ after.views) : viewFaults after v = [] := by
  obtain ⟨w, hw, hstamped⟩ := Stamp.view_of_stampType h hmem
  obtain ⟨name, -, rfl⟩ := Stamp.stampView_eq_ok_iff.1 hstamped
  unfold viewFaults
  rw [List.append_eq_nil_iff, List.filterMap_eq_nil_iff]
  exact ⟨rfl, fun id hid => viewMember?_eq_none hv ho h hw hid⟩

/-- A member that is on no surface has no name on one. -/
theorem surfaced?_eq_none (hg : g.Planned) (ht : t ∈ g.types)
    (h : Stamp.stampType (g.reserveNames (.empty settings)).ledger t = .ok after) {x : MemberKind × MemberInfo}
    (hx : x ∈ after.members.infos) : surfaced? (g.reserveNames (.empty settings)).ledger after x.2 = none := by
  unfold surfaced?
  refine if_neg ?_
  intro hboth
  simp only [Bool.and_eq_true, decide_eq_true_eq] at hboth
  obtain ⟨hp, hsome⟩ := hboth
  obtain ⟨y, hy, written, rfl, -⟩ := Stamp.exists_written_of_stampType h hx
  obtain ⟨d, hd⟩ := Option.isSome_iff_exists.1 hsome
  obtain ⟨hmem, hscope, hid⟩ := Ledger.mem_of_decision? hd
  -- what was decided comes from a step for this very member, and a member has a step of this scope only on a surface
  obtain ⟨s, hs, hsid, hsscope, -⟩ := NamingRun.origin_of_run hmem
  rw [Stamp.id_of_stampType h] at hscope
  have hsubject : s.subject.same (.member y.2.id) = true := by
    rw [← hsid]
    exact hid
  have hsurface := (NamingStep.eq_ofMember hg hs ht hy (hsscope.symm.trans hscope) hsubject).2
  have hplacement : y.2.placement = .viewOnly := hp
  simp [MemberInfo.onPrimarySurface, hplacement, Placement.isPrimary] at hsurface

theorem views_eq_nil (hg : g.Planned)
    (h : g.stampNames (g.reserveNames (.empty settings)).ledger = .ok stamped) :
    views stamped (g.reserveNames (.empty settings)).ledger = [] := by
  unfold views
  rw [List.flatMap_eq_nil_iff]
  intro after hafter
  obtain ⟨t, ht, hst⟩ := Stamp.type_of_stampNames h hafter
  rw [List.append_eq_nil_iff, List.flatMap_eq_nil_iff, List.filterMap_eq_nil_iff]
  refine ⟨?_, ?_⟩
  · intro v hv
    exact viewFaults_eq_nil (hg.views t ht) (hg.consistent.members t ht) hst hv
  · intro x hx
    exact surfaced?_eq_none hg ht hst hx

/-- What the gate can find wrong with names that were reserved and stamped. -/
theorem violations_eq_reservedWords (hg : g.Planned)
    (h : g.stampNames (g.reserveNames (.empty settings)).ledger = .ok stamped) :
    stamped.violations (g.reserveNames (.empty settings)).ledger =
      reservedWords (g.reserveNames (.empty settings)).ledger := by
  unfold SymbolGraph.violations
  rw [stamps_eq_nil hg h, uniqueness_eq_nil (SymbolGraph.coherent_reserveNames g settings), views_eq_nil hg h]
  simp

end Stamped

/-- The rule on reserved words is broken by decisions whose names are reserved words that were not asked for as they
are. -/
theorem mem_reservedWords_iff {l : Ledger} {v : Violation} :
    v ∈ reservedWords l ↔ ∃ d ∈ l.decisions, d.source ≠ .verbatim ∧ l.reservedWords.contains d.finalName = true ∧
      v = .reservedWord d.id d.scope d.finalName := by
  simp only [reservedWords, Ledger.sortedDecisions, List.mem_map, List.mem_filter, List.mem_mergeSort,
    Bool.and_eq_true, decide_eq_true_eq]
  constructor
  · rintro ⟨d, ⟨hd, hsource, hword⟩, rfl⟩
    exact ⟨d, hd, hsource, hword, rfl⟩
  · rintro ⟨d, hd, hsource, hword, rfl⟩
    exact ⟨d, ⟨hd, hsource, hword⟩, rfl⟩

end Gate

/-! ## Graphs with names -/

namespace Pipeline

/-- Whatever names the user chose and whatever words are reserved, the names given to a graph that was built of plain
types pass three of the four rules, and every violation is a name that is a reserved word. -/
theorem violation_iff_reservedWord {types : List TypeSymbol} {aliases : List Alias} {g planned : SymbolGraph}
    {budget : Nat} {settings : Settings} {said : List Diagnostic} {named : Named}
    (hbuild : SymbolGraph.build types aliases = .ok g) (hplain : ∀ t ∈ types, t.Plain)
    (ha : analyze budget settings g = .ok (planned, said)) (hn : name settings planned said = .ok named) :
    Gate.stamps named.graph named.ledger = [] ∧ Gate.uniqueness named.ledger = [] ∧
      Gate.views named.graph named.ledger = [] ∧
      ∀ v, v ∈ named.graph.violations named.ledger ↔ ∃ d ∈ named.ledger.decisions, d.source ≠ .verbatim ∧
        named.ledger.reservedWords.contains d.finalName = true ∧ v = .reservedWord d.id d.scope d.finalName := by
  have hplanned := planned_of_analyze hbuild hplain ha
  obtain ⟨-, stamped, hstamp, rfl⟩ := name_eq_ok_iff.1 hn
  refine ⟨Gate.stamps_eq_nil hplanned hstamp, Gate.uniqueness_eq_nil (SymbolGraph.coherent_reserveNames planned _),
    Gate.views_eq_nil hplanned hstamp, fun v => ?_⟩
  rw [Gate.violations_eq_reservedWords hplanned hstamp]
  exact Gate.mem_reservedWords_iff

/-- The user chooses a reserved word for a method. -/
def choosingReservedWord : Settings :=
  { Settings.default with
    naming := { NameSettings.default with overrides := .ofList [("app:App.Store::Dispose()", "delete")] } }

theorem violation_iff_reservedWord_of_store :
    ∃ g planned said named, SymbolGraph.build Gallery.store [] = .ok g ∧ (∀ t ∈ Gallery.store, t.Plain) ∧
      analyze 10 choosingReservedWord g = .ok (planned, said) ∧
      name choosingReservedWord planned said = .ok named ∧
      (Gate.stamps named.graph named.ledger = [] ∧ Gate.uniqueness named.ledger = [] ∧
        Gate.views named.graph named.ledger = [] ∧
        ∀ v, v ∈ named.graph.violations named.ledger ↔ ∃ d ∈ named.ledger.decisions, d.source ≠ .verbatim ∧
          named.ledger.reservedWords.contains d.finalName = true ∧ v = .reservedWord d.id d.scope d.finalName) ∧
      ∃ d ∈ named.ledger.decisions, d.source = .override ∧
        .reservedWord d.id d.scope "delete" ∈ named.graph.violations named.ledger := by
  have hrun : (SymbolGraph.build Gallery.store []).toOption.any (fun g =>
      (analyze 10 choosingReservedWord g).toOption.any fun stage =>
        (name choosingReservedWord stage.1 stage.2).toOption.any fun named =>
          named.ledger.decisions.any fun d => d.source = .override && d.finalName = "delete" &&
            named.ledger.reservedWords.contains d.finalName) = true := by
    simp only [SymbolGraph.build, SymbolGraph.sortTypes, SymbolGraph.settle_eq, SymbolGraph.sortAliases, analyze,
      SymbolGraph.resolveOverloads, TypeSymbol.conflicts, TypeSymbol.buckets, TypeSymbol.candidates,
      Conflict.inBucket, Conflict.among, SymbolGraph.planViews, TypeSymbol.planViews, sortMembers, name,
      SymbolGraph.reserveNames, NamingStep.plan, NamingStep.ofMembers, NamingStep.surfaceMembers,
      mergeSort_eq_sortTo]
    decide +kernel
  have hplain : ∀ t ∈ Gallery.store, t.Plain := by
    intro t ht
    obtain rfl := List.mem_singleton.1 ht
    exact ⟨rfl, by decide +kernel⟩
  obtain ⟨g, hbuild, hrun⟩ := exists_of_any hrun
  obtain ⟨⟨planned, said⟩, ha, hrun⟩ := exists_of_any hrun
  obtain ⟨named, hn, hrun⟩ := exists_of_any hrun
  obtain ⟨d, hd, hrun⟩ := List.any_eq_true.1 hrun
  simp only [Bool.and_eq_true, decide_eq_true_eq] at hrun
  obtain ⟨⟨hsource, hname⟩, hword⟩ := hrun
  have hrules := violation_iff_reservedWord hbuild hplain ha hn
  refine ⟨g, planned, said, named, hbuild, hplain, ha, hn, hrules, d, hd, hsource, ?_⟩
  exact (hrules.2.2.2 _).2 ⟨d, hd, by simp [hsource], hword, by rw [hname]⟩

end Pipeline

end Exonym
