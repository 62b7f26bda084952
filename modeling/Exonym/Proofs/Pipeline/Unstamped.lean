import Exonym.Pipeline
import Exonym.Proofs.Hierarchy.Repeated
import Exonym.Proofs.Naming.Stamped
import Exonym.Proofs.Order.Overloads

/-!
# What a run does not look at

A graph that comes out of a run has names on it, and notes of the bases that were made for diamonds. No stage before
stamping looks at names, stamping writes all of them anew, and no stage looks at the notes. So a graph may be looked at
without them.

Main statements:

* `TypeSymbol.conflicts_unstamped`, `TypeSymbol.planViews_unstamped`, `NamingStep.plan_unstamped`: stages that see
  neither names nor notes.
* `SymbolGraph.stampNames_unstamped`: names that are there already make no difference to stamping.
* `SymbolGraph.violations_withoutBases`: the gate does not see notes.
-/

namespace Exonym

def MemberInfo.unstamped (info : MemberInfo) : MemberInfo :=
  { info with finalName := none }

def View.unstamped (v : View) : View :=
  { v with accessorName := none }

namespace TypeSymbol

/-- The type without any names, its own and those of its members and accessors, and without the note of its base. -/
def unstamped (t : TypeSymbol) : TypeSymbol :=
  { t with
    members := t.members.mapInfo fun _ => MemberInfo.unstamped
    views := t.views.map View.unstamped
    diamondBase := none
    finalName := none }

theorem infos_unstamped (t : TypeSymbol) :
    t.unstamped.members.infos = t.members.infos.map fun x => (x.1, x.2.unstamped) :=
  Members.infos_mapInfo _ _

end TypeSymbol

namespace SymbolGraph

/-- The graph without any names and without the notes of bases. -/
def unstamped (g : SymbolGraph) : SymbolGraph :=
  g.mapTypes TypeSymbol.unstamped

theorem unstamped_withoutBases (g : SymbolGraph) : g.withoutBases.unstamped = g.unstamped := by
  simp only [unstamped, withoutBases, mapTypes, List.map_map]
  rfl

end SymbolGraph

/-! ## Stages before naming -/

namespace TypeSymbol

theorem conflicts_unstamped (t : TypeSymbol) : t.unstamped.conflicts = t.conflicts := by
  have hlisted : t.unstamped.listedCandidates = t.listedCandidates := by
    simp only [listedCandidates, unstamped, Members.mapInfo, List.filter_map, List.map_map]
    rfl
  have hcandidates : t.unstamped.candidates = t.candidates := by
    change t.unstamped.listedCandidates.mergeSort _ = t.listedCandidates.mergeSort _
    rw [hlisted]
  unfold conflicts buckets
  rw [hcandidates]

theorem planViews_unstamped (t : TypeSymbol) : t.unstamped.planViews = t.planViews := by
  unfold planViews
  simp only [infos_unstamped, List.map_map, List.filter_map, List.filterMap_map, List.map_filterMap,
    List.filter_filterMap, Option.filter_map, Option.map_map, Function.comp_def]
  rfl

theorem unstamped_applyTo (p : ViewPlan) (t : TypeSymbol) :
    (p.applyTo t).unstamped = (p.applyTo t.unstamped).unstamped := by
  have hmove : ∀ info : MemberInfo, (p.moveInfo info.unstamped).unstamped = (p.moveInfo info).unstamped := by
    intro info
    unfold ViewPlan.moveInfo MemberInfo.unstamped
    split <;> rfl
  unfold ViewPlan.applyTo
  split
  · simp [unstamped, Members.mapInfo, View.unstamped, MemberInfo.unstamped, Function.comp_def]
  · simp [unstamped, Members.mapInfo, Function.comp_def, hmove]

end TypeSymbol

/-! ## Plans of names -/

namespace NamingStep

theorem ofMembers_unstamped (t : TypeSymbol) : ofMembers t.unstamped = ofMembers t := by
  have hsurface : surfaceMembers t.unstamped = (surfaceMembers t).map fun x => (x.1, x.2.unstamped) := by
    have hsort := List.map_mergeSort (r := fun a b : MemberKind × MemberInfo => (a.2.order b.2).isLE)
      (s := fun a b : MemberKind × MemberInfo => (a.2.order b.2).isLE)
      (f := fun x : MemberKind × MemberInfo => (x.1, x.2.unstamped))
      (l := t.members.infos.filter (·.2.onPrimarySurface)) fun _ _ _ _ => rfl
    unfold surfaceMembers
    rw [TypeSymbol.infos_unstamped, List.filter_map]
    exact hsort.symm
  unfold ofMembers
  rw [hsurface, List.map_map]
  refine List.map_congr_left fun x _ => ?_
  cases x.1 <;> rfl

theorem ofView_unstamped (t : TypeSymbol) (v : View) : ofView t.unstamped v.unstamped = ofView t v := by
  have hfind : ∀ id, t.unstamped.members.find? id = (t.members.find? id).map fun x => (x.1, x.2.unstamped) := by
    intro id
    unfold Members.find?
    rw [TypeSymbol.infos_unstamped, List.find?_map]
    rfl
  unfold ofView
  refine congrArg _ (List.filterMap_congr fun id _ => ?_)
  rw [hfind, Option.map_map]
  rfl

theorem references_unstamped (t : TypeSymbol) : references t.unstamped = references t := by
  simp only [references, TypeSymbol.unstamped, Members.mapInfo, List.map_map, List.flatMap_map]
  rfl

theorem ofImports_unstamped (g : SymbolGraph) (ns : Namespace) : ofImports g.unstamped ns = ofImports g ns := by
  have hfind : ∀ id, g.unstamped.find? id = (g.find? id).map TypeSymbol.unstamped := by
    intro id
    simp only [SymbolGraph.find?, SymbolGraph.unstamped, SymbolGraph.mapTypes, List.find?_map]
    rfl
  have hcontains : ∀ id, g.unstamped.contains id = g.contains id := by
    intro id
    simp only [SymbolGraph.contains, SymbolGraph.unstamped, SymbolGraph.mapTypes, List.any_map]
    rfl
  have hforeign : foreignTypes g.unstamped ns = foreignTypes g ns := by
    unfold foreignTypes
    have hfound : ns.types.filterMap g.unstamped.find? = (ns.types.filterMap g.find?).map TypeSymbol.unstamped := by
      rw [List.map_filterMap]
      exact List.filterMap_congr fun id _ => hfind id
    simp only [hfound, hcontains, List.flatMap_map, references_unstamped]
  unfold ofImports
  rw [hforeign]

/-- Which names a graph needs does not depend on the names that are there. -/
theorem plan_unstamped (g : SymbolGraph) : plan g.unstamped = plan g := by
  have hnamespaces : g.unstamped.namespaces = g.namespaces := by
    have hnames : g.unstamped.namespaceNames = g.namespaceNames := by
      simp only [SymbolGraph.namespaceNames, SymbolGraph.unstamped, SymbolGraph.mapTypes, List.map_map]
      rfl
    have hnamed : ∀ name, g.unstamped.namespaceNamed name = g.namespaceNamed name := by
      intro name
      simp only [SymbolGraph.namespaceNamed, SymbolGraph.unstamped, SymbolGraph.mapTypes, List.filter_map, List.map_map]
      rfl
    unfold SymbolGraph.namespaces
    rw [hnames]
    exact List.map_congr_left fun name _ => hnamed name
  have hviews : ∀ t : TypeSymbol, t.unstamped.views.flatMap (ofView t.unstamped) = t.views.flatMap (ofView t) := by
    intro t
    change (t.views.map View.unstamped).flatMap _ = _
    rw [List.flatMap_map]
    exact List.flatMap_congr fun v _ => ofView_unstamped t v
  have himports : ofImports g.unstamped = ofImports g := funext fun ns => ofImports_unstamped g ns
  have htypes : g.unstamped.types = g.types.map TypeSymbol.unstamped := rfl
  unfold plan
  rw [hnamespaces, himports, htypes]
  simp only [List.flatMap_map, ofMembers_unstamped, hviews]
  rfl

end NamingStep

/-! ## Stamps -/

namespace Stamp

theorem stampInfo_unstamped (l : Ledger) (t : TypeSymbol) (info : MemberInfo) :
    stampInfo l t.unstamped info.unstamped = stampInfo l t info := by
  have hlast : lastViewOf? t.unstamped info.id = (lastViewOf? t info.id).map View.unstamped := by
    unfold lastViewOf?
    change (t.views.map View.unstamped).reverse.find? _ = _
    rw [← List.map_reverse, List.find?_map]
    rfl
  have hscope : memberScope? t.unstamped info.unstamped = memberScope? t info := by
    have hview : (lastViewOf? t.unstamped info.id).map (fun v : View => Scope.ofView t.id v.interfaceId info.isStatic) =
        (lastViewOf? t info.id).map fun v => Scope.ofView t.id v.interfaceId info.isStatic := by
      rw [hlast, Option.map_map]
      rfl
    unfold memberScope? MemberInfo.unstamped
    cases info.placement with
    | viewOnly => exact hview
    | classSurface | staticSurface | omitted => rfl
  unfold stampInfo
  rw [hscope]
  rfl

/-- Names that are there already make no difference to what is stamped. -/
theorem stampType_unstamped (l : Ledger) (t : TypeSymbol) :
    stampType l t.unstamped = (stampType l t).map TypeSymbol.withoutBase := by
  have hmembers : t.unstamped.members.traverseInfo (stampInfo l t.unstamped) =
      t.members.traverseInfo (stampInfo l t) := by
    change (t.members.mapInfo fun _ => MemberInfo.unstamped).traverseInfo _ = _
    rw [Members.traverseInfo_mapInfo]
    exact congrArg (Members.traverseInfo · t.members) (funext (stampInfo_unstamped l t))
  have hviews : t.unstamped.views.mapM (stampView l t.unstamped) = t.views.mapM (stampView l t) := by
    change (t.views.map View.unstamped).mapM _ = _
    rw [List.mapM_map]
    rfl
  unfold stampType
  rw [hmembers, hviews]
  change ((l.finalName (.type t.id) (.internal t.namespace)) >>= _) = _
  cases l.finalName (.type t.id) (.internal t.namespace) with
  | error e => rfl
  | ok name =>
    cases t.members.traverseInfo (stampInfo l t) with
    | error e => rfl
    | ok members => cases t.views.mapM (stampView l t) <;> rfl

end Stamp

namespace SymbolGraph

variable {g stamped : SymbolGraph} {l : Ledger}

theorem stampNames_unstamped (l : Ledger) (g : SymbolGraph) :
    g.unstamped.stampNames l = (g.stampNames l).map withoutBases := by
  have htypes : (g.types.map TypeSymbol.unstamped).mapM (Stamp.stampType l) =
      (g.types.mapM (Stamp.stampType l)).map (List.map TypeSymbol.withoutBase) := by
    rw [List.mapM_map]
    induction g.types with
    | nil => rfl
    | cons t rest ih =>
      rw [List.mapM_cons, List.mapM_cons, ih, Function.comp_apply, Stamp.stampType_unstamped]
      cases Stamp.stampType l t with
      | error e => rfl
      | ok after => cases rest.mapM (Stamp.stampType l) <;> rfl
  unfold stampNames
  change Except.map _ ((g.types.map TypeSymbol.unstamped).mapM (Stamp.stampType l)) = _
  rw [htypes]
  cases g.types.mapM (Stamp.stampType l) <;> rfl

/-- Stamping writes names and nothing else. -/
theorem unstamped_of_stampNames (h : g.stampNames l = .ok stamped) : stamped.unstamped = g.unstamped := by
  obtain ⟨types, htypes, rfl⟩ := Stamp.stampNames_eq_ok_iff.1 h
  have htype : ∀ t after, Stamp.stampType l t = .ok after → t.unstamped = after.unstamped := by
    intro t after hstamp
    obtain ⟨name, members, views, -, hmembers, hviews, rfl⟩ := Stamp.stampType_eq_ok_iff.1 hstamp
    have hinfo : ∀ info info', Stamp.stampInfo l t info = .ok info' → info'.unstamped = info.unstamped := by
      intro info info' hstamped
      obtain ⟨written, rfl⟩ := Stamp.exists_finalName_of_stampInfo hstamped
      rfl
    have hview : ∀ v v', Stamp.stampView l t v = .ok v' → v.unstamped = v'.unstamped := by
      intro v v' hstamped
      obtain ⟨written, -, rfl⟩ := Stamp.stampView_eq_ok_iff.1 hstamped
      rfl
    unfold TypeSymbol.unstamped
    rw [Members.mapInfo_of_traverseInfo hinfo hmembers, map_eq_of_forall₂ (mapM_eq_ok_iff.1 hviews) hview]
  unfold unstamped mapTypes
  rw [map_eq_of_forall₂ (mapM_eq_ok_iff.1 htypes) htype]

/-- The gate does not see the notes of bases. -/
theorem violations_withoutBases (g : SymbolGraph) (l : Ledger) : g.withoutBases.violations l = g.violations l := by
  have hstamps : Gate.stamps g.withoutBases l = Gate.stamps g l := by
    simp only [Gate.stamps, withoutBases, mapTypes, List.flatMap_map]
    rfl
  have hviews : Gate.views g.withoutBases l = Gate.views g l := by
    simp only [Gate.views, withoutBases, mapTypes, List.flatMap_map]
    rfl
  unfold violations
  rw [hstamps, hviews]

end SymbolGraph

end Exonym
