import Exonym.Proofs.Naming.Stamped
import Exonym.Sample.Gallery

/-!
# Names that can be told apart

On a graph with all its names, types of one namespace have different names, and members of one type that can be seen
together have one name exactly if they are overloads of each other. Whatever the styles, the names chosen by the user,
and the words that are reserved, this is the invariant of the ledger, read off the graph: every name on the graph is
that of a decision in the scope that it is shown in.

Main statements:

* `SymbolGraph.NamesApart`: which names may be equal.
* `Pipeline.namesApart_of_name`: the names that are given to a graph of plain types.
-/

namespace Exonym

/-- Methods with one source name. -/
def AreOverloads (x y : MemberKind × MemberInfo) : Prop :=
  x.1 = .method ∧ y.1 = .method ∧ x.2.name = y.2.name

def AreConstructors (x y : MemberKind × MemberInfo) : Prop :=
  x.1 = .constructor ∧ y.1 = .constructor

/-- Names are equal where they are meant to be, and nowhere else. -/
structure SymbolGraph.NamesApart (g : SymbolGraph) : Prop where
  types : ∀ t ∈ g.types, ∀ u ∈ g.types, t.id ≠ u.id → t.namespace = u.namespace → t.finalName ≠ u.finalName
  /-- The members on one surface of a type. -/
  surfaces : ∀ t ∈ g.types, ∀ x ∈ t.members.infos, ∀ y ∈ t.members.infos, x.2.id.same y.2.id = false →
    x.2.onPrimarySurface = true → y.2.onPrimarySurface = true → x.2.isStatic = y.2.isStatic →
    (x.2.finalName = y.2.finalName ↔ AreOverloads x y ∨ AreConstructors x y)
  /-- The members on one side of a view. -/
  views : ∀ t ∈ g.types, ∀ v ∈ t.views, ∀ x ∈ t.members.infos, ∀ y ∈ t.members.infos,
    x.2.id.same y.2.id = false → v.holds x.2.id = true → v.holds y.2.id = true → x.2.isStatic = y.2.isStatic →
    (x.2.finalName = y.2.finalName ↔ AreOverloads x y)
  accessors : ∀ t ∈ g.types, ∀ v ∈ t.views, ∀ x ∈ t.members.infos, x.2.onPrimarySurface = true →
    x.2.isStatic = false → v.accessorName ≠ x.2.finalName

namespace NamingStep

/-- The groups of the members on a surface. -/
theorem exists_surfaceGroup_iff {x y : MemberKind × MemberInfo} :
    (∃ group, surfaceGroup x.1 x.2 = some group ∧ surfaceGroup y.1 y.2 = some group) ↔
      AreOverloads x y ∨ AreConstructors x y := by
  obtain ⟨kind, info⟩ := x
  obtain ⟨kind', info'⟩ := y
  have hcomm : info'.name = info.name ↔ info.name = info'.name := eq_comm
  have hctor := (methodGroup_ne_ctor info).symm
  have hctor' := methodGroup_ne_ctor info'
  cases kind <;> cases kind' <;>
    simp [surfaceGroup, AreOverloads, AreConstructors, methodGroup_inj, hcomm, hctor, hctor']

theorem exists_viewGroup_iff {x y : MemberKind × MemberInfo} :
    (∃ group, viewGroup x.1 x.2 = some group ∧ viewGroup y.1 y.2 = some group) ↔ AreOverloads x y := by
  obtain ⟨kind, info⟩ := x
  obtain ⟨kind', info'⟩ := y
  have hcomm : info'.name = info.name ↔ info.name = info'.name := eq_comm
  by_cases hk : kind = .method <;> by_cases hk' : kind' = .method <;>
    simp [viewGroup, AreOverloads, hk, hk', methodGroup_inj, hcomm]

end NamingStep

namespace SymbolGraph

theorem namesApart_of_stampNames {g stamped : SymbolGraph} {settings : NameSettings} (hg : g.Planned)
    (hrun : (g.reserveNames (.empty settings)).failure = none)
    (hstamp : g.stampNames (g.reserveNames (.empty settings)).ledger = .ok stamped) : stamped.NamesApart := by
  have hl := coherent_reserveNames g settings
  refine ⟨?_, ?_, ?_, ?_⟩
  · intro t' ht' u' hu' hid hns hname
    obtain ⟨t, ht, hst⟩ := Stamp.type_of_stampNames hstamp ht'
    obtain ⟨u, hu, hsu⟩ := Stamp.type_of_stampNames hstamp hu'
    obtain ⟨d, hd, hdscope, hdid, hdgroup, hdname⟩ := Stamp.type_name hrun ht hst
    obtain ⟨e, he, hescope, heid, -, hename⟩ := Stamp.type_name hrun hu hsu
    have hsame := hl.finalName_eq_iff hd he (by rw [hdscope, hescope, hns]) hdid heid (by simpa using hid)
    obtain ⟨group, hgroup, -⟩ := hsame.1 (Option.some.inj (hdname.symm.trans (hname.trans hename)))
    simp [hdgroup] at hgroup
  · intro t' ht' x hx y hy hxy hpx hpy hstatic
    obtain ⟨t, ht, hst⟩ := Stamp.type_of_stampNames hstamp ht'
    obtain ⟨d, hd, hdscope, hdid, hdgroup, hdname⟩ := Stamp.surface_name hg hrun ht hst hx hpx
    obtain ⟨e, he, hescope, heid, hegroup, hename⟩ := Stamp.surface_name hg hrun ht hst hy hpy
    have hsame := hl.finalName_eq_iff hd he (by rw [hdscope, hescope, hstatic]) hdid heid
      (by rwa [SymbolId.same_member])
    rw [hdname, hename, Option.some_inj, hsame, hdgroup, hegroup, NamingStep.exists_surfaceGroup_iff]
  · intro t' ht' v hv x hx y hy hxy hvx hvy hstatic
    obtain ⟨t, ht, hst⟩ := Stamp.type_of_stampNames hstamp ht'
    obtain ⟨d, hd, hdscope, hdid, hdgroup, hdname⟩ := Stamp.viewed_name hg hrun ht hst hx hv hvx
    obtain ⟨e, he, hescope, heid, hegroup, hename⟩ := Stamp.viewed_name hg hrun ht hst hy hv hvy
    have hsame := hl.finalName_eq_iff hd he (by rw [hdscope, hescope, hstatic]) hdid heid
      (by rwa [SymbolId.same_member])
    rw [hdname, hename, Option.some_inj, hsame, hdgroup, hegroup, NamingStep.exists_viewGroup_iff]
  · intro t' ht' v hv x hx hp hstatic hname
    obtain ⟨t, ht, hst⟩ := Stamp.type_of_stampNames hstamp ht'
    obtain ⟨w, hw, d, hd, hvw, hdscope, hdid, hdgroup, hdname⟩ := Stamp.accessor_name hg hrun ht hst hv
    obtain ⟨e, he, hescope, heid, -, hename⟩ := Stamp.surface_name hg hrun ht hst hx hp
    obtain ⟨y, hy, written, rfl, -⟩ := Stamp.exists_written_of_stampType hst hx
    have hother : v.accessorId.same y.2.id = false := by
      rw [hvw]
      exact NamingStep.not_same_accessorId hg ht hw ht hy
    have hsame := hl.finalName_eq_iff hd he (by rw [hdscope, hescope, hstatic]) hdid heid
      (by rwa [SymbolId.same_member])
    obtain ⟨group, hgroup, -⟩ := hsame.1 (Option.some.inj (hdname.symm.trans (hname.trans hename)))
    simp [hdgroup] at hgroup

end SymbolGraph

/-- The names given to a graph that was built of plain types can be told apart, whatever the settings are. -/
theorem Pipeline.namesApart_of_name {types : List TypeSymbol} {aliases : List Alias} {g planned : SymbolGraph}
    {budget : Nat} {settings : Settings} {said : List Diagnostic} {named : Named}
    (hbuild : SymbolGraph.build types aliases = .ok g) (hplain : ∀ t ∈ types, t.Plain)
    (ha : analyze budget settings g = .ok (planned, said)) (hn : name settings planned said = .ok named) :
    named.graph.NamesApart := by
  obtain ⟨hrun, stamped, hstamp, rfl⟩ := name_eq_ok_iff.1 hn
  exact SymbolGraph.namesApart_of_stampNames (planned_of_analyze hbuild hplain ha) hrun hstamp

/-- Two overloads, a field and an explicit implementation, all of one name. -/
def Gallery.bag : List TypeSymbol := [
  (draft "App.Bag" .classType
    |>.method "Add" [] (system "Void") id
    |>.method "Add" [⟨"item", system "Int32", .byValue, false⟩] (system "Void") id
    |>.field "Add" (system "Int32")
    |>.explicitMethod (system "ICollection") "Add" (system "Void")).type]

theorem Pipeline.namesApart_of_bag :
    ∃ g planned said named, SymbolGraph.build Gallery.bag [] = .ok g ∧
      analyze 10 .default g = .ok (planned, said) ∧ name .default planned said = .ok named ∧
      named.graph.NamesApart ∧
      named.graph.types.map (fun t => t.members.infos.map (·.2.finalName)) =
        [[some "Add", some "Add", some "Add$view", some "Add2"]] := by
  have hrun : (SymbolGraph.build Gallery.bag []).toOption.any (fun g =>
      (analyze 10 .default g).toOption.any fun stage => (name .default stage.1 stage.2).toOption.any fun named =>
        named.graph.types.map (fun t => t.members.infos.map (·.2.finalName)) =
          [[some "Add", some "Add", some "Add$view", some "Add2"]]) = true := by
    simp only [SymbolGraph.build, SymbolGraph.sortTypes, SymbolGraph.settle_eq, SymbolGraph.sortAliases, analyze,
      SymbolGraph.resolveOverloads, TypeSymbol.conflicts, TypeSymbol.buckets, TypeSymbol.candidates,
      Conflict.inBucket, Conflict.among, SymbolGraph.planViews, TypeSymbol.planViews, sortMembers, name,
      SymbolGraph.reserveNames, NamingStep.plan, NamingStep.ofMembers, NamingStep.surfaceMembers,
      mergeSort_eq_sortTo]
    decide +kernel
  have hplain : ∀ t ∈ Gallery.bag, t.Plain := by
    intro t ht
    obtain rfl := List.mem_singleton.1 ht
    exact ⟨rfl, by decide +kernel⟩
  obtain ⟨g, hbuild, hrun⟩ := exists_of_any hrun
  obtain ⟨⟨planned, said⟩, ha, hrun⟩ := exists_of_any hrun
  obtain ⟨named, hn, hnames⟩ := exists_of_any hrun
  exact ⟨g, planned, said, named, hbuild, ha, hn, namesApart_of_name hbuild hplain ha hn, of_decide_eq_true hnames⟩

end Exonym
