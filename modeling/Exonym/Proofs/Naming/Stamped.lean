import Exonym.Naming.Stamp
import Exonym.Proofs.Naming.Plan

/-!
# Where the names on a graph come from

Stamping looks every name up in the ledger and changes nothing else. On a graph with planned views, every name that is
stamped after a run that did not fail is that of a decision, made in the scope in which the name is shown and in the
overload group that the member belongs to there.

Main statements:

* `Stamp.stampInfo_eq_ok_iff`, `Stamp.stampType_eq_ok_iff`: what stamping writes down.
* `Stamp.surface_name`, `Stamp.viewed_name`, `Stamp.accessor_name`, `Stamp.type_name`: the decisions behind the names.
* `SymbolGraph.decided_of_memberScope?`: there is a decision where stamping looks for one.
-/

namespace Exonym

/-! ## Views that list a member -/

namespace TypeSymbol

variable {t : TypeSymbol} {x : MemberKind × MemberInfo} {v : View}

theorem lastViewOf?_eq (hv : t.ViewsPlanned) (ho : t.OwnsMembers) (hx : x ∈ t.members.infos) (hvt : v ∈ t.views)
    (hvx : v.holds x.2.id = true) : Stamp.lastViewOf? t x.2.id = some v := by
  unfold Stamp.lastViewOf?
  cases h : t.views.reverse.find? (·.holds x.2.id) with
  | none => simpa [hvx] using List.find?_eq_none.1 h v (by simpa using hvt)
  | some w =>
    have hwt : w ∈ t.views := by simpa using List.mem_of_find?_eq_some h
    have hwx : w.holds x.2.id = true := by simpa using List.find?_some h
    rw [hv.eq_of_holds ho hx hwt hvt hwx hvx]

end TypeSymbol

namespace Stamp

/-! ## What is written down -/

theorem stampInfo_eq_ok_iff {l : Ledger} {t : TypeSymbol} {info after : MemberInfo} :
    stampInfo l t info = .ok after ↔
      (memberScope? t info = none ∧ after = { info with finalName := none }) ∨
      ∃ s name, memberScope? t info = some s ∧ l.finalName (.member info.id) s = .ok name ∧
        after = { info with finalName := some name } := by
  unfold stampInfo
  cases memberScope? t info with
  | none => simp [eq_comm]
  | some s => cases h : l.finalName (.member info.id) s <;> simp [h, Except.map, eq_comm]

theorem stampView_eq_ok_iff {l : Ledger} {t : TypeSymbol} {v after : View} :
    stampView l t v = .ok after ↔ ∃ name, l.finalName (.member v.accessorId) (.ofSurface t.id false) = .ok name ∧
      after = { v with accessorName := some name } := by
  unfold stampView
  cases h : l.finalName (.member v.accessorId) (.ofSurface t.id false) <;> simp [Except.map, eq_comm]

theorem stampType_eq_ok_iff {l : Ledger} {t after : TypeSymbol} :
    stampType l t = .ok after ↔ ∃ name members views, l.finalName (.type t.id) (.internal t.namespace) = .ok name ∧
      t.members.traverseInfo (stampInfo l t) = .ok members ∧ t.views.mapM (stampView l t) = .ok views ∧
      after = { t with finalName := some name, members := members, views := views } := by
  unfold stampType
  cases hname : l.finalName (.type t.id) (.internal t.namespace) with
  | error e => simp [bind, Except.bind]
  | ok name =>
    cases hmembers : t.members.traverseInfo (stampInfo l t) with
    | error e => simp [bind, Except.bind]
    | ok members =>
      cases hviews : t.views.mapM (stampView l t) with
      | error e => simp [bind, Except.bind]
      | ok views => simp [bind, Except.bind, pure, Except.pure, eq_comm]

theorem stampNames_eq_ok_iff {l : Ledger} {g stamped : SymbolGraph} :
    g.stampNames l = .ok stamped ↔
      ∃ types, g.types.mapM (stampType l) = .ok types ∧ stamped = { g with types := types } := by
  unfold SymbolGraph.stampNames
  cases g.types.mapM (stampType l) <;> simp [Except.map, eq_comm]

/-! ## What is not written down stays -/

variable {l : Ledger} {g stamped : SymbolGraph} {t after : TypeSymbol}

theorem id_of_stampType (h : stampType l t = .ok after) : after.id = t.id := by
  obtain ⟨name, members, views, -, -, -, rfl⟩ := stampType_eq_ok_iff.1 h
  rfl

/-- A member of a stamped type is a member of the type with a name written on it. -/
theorem member_of_stampType (h : stampType l t = .ok after) {x : MemberKind × MemberInfo}
    (hx : x ∈ after.members.infos) : ∃ y ∈ t.members.infos, y.1 = x.1 ∧ stampInfo l t y.2 = .ok x.2 := by
  obtain ⟨name, members, views, -, hmembers, -, rfl⟩ := stampType_eq_ok_iff.1 h
  exact exists_of_mem_right (Members.infos_of_traverseInfo hmembers) hx

theorem view_of_stampType (h : stampType l t = .ok after) {v : View} (hv : v ∈ after.views) :
    ∃ w ∈ t.views, stampView l t w = .ok v := by
  obtain ⟨name, members, views, -, -, hviews, rfl⟩ := stampType_eq_ok_iff.1 h
  exact exists_of_mem_right (mapM_eq_ok_iff.1 hviews) hv

/-- A view of the type is still there when names are stamped, with a name for its accessor. -/
theorem exists_view_of_stampType (h : stampType l t = .ok after) {v : View} (hv : v ∈ t.views) :
    ∃ name, { v with accessorName := name } ∈ after.views := by
  obtain ⟨name, members, views, -, -, hviews, rfl⟩ := stampType_eq_ok_iff.1 h
  obtain ⟨w, hw, hstamp⟩ := exists_of_mem_left (mapM_eq_ok_iff.1 hviews) hv
  obtain ⟨accessorName, -, rfl⟩ := stampView_eq_ok_iff.1 hstamp
  exact ⟨accessorName, hw⟩

theorem type_of_stampNames (h : g.stampNames l = .ok stamped) (ht : after ∈ stamped.types) :
    ∃ t ∈ g.types, stampType l t = .ok after := by
  obtain ⟨types, htypes, rfl⟩ := stampNames_eq_ok_iff.1 h
  exact exists_of_mem_right (mapM_eq_ok_iff.1 htypes) ht

theorem exists_type_of_stampNames (h : g.stampNames l = .ok stamped) (ht : t ∈ g.types) :
    ∃ after ∈ stamped.types, stampType l t = .ok after := by
  obtain ⟨types, htypes, rfl⟩ := stampNames_eq_ok_iff.1 h
  exact exists_of_mem_left (mapM_eq_ok_iff.1 htypes) ht

theorem exists_finalName_of_stampInfo {info info' : MemberInfo} (h : stampInfo l t info = .ok info') :
    ∃ name, info' = { info with finalName := name } := by
  rcases stampInfo_eq_ok_iff.1 h with ⟨-, rfl⟩ | ⟨s, name, -, -, rfl⟩
  · exact ⟨none, rfl⟩
  · exact ⟨some name, rfl⟩

/-- A member of a stamped type is a member of the type with the name that it was given, or with none. -/
theorem exists_written_of_stampType (h : stampType l t = .ok after) {x : MemberKind × MemberInfo}
    (hx : x ∈ after.members.infos) : ∃ y ∈ t.members.infos, ∃ name, x = (y.1, { y.2 with finalName := name }) ∧
      stampInfo l t y.2 = .ok x.2 := by
  obtain ⟨y, hy, hkind, hinfo⟩ := member_of_stampType h hx
  obtain ⟨name, hname⟩ := exists_finalName_of_stampInfo hinfo
  exact ⟨y, hy, name, Prod.ext hkind.symm hname, hinfo⟩

theorem fields_of_stampInfo {info info' : MemberInfo} (h : stampInfo l t info = .ok info') :
    info'.id = info.id ∧ info'.isStatic = info.isStatic ∧ info'.placement = info.placement := by
  obtain ⟨name, rfl⟩ := exists_finalName_of_stampInfo h
  exact ⟨rfl, rfl, rfl⟩

theorem memberIds_of_stampType (h : stampType l t = .ok after) : after.memberIds = t.memberIds := by
  obtain ⟨name, members, views, -, hmembers, -, rfl⟩ := stampType_eq_ok_iff.1 h
  refine (map_eq_of_forall₂ (Members.infos_of_traverseInfo hmembers) ?_).symm
  rintro x y ⟨-, hinfo⟩
  obtain ⟨written, hy⟩ := exists_finalName_of_stampInfo hinfo
  rw [hy]

/-- Stamping keeps identities, of types and of members. -/
theorem consistent_of_stampNames (hg : g.Consistent) (h : g.stampNames l = .ok stamped) : stamped.Consistent := by
  obtain ⟨types, htypes, rfl⟩ := stampNames_eq_ok_iff.1 h
  refine hg.of_forall₂ ((mapM_eq_ok_iff.1 htypes).imp fun t after hstamp => ?_)
  exact ⟨id_of_stampType hstamp, fun ho => ho.congr (id_of_stampType hstamp) (memberIds_of_stampType hstamp)⟩

theorem memberScope?_of_onPrimarySurface {info : MemberInfo} (h : info.onPrimarySurface = true) :
    memberScope? t info = some (.ofSurface t.id info.isStatic) := by
  unfold memberScope?
  cases hp : info.placement <;> simp [MemberInfo.onPrimarySurface, Placement.isPrimary, hp] at h ⊢

theorem memberScope?_of_holds (hv : t.ViewsPlanned) (ho : t.OwnsMembers) {x : MemberKind × MemberInfo}
    (hx : x ∈ t.members.infos) {v : View} (hvt : v ∈ t.views) (hvx : v.holds x.2.id = true) :
    memberScope? t x.2 = some (.ofView t.id v.interfaceId x.2.isStatic) := by
  unfold memberScope?
  rw [hv.placement_of_holds ho hx hvt hvx, TypeSymbol.lastViewOf?_eq hv ho hx hvt hvx]
  rfl

/-- The name of a member that has a scope is its name there. -/
theorem finalName_of_stampInfo {info info' : MemberInfo} (h : stampInfo l t info = .ok info') {s : Scope}
    (hs : memberScope? t info = some s) :
    ∃ name, l.finalName (.member info.id) s = .ok name ∧ info'.finalName = some name := by
  rcases stampInfo_eq_ok_iff.1 h with ⟨hnone, -⟩ | ⟨s', name, hs', hname, rfl⟩
  · simp [hs] at hnone
  · obtain rfl : s = s' := by simpa [hs] using hs'
    exact ⟨name, hname, rfl⟩

/-- A member that has no scope has no name. -/
theorem finalName_eq_none_of_stampInfo {info info' : MemberInfo} (h : stampInfo l t info = .ok info')
    (hs : memberScope? t info = none) : info'.finalName = none := by
  rcases stampInfo_eq_ok_iff.1 h with ⟨-, rfl⟩ | ⟨s, name, hsome, -, -⟩
  · rfl
  · simp [hs] at hsome

/-! ## The decisions behind the names -/

section Decided

variable {settings : NameSettings} {x : MemberKind × MemberInfo}

theorem surface_name (hg : g.Planned) (hrun : (g.reserveNames (.empty settings)).failure = none) (ht : t ∈ g.types)
    (hstamp : stampType (g.reserveNames (.empty settings)).ledger t = .ok after) (hx : x ∈ after.members.infos)
    (hp : x.2.onPrimarySurface = true) :
    ∃ d ∈ (g.reserveNames (.empty settings)).ledger.decisions, d.scope = .ofSurface after.id x.2.isStatic ∧
      d.id.same (.member x.2.id) = true ∧ d.group = NamingStep.surfaceGroup x.1 x.2 ∧
      x.2.finalName = some d.finalName := by
  obtain ⟨⟨kind, info⟩, hy, written, rfl, hinfo⟩ := exists_written_of_stampType hstamp hx
  obtain ⟨d, hd, hscope, hid, hgroup⟩ := SymbolGraph.decided_of_surface hg hrun ht hy hp
  obtain ⟨name, hname, hwritten⟩ := finalName_of_stampInfo hinfo (memberScope?_of_onPrimarySurface hp)
  refine ⟨d, hd, by rw [hscope, id_of_stampType hstamp], hid, by rw [hgroup]; cases kind <;> rfl, ?_⟩
  rw [hwritten, (SymbolGraph.coherent_reserveNames g settings).eq_of_finalName hd hid hscope hname]

theorem viewed_name (hg : g.Planned) (hrun : (g.reserveNames (.empty settings)).failure = none) (ht : t ∈ g.types)
    (hstamp : stampType (g.reserveNames (.empty settings)).ledger t = .ok after) (hx : x ∈ after.members.infos)
    {v : View} (hv : v ∈ after.views) (hvx : v.holds x.2.id = true) :
    ∃ d ∈ (g.reserveNames (.empty settings)).ledger.decisions,
      d.scope = .ofView after.id v.interfaceId x.2.isStatic ∧ d.id.same (.member x.2.id) = true ∧
      d.group = NamingStep.viewGroup x.1 x.2 ∧ x.2.finalName = some d.finalName := by
  obtain ⟨⟨kind, info⟩, hy, written, rfl, hinfo⟩ := exists_written_of_stampType hstamp hx
  obtain ⟨w, hw, hstampedView⟩ := view_of_stampType hstamp hv
  obtain ⟨accessorName, -, rfl⟩ := stampView_eq_ok_iff.1 hstampedView
  have hwx : w.holds info.id = true := hvx
  obtain ⟨d, hd, hscope, hid, hgroup⟩ := SymbolGraph.decided_of_viewed hg hrun ht hy hw hwx
  have ho := hg.consistent.members t ht
  -- the name that is stamped is the one of this scope, and there the decision is the only one
  have hmemberScope := memberScope?_of_holds (hg.views t ht) ho hy hw hwx
  obtain ⟨name, hname, hwritten⟩ := finalName_of_stampInfo hinfo hmemberScope
  refine ⟨d, hd, by rw [hscope, id_of_stampType hstamp], hid, by rw [hgroup]; rfl, ?_⟩
  rw [hwritten, (SymbolGraph.coherent_reserveNames g settings).eq_of_finalName hd hid hscope hname]

theorem accessor_name (hg : g.Planned) (hrun : (g.reserveNames (.empty settings)).failure = none) (ht : t ∈ g.types)
    (hstamp : stampType (g.reserveNames (.empty settings)).ledger t = .ok after) {v : View} (hv : v ∈ after.views) :
    ∃ w ∈ t.views, ∃ d ∈ (g.reserveNames (.empty settings)).ledger.decisions, v.accessorId = w.accessorId ∧
      d.scope = .ofSurface after.id false ∧ d.id.same (.member v.accessorId) = true ∧ d.group = none ∧
      v.accessorName = some d.finalName := by
  obtain ⟨w, hw, hstampedView⟩ := view_of_stampType hstamp hv
  obtain ⟨name, hname, rfl⟩ := stampView_eq_ok_iff.1 hstampedView
  obtain ⟨d, hd, hscope, hid, hgroup⟩ := SymbolGraph.decided_of_accessor hg hrun ht hw
  refine ⟨w, hw, d, hd, rfl, by rw [hscope, id_of_stampType hstamp], hid, hgroup, ?_⟩
  rw [(SymbolGraph.coherent_reserveNames g settings).eq_of_finalName hd hid hscope hname]

theorem type_name (hrun : (g.reserveNames (.empty settings)).failure = none) (ht : t ∈ g.types)
    (hstamp : stampType (g.reserveNames (.empty settings)).ledger t = .ok after) :
    ∃ d ∈ (g.reserveNames (.empty settings)).ledger.decisions, d.scope = .internal after.namespace ∧
      d.id.same (.type after.id) = true ∧ d.group = none ∧ after.finalName = some d.finalName := by
  obtain ⟨name, members, views, hname, -, -, rfl⟩ := stampType_eq_ok_iff.1 hstamp
  obtain ⟨d, hd, hscope, hid, hgroup⟩ := SymbolGraph.decided_of_type hrun ht
  refine ⟨d, hd, hscope, hid, hgroup, ?_⟩
  rw [(SymbolGraph.coherent_reserveNames g settings).eq_of_finalName hd hid hscope hname]

end Decided

end Stamp

/-- A run that does not fail decides about a member in the scope that it is stamped for. -/
theorem SymbolGraph.decided_of_memberScope? {g : SymbolGraph} {settings : NameSettings} {t : TypeSymbol}
    {x : MemberKind × MemberInfo} (hg : g.Planned) (hrun : (g.reserveNames (.empty settings)).failure = none)
    (ht : t ∈ g.types) (hx : x ∈ t.members.infos) {s : Scope} (hs : Stamp.memberScope? t x.2 = some s) :
    ∃ d ∈ (g.reserveNames (.empty settings)).ledger.decisions, d.scope = s ∧ d.id.same (.member x.2.id) = true := by
  obtain hp | ⟨-, v, hv, hholds⟩ := Stamp.memberScope?_isSome.1 (Option.isSome_of_eq_some hs)
  · obtain ⟨d, hd, hscope, hid, -⟩ := decided_of_surface hg hrun ht hx hp
    rw [Stamp.memberScope?_of_onPrimarySurface hp, Option.some.injEq] at hs
    exact ⟨d, hd, hscope.trans hs, hid⟩
  · obtain ⟨d, hd, hscope, hid, -⟩ := decided_of_viewed hg hrun ht hx hv hholds
    rw [Stamp.memberScope?_of_holds (hg.views t ht) (hg.consistent.members t ht) hx hv hholds, Option.some.injEq] at hs
    exact ⟨d, hd, hscope.trans hs, hid⟩

end Exonym
