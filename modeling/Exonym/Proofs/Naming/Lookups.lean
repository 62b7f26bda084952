import Exonym.Naming.Lookup
import Exonym.Proofs.Gate.Stamps

/-!
# Names that are looked up

Three parts of naming choose a scope for a member: reserving goes through the surfaces and the views, stamping asks for
the last view that lists the member, and a look-up asks for the first one. In a graph with planned views all of them
choose the same one, and it is the only scope in which the member has a name. So a look-up on the side that a member is
emitted on answers with the stamp of the member, and a look-up on the other side fails.

Main statements:

* `SymbolGraph.scopesOf_member`: the scopes in which a member of a graph got a name.
* `Stamp.memberScope?_of_stampType`: stamping keeps the scope of a member.
* `Stamp.finalName_eq_ok_iff`: a member has a name in the scope that it is stamped for, and in no other.
* `Pipeline.answers_of_name`: look-ups in a graph that got names answer with its stamps.
-/

namespace Exonym

/-! ## Scopes of members -/

namespace SymbolGraph

variable {g : SymbolGraph} {settings : NameSettings} {t : TypeSymbol} {x : MemberKind × MemberInfo}

/-- A decision about a member is made in the scope that the member is stamped for. -/
theorem memberScope?_of_decided (hg : g.Planned) {d : Decision}
    (hd : d ∈ (g.reserveNames (.empty settings)).ledger.decisions) (ht : t ∈ g.types) (hx : x ∈ t.members.infos)
    (hid : d.id.same (.member x.2.id) = true) : Stamp.memberScope? t x.2 = some d.scope := by
  obtain ⟨s, hs, hsubject, hscope, -⟩ := NamingRun.origin_of_run hd
  rw [hsubject] at hid
  rw [hscope]
  -- members are named on their surfaces and in views; no type is a member, and no accessor is a declared one
  cases NamingStep.mem_plan_iff.1 hs with
  | type hu hmem =>
    rw [(NamingStep.of_mem_ofType hmem).1] at hid
    cases SymbolId.same_iff.1 hid
  | surface hu hy hp =>
    rw [NamingStep.subject_ofMember, SymbolId.same_member] at hid
    obtain ⟨rfl, rfl⟩ := hg.consistent.eq_of_same ht hx hu hy hid
    rw [NamingStep.scope_ofMember]
    exact Stamp.memberScope?_of_onPrimarySurface hp
  | accessor hu hv =>
    have hother := NamingStep.not_same_accessorId hg hu hv ht hx
    rw [← SymbolId.same_member] at hother
    exact absurd (hother.symm.trans hid) (by simp)
  | viewed hu hv hlisted hfind =>
    rename_i u v id y
    have hid : id.same x.2.id = true := SymbolId.same_member.symm.trans hid
    obtain ⟨hy, hyid⟩ := Members.mem_of_find? hfind
    obtain ⟨rfl, rfl⟩ := hg.consistent.eq_of_same ht hx hu hy (by rw [MemberId.same_congr hyid, hid])
    exact Stamp.memberScope?_of_holds (hg.views u hu) (hg.consistent.members u hu) hy hv
      (List.any_eq_true.2 ⟨id, hlisted, hid⟩)
  | «import» hns hmem =>
    obtain ⟨id, reason, rfl, -⟩ := NamingStep.eq_of_mem_ofImports hmem
    cases SymbolId.same_iff.1 hid

/-- A member has a name in the scope that it is stamped for, if there is one, and in no other. -/
theorem scopesOf_member (hg : g.Planned) (hrun : (g.reserveNames (.empty settings)).failure = none) (ht : t ∈ g.types)
    (hx : x ∈ t.members.infos) :
    (g.reserveNames (.empty settings)).ledger.scopesOf (.member x.2.id) = (Stamp.memberScope? t x.2).toList := by
  have hmem : ∀ s, s ∈ (g.reserveNames (.empty settings)).ledger.scopesOf (.member x.2.id) ↔
      Stamp.memberScope? t x.2 = some s := by
    intro s
    unfold Ledger.scopesOf
    rw [List.mem_map]
    constructor
    · rintro ⟨d, hd, rfl⟩
      obtain ⟨hd, hid⟩ := List.mem_filter.1 hd
      exact memberScope?_of_decided hg hd ht hx hid
    · intro hs
      obtain ⟨d, hd, hscope, hid⟩ := decided_of_memberScope? hg hrun ht hx hs
      exact ⟨d, List.mem_filter.2 ⟨hd, hid⟩, hscope⟩
  -- of two lists of at most one element, the same elements make the same list
  have hnodup := (coherent_reserveNames g settings).nodup_scopesOf (.member x.2.id)
  have hperm := (List.perm_ext_iff_of_nodup hnodup (Option.toList_nodup (Stamp.memberScope? t x.2))).2 fun s => by
    rw [hmem, Option.mem_toList]
  cases hs : Stamp.memberScope? t x.2 with
  | none =>
    rw [hs] at hperm
    exact hperm.eq_nil
  | some s =>
    rw [hs] at hperm
    exact List.perm_singleton.1 hperm

end SymbolGraph

/-! ## Scopes after stamping -/

namespace Stamp

variable {l : Ledger} {t after : TypeSymbol} {x : MemberKind × MemberInfo}

/-- Stamping keeps what a view lists and which interface it is for. -/
theorem fields_of_stampView {v w : View} (h : stampView l t v = .ok w) :
    w.interfaceId = v.interfaceId ∧ w.members = v.members := by
  obtain ⟨name, -, rfl⟩ := stampView_eq_ok_iff.1 h
  exact ⟨rfl, rfl⟩

/-- Stamping keeps the interface that a member is reached through. -/
theorem interfaceId_lastViewOf? (h : stampType l t = .ok after) (id : MemberId) :
    (lastViewOf? after id).map (·.interfaceId) = (lastViewOf? t id).map (·.interfaceId) := by
  obtain ⟨name, members, views, -, -, hviews, rfl⟩ := stampType_eq_ok_iff.1 h
  unfold lastViewOf?
  obtain ⟨hnone, hnone'⟩ | ⟨v, w, hv, hw, hvw⟩ := find?_of_forall₂ (p := fun v : View => v.holds id)
    (q := fun w : View => w.holds id) (List.rel_reverse (mapM_eq_ok_iff.1 hviews)) fun v w hvw => by
      rw [View.holds, View.holds, (fields_of_stampView hvw).2]
  · rw [hnone, hnone']
  · rw [hv, hw, Option.map_some, Option.map_some, (fields_of_stampView hvw).1]

/-- A member that was stamped is stamped for the scope that it was stamped for. -/
theorem memberScope?_of_stampType (h : stampType l t = .ok after) {y : MemberKind × MemberInfo}
    (hyx : stampInfo l t y.2 = .ok x.2) : memberScope? after x.2 = memberScope? t y.2 := by
  obtain ⟨written, hx⟩ := exists_finalName_of_stampInfo hyx
  rw [hx]
  unfold memberScope?
  have hviews : ∀ f : TypeId → Scope, (lastViewOf? after y.2.id).map (fun v => f v.interfaceId) =
      (lastViewOf? t y.2.id).map fun v => f v.interfaceId := by
    intro f
    have hkeys := congrArg (Option.map f) (interfaceId_lastViewOf? h y.2.id)
    rwa [Option.map_map, Option.map_map] at hkeys
  cases hp : y.2.placement with
  | classSurface | staticSurface => rw [id_of_stampType h]
  | viewOnly => rw [id_of_stampType h, hviews fun interface => .ofView t.id interface y.2.isStatic]
  | omitted => rfl

/-- There is still one view for each interface, and it lists what it did. -/
theorem viewsPlanned_of_stampType (hv : t.ViewsPlanned) (h : stampType l t = .ok after) : after.ViewsPlanned := by
  have hid := id_of_stampType h
  obtain ⟨name, members, views, -, hmembers, hviews, rfl⟩ := stampType_eq_ok_iff.1 h
  refine ⟨?_, fun v hvt => ?_, fun v hvt id hlisted => ?_⟩
  · have hkeys : t.views.map (·.interfaceId) = views.map (·.interfaceId) :=
      map_eq_of_forall₂ (mapM_eq_ok_iff.1 hviews) fun v w hvw => (fields_of_stampView hvw).1.symm
    have hapart := List.pairwise_map.2 hv.apart
    rw [hkeys] at hapart
    exact List.pairwise_map.1 hapart
  · obtain ⟨w, hw, hwv⟩ := view_of_stampType h hvt
    rw [(gave_of_stampView hwv).1]
    exact hv.accessor w hw
  · obtain ⟨w, hw, hwv⟩ := view_of_stampType h hvt
    obtain ⟨hinterface, hlist⟩ := fields_of_stampView hwv
    rw [hlist] at hlisted
    obtain ⟨y, hy, rfl, hplacement, hreached⟩ := hv.listed w hw id hlisted
    obtain ⟨x, hx, -, hyx⟩ := exists_of_mem_left (Members.infos_of_traverseInfo hmembers) hy
    obtain ⟨written, hwritten⟩ := exists_finalName_of_stampInfo hyx
    rw [hinterface]
    exact ⟨x, hx, by rw [hwritten], by rw [hwritten]; exact hplacement, by rw [hwritten]; exact hreached⟩

/-- The scope of a member is its surface exactly when the member is on one. -/
theorem memberScope?_eq_ofSurface_iff {info : MemberInfo} :
    memberScope? t info = some (.ofSurface t.id info.isStatic) ↔ info.onPrimarySurface = true := by
  refine ⟨fun hs => ?_, memberScope?_of_onPrimarySurface⟩
  unfold memberScope? at hs
  cases hp : info.placement with
  | classSurface | staticSurface => rw [MemberInfo.onPrimarySurface, hp]; rfl
  | viewOnly =>
    rw [hp] at hs
    obtain ⟨v, -, hv⟩ := Option.map_eq_some_iff.1 hs
    cases hv
  | omitted =>
    rw [hp] at hs
    cases hs

section Decided

variable {g stamped : SymbolGraph} {settings : NameSettings}

/-- A stamped member has a name in the scope that it is stamped for, and that is its stamp. -/
theorem finalName_eq_ok_iff (hg : g.Planned)
    (hstamp : g.stampNames (g.reserveNames (.empty settings)).ledger = .ok stamped) (hafter : after ∈ stamped.types)
    (hx : x ∈ after.members.infos) {s : Scope} {name : String} :
    (g.reserveNames (.empty settings)).ledger.finalName (.member x.2.id) s = .ok name ↔
      memberScope? after x.2 = some s ∧ x.2.finalName = some name := by
  obtain ⟨t, ht, hst⟩ := type_of_stampNames hstamp hafter
  obtain ⟨y, hy, -, hyx⟩ := member_of_stampType hst hx
  have hid := (fields_of_stampInfo hyx).1
  rw [memberScope?_of_stampType hst hyx, hid]
  constructor
  · intro hname
    have hscope : memberScope? t y.2 = some s := by
      unfold Ledger.finalName at hname
      split at hname
      · rename_i d hd
        obtain ⟨hmem, rfl, hsame⟩ := Ledger.mem_of_decision? hd
        exact SymbolGraph.memberScope?_of_decided hg hmem ht hy hsame
      · cases hname
    obtain ⟨stamp, hstamp, hx⟩ := finalName_of_stampInfo hyx hscope
    rw [hname, Except.ok.injEq] at hstamp
    exact ⟨hscope, by rw [hx, hstamp]⟩
  · rintro ⟨hscope, hname⟩
    obtain ⟨stamp, hstamp, hx⟩ := finalName_of_stampInfo hyx hscope
    rw [hstamp, ← Option.some.inj (hx.symm.trans hname)]

theorem viewsPlanned_of_stampNames (hg : g.Planned) (hstamp : g.stampNames l = .ok stamped)
    (hafter : after ∈ stamped.types) : after.ViewsPlanned := by
  obtain ⟨t, ht, hst⟩ := type_of_stampNames hstamp hafter
  exact viewsPlanned_of_stampType (hg.views t ht) hst

theorem scopesOf_eq (hg : g.Planned) (hrun : (g.reserveNames (.empty settings)).failure = none)
    (hstamp : g.stampNames (g.reserveNames (.empty settings)).ledger = .ok stamped) (hafter : after ∈ stamped.types)
    (hx : x ∈ after.members.infos) :
    (g.reserveNames (.empty settings)).ledger.scopesOf (.member x.2.id) = (memberScope? after x.2).toList := by
  obtain ⟨t, ht, hst⟩ := type_of_stampNames hstamp hafter
  obtain ⟨y, hy, -, hyx⟩ := member_of_stampType hst hx
  rw [memberScope?_of_stampType hst hyx, (fields_of_stampInfo hyx).1]
  exact SymbolGraph.scopesOf_member hg hrun ht hy

end Decided

end Stamp

/-! ## Look-ups -/

theorem TypeSymbol.viewOf?_eq {t : TypeSymbol} {x : MemberKind × MemberInfo} {v : View} (hv : t.ViewsPlanned)
    (ho : t.OwnsMembers) (hx : x ∈ t.members.infos) (hvt : v ∈ t.views) (hvx : v.holds x.2.id = true) :
    t.viewOf? x.2.id = some v := by
  unfold viewOf?
  cases h : t.views.find? (·.holds x.2.id) with
  | none => simpa [hvx] using List.find?_eq_none.1 h v hvt
  | some w =>
    have hwx : w.holds x.2.id = true := by simpa using List.find?_some h
    rw [hv.eq_of_holds ho hx (List.mem_of_find?_eq_some h) hvt hwx hvx]

namespace NameLookup

/-- Look-ups answer with the stamps of the type, its members and its views, and only on the side that a member is
emitted on. -/
structure Answers (n : NameLookup) (t : TypeSymbol) : Prop where
  type : ∃ name, t.finalName = some name ∧ n.typeName t.id = .ok name
  surface : ∀ x ∈ t.members.infos, ∀ name, n.classMember x.2.id = .ok name ↔
    x.2.onPrimarySurface = true ∧ x.2.finalName = some name
  view : ∀ x ∈ t.members.infos, ∀ name, n.viewMember x.2.id = .ok name ↔
    x.2.placement = .viewOnly ∧ (∃ v ∈ t.views, v.holds x.2.id = true) ∧ x.2.finalName = some name
  mismatch : ∀ x ∈ t.members.infos, x.2.placement = .viewOnly → ∀ v ∈ t.views, v.holds x.2.id = true →
    ∃ s, n.ledger.scopesOf (.member x.2.id) = [s] ∧ n.classMember x.2.id =
      .error (.scopeMismatch (.member x.2.id) (.scope (.ofSurface t.id x.2.isStatic)) (.scope s))
  accessors : ∀ v ∈ t.views, ∃ name, v.accessorName = some name ∧ n.viewAccessor t.id v.interfaceId = .ok name

variable {n : NameLookup} {t : TypeSymbol} {x : MemberKind × MemberInfo}

theorem member_eq (hn : n.graph.Consistent) (ht : t ∈ n.graph.types) (hx : x ∈ t.members.infos) :
    n.member x.2.id = .ok (t, x.2) := by
  have ho := hn.members t ht
  unfold member
  rw [ho.owned _ (List.mem_map_of_mem hx), hn.find?_eq ht]
  simp only [ho.find?_eq hx (MemberId.same_refl x.2.id)]

/-- What is looked up on a surface is the name of a member that is on no view. -/
theorem classMember_eq_ok_iff (hn : n.graph.Consistent) (ht : t ∈ n.graph.types) (hx : x ∈ t.members.infos)
    {name : String} : n.classMember x.2.id = .ok name ↔ x.2.placement ≠ .viewOnly ∧
      n.ledger.finalName (.member x.2.id) (.ofSurface t.id x.2.isStatic) = .ok name := by
  unfold classMember
  rw [member_eq hn ht hx]
  show (if x.2.placement = .viewOnly then _ else _) = _ ↔ _
  by_cases hp : x.2.placement = .viewOnly
  · rw [if_pos hp]
    simp [hp]
  · rw [if_neg hp]
    simp [hp]

theorem viewMember_eq_ok_iff (hn : n.graph.Consistent) (ht : t ∈ n.graph.types) (hx : x ∈ t.members.infos)
    {name : String} : n.viewMember x.2.id = .ok name ↔ x.2.placement = .viewOnly ∧
      ∃ v, t.viewOf? x.2.id = some v ∧
        n.ledger.finalName (.member x.2.id) (.ofView t.id v.interfaceId x.2.isStatic) = .ok name := by
  unfold viewMember
  rw [member_eq hn ht hx]
  show (if x.2.placement ≠ .viewOnly then _ else _) = _ ↔ _
  by_cases hp : x.2.placement = .viewOnly
  · rw [if_neg (not_not.2 hp)]
    cases hv : t.viewOf? x.2.id <;> simp [hp]
  · rw [if_pos hp]
    simp [hp]

/-- What is listed by a view is looked up on a surface in vain, and the failure tells the scope of the view. -/
theorem classMember_of_holds (hn : n.graph.Consistent) (ht : t ∈ n.graph.types) (hv : t.ViewsPlanned)
    (hx : x ∈ t.members.infos) {v : View} (hvt : v ∈ t.views) (hvx : v.holds x.2.id = true) :
    n.classMember x.2.id = .error (.scopeMismatch (.member x.2.id) (.scope (.ofSurface t.id x.2.isStatic))
      (.scope (.ofView t.id v.interfaceId x.2.isStatic))) := by
  have ho := hn.members t ht
  unfold classMember
  rw [member_eq hn ht hx]
  show (if x.2.placement = .viewOnly then _ else _) = _
  rw [if_pos (hv.placement_of_holds ho hx hvt hvx), TypeSymbol.viewOf?_eq hv ho hx hvt hvx]

/-- The accessor of a view is found by the interface that the view is for. -/
theorem viewAccessor_eq (hn : n.graph.Consistent) (ht : t ∈ n.graph.types) (hv : t.ViewsPlanned) {v : View}
    (hvt : v ∈ t.views) : n.viewAccessor t.id v.interfaceId = n.ledger.finalName (.member v.accessorId)
      (.ofSurface t.id false) := by
  have hfind : t.views.find? (·.interfaceId = v.interfaceId) = some v := by
    cases h : t.views.find? (·.interfaceId = v.interfaceId) with
    | none => simpa using List.find?_eq_none.1 h v hvt
    | some w =>
      have hsame : w.interfaceId = v.interfaceId := by simpa using List.find?_some h
      rw [hv.eq_of_interfaceId (List.mem_of_find?_eq_some h) hvt hsame]
  unfold viewAccessor
  rw [hn.find?_eq ht, Option.bind_some, hfind]

section Stamped

variable {g stamped : SymbolGraph} {settings : NameSettings} {name : String}

/-- On a surface the answers are the stamps of the members that are on one. -/
theorem classMember_eq_ok_iff_stamped (hg : g.Planned)
    (hstamp : g.stampNames (g.reserveNames (.empty settings)).ledger = .ok stamped) (ht : t ∈ stamped.types)
    (hx : x ∈ t.members.infos) :
    (⟨stamped, (g.reserveNames (.empty settings)).ledger⟩ : NameLookup).classMember x.2.id = .ok name ↔
      x.2.onPrimarySurface = true ∧ x.2.finalName = some name := by
  rw [classMember_eq_ok_iff (Stamp.consistent_of_stampNames hg.consistent hstamp) ht hx]
  show _ ∧ (g.reserveNames (.empty settings)).ledger.finalName _ _ = _ ↔ _
  rw [Stamp.finalName_eq_ok_iff hg hstamp ht hx, Stamp.memberScope?_eq_ofSurface_iff]
  refine and_iff_right_of_imp fun ⟨hp, _⟩ hview => ?_
  rw [MemberInfo.onPrimarySurface, hview] at hp
  cases hp

/-- In a view the answers are the stamps of the members that a view lists. -/
theorem viewMember_eq_ok_iff_stamped (hg : g.Planned)
    (hstamp : g.stampNames (g.reserveNames (.empty settings)).ledger = .ok stamped) (ht : t ∈ stamped.types)
    (hx : x ∈ t.members.infos) :
    (⟨stamped, (g.reserveNames (.empty settings)).ledger⟩ : NameLookup).viewMember x.2.id = .ok name ↔
      x.2.placement = .viewOnly ∧ (∃ v ∈ t.views, v.holds x.2.id = true) ∧ x.2.finalName = some name := by
  have hconsistent := Stamp.consistent_of_stampNames hg.consistent hstamp
  have hviews := Stamp.viewsPlanned_of_stampNames hg hstamp ht
  rw [viewMember_eq_ok_iff hconsistent ht hx]
  refine and_congr_right fun _ => ?_
  constructor
  · rintro ⟨v, hv, hname⟩
    have hholds : v.holds x.2.id = true := by simpa using List.find?_some hv
    exact ⟨⟨v, List.mem_of_find?_eq_some hv, hholds⟩, ((Stamp.finalName_eq_ok_iff hg hstamp ht hx).1 hname).2⟩
  · rintro ⟨⟨v, hv, hholds⟩, hname⟩
    have ho := hconsistent.members t ht
    have hscope := Stamp.memberScope?_of_holds hviews ho hx hv hholds
    exact ⟨v, TypeSymbol.viewOf?_eq hviews ho hx hv hholds,
      (Stamp.finalName_eq_ok_iff hg hstamp ht hx).2 ⟨hscope, hname⟩⟩

end Stamped

end NameLookup

namespace Pipeline

/-- Whatever is looked up in a graph that was built of plain types and got names, the answer is what is stamped there. -/
theorem answers_of_name {types : List TypeSymbol} {aliases : List Alias} {g planned : SymbolGraph} {budget : Nat}
    {settings : Settings} {said : List Diagnostic} {named : Named}
    (hbuild : SymbolGraph.build types aliases = .ok g) (hplain : ∀ t ∈ types, t.Plain)
    (ha : analyze budget settings g = .ok (planned, said)) (hn : name settings planned said = .ok named) :
    ∀ t ∈ named.graph.types, (⟨named.graph, named.ledger⟩ : NameLookup).Answers t := by
  have hplanned := planned_of_analyze hbuild hplain ha
  have hstamped := stamped_of_name hbuild hplain ha hn
  obtain ⟨hrun, stamped, hstamp, rfl⟩ := name_eq_ok_iff.1 hn
  have hconsistent := Stamp.consistent_of_stampNames hplanned.consistent hstamp
  intro t ht
  have hviews := Stamp.viewsPlanned_of_stampNames hplanned hstamp ht
  refine ⟨(hstamped t ht).type, fun x hx name => NameLookup.classMember_eq_ok_iff_stamped hplanned hstamp ht hx,
    fun x hx name => NameLookup.viewMember_eq_ok_iff_stamped hplanned hstamp ht hx, fun x hx _ v hv hholds => ?_,
    fun v hv => ?_⟩
  · refine ⟨_, ?_, NameLookup.classMember_of_holds hconsistent ht hviews hx hv hholds⟩
    show (planned.reserveNames (.empty settings.naming)).ledger.scopesOf _ = _
    rw [Stamp.scopesOf_eq hplanned hrun hstamp ht hx,
      Stamp.memberScope?_of_holds hviews (hconsistent.members t ht) hx hv hholds]
    rfl
  · obtain ⟨name, hstamp, hname⟩ := (hstamped t ht).accessors v hv
    exact ⟨name, hstamp, (NameLookup.viewAccessor_eq hconsistent ht hviews hv).trans hname⟩

/-- In a store the method of the class is looked up on the class, the one of an interface in the view. -/
theorem answers_of_name_of_store :
    ∃ g planned said named, SymbolGraph.build Gallery.store [] = .ok g ∧ (∀ t ∈ Gallery.store, t.Plain) ∧
      analyze 10 .default g = .ok (planned, said) ∧ name .default planned said = .ok named ∧
      ∃ t ∈ named.graph.types, (⟨named.graph, named.ledger⟩ : NameLookup).Answers t ∧
        t.members.infos.map (·.2.finalName) = [some "Dispose", some "Dispose$view"] ∧
        t.views.map (·.accessorName) = [some "As_IDisposable"] := by
  have hrun : (SymbolGraph.build Gallery.store []).toOption.any (fun g =>
      (analyze 10 .default g).toOption.any fun stage =>
        (name .default stage.1 stage.2).toOption.any fun named => named.graph.types.any fun t =>
          t.members.infos.map (·.2.finalName) = [some "Dispose", some "Dispose$view"] &&
            t.views.map (·.accessorName) = [some "As_IDisposable"]) = true := by
    simp only [SymbolGraph.build, SymbolGraph.sortTypes, SymbolGraph.settle_eq, SymbolGraph.sortAliases, analyze,
      SymbolGraph.resolveOverloads, TypeSymbol.conflicts, TypeSymbol.buckets, TypeSymbol.candidates,
      Conflict.inBucket, Conflict.among, SymbolGraph.planViews, TypeSymbol.planViews, sortMembers, name,
      SymbolGraph.reserveNames, NamingStep.plan, NamingStep.ofMembers, NamingStep.surfaceMembers,
      mergeSort_eq_sortTo]
    decide +kernel
  have hplain : ∀ t ∈ Gallery.store, t.Plain := by
    intro t ht
    obtain rfl := List.mem_singleton.1 ht
    exact ⟨rfl, by decide +kernel⟩
  obtain ⟨g, hbuild, hrun⟩ := exists_of_any hrun
  obtain ⟨⟨planned, said⟩, ha, hrun⟩ := exists_of_any hrun
  obtain ⟨named, hn, hrun⟩ := exists_of_any hrun
  obtain ⟨t, ht, hrun⟩ := List.any_eq_true.1 hrun
  simp only [Bool.and_eq_true, decide_eq_true_eq] at hrun
  exact ⟨g, planned, said, named, hbuild, hplain, ha, hn, t, ht, answers_of_name hbuild hplain ha hn t ht, hrun⟩

end Pipeline

end Exonym
