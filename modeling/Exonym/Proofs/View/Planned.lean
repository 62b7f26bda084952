import Exonym.View
import Exonym.Proofs.Graph.Consistency
import Exonym.Proofs.Grouping

/-!
# What is known about planned views

Views are planned for types that have none. A view lists members that are reached through its interface and are
on no surface once the plan is carried out, and there is one view for each interface.

Main statements:

* `TypeSymbol.plannedFor_of_mem_planViews`: what a planned view consists of.
* `TypeSymbol.exists_view_of_concerned`, `TypeSymbol.mem_orphans_planViews`: what becomes of the members concerned.
* `TypeSymbol.viewsPlanned_applyTo`: what holds of a type that its plan was carried out on.
-/

namespace Exonym

/-- The signature has the form that is kept for accessors of views. -/
def MemberId.HasViewSignature (id : MemberId) : Prop :=
  "view:".toList <+: id.signature.toList

instance : DecidablePred MemberId.HasViewSignature := fun id =>
  inferInstanceAs (Decidable ("view:".toList <+: id.signature.toList))

theorem View.hasViewSignature_accessorIdFor (type : TypeId) (interface : TypeRef) (interfaceId : TypeId) :
    (View.accessorIdFor type interface interfaceId).HasViewSignature := by
  unfold MemberId.HasViewSignature accessorIdFor MemberId.of
  rw [String.toList_append]
  exact List.prefix_append _ _

theorem MemberId.HasViewSignature.congr {a b : MemberId} (ha : a.HasViewSignature) (h : a.same b = true) :
    b.HasViewSignature := by
  have hsignature := congrArg MemberId.signature (same_iff.1 h)
  have hsignature : a.signature = b.signature := hsignature
  unfold HasViewSignature
  rwa [← hsignature]

/-- What a planned view is like: it has the accessor that is made for it, lists the members that are viewed through its
interface, and has its reference from one of them. -/
structure View.PlannedFor (v : View) (t : TypeSymbol) : Prop where
  accessor : v.accessorId = View.accessorIdFor t.id v.interface v.interfaceId
  members : v.members.Perm (((t.members.infos.map (·.2)).filter fun info =>
    decide (info.viewInterface? = some v.interfaceId) && View.concerns info).map (·.id))
  reference : ∃ x ∈ t.members.infos, x.2.id ∈ v.members ∧ x.2.viewInterface? = some v.interfaceId ∧
    v.interface = View.interfaceOf t x.2 v.interfaceId

namespace View.PlannedFor

variable {v : View} {t : TypeSymbol}

theorem exists_info (h : v.PlannedFor t) {id : MemberId} (hid : id ∈ v.members) :
    ∃ x ∈ t.members.infos, x.2.id = id ∧ View.concerns x.2 = true ∧ x.2.viewInterface? = some v.interfaceId := by
  obtain ⟨info, hinfo, rfl⟩ := List.mem_map.1 (h.members.mem_iff.1 hid)
  obtain ⟨hinfo, hviewed⟩ := List.mem_filter.1 hinfo
  obtain ⟨x, hx, rfl⟩ := List.mem_map.1 hinfo
  rw [Bool.and_eq_true, decide_eq_true_iff] at hviewed
  exact ⟨x, hx, rfl, hviewed.2, hviewed.1⟩

/-- The members of a planned view are told apart. -/
theorem pairwise_members (h : v.PlannedFor t) (ho : t.OwnsMembers) :
    v.members.Pairwise fun a b => a.same b = false := by
  refine List.Pairwise.perm ?_ h.members.symm fun {a b} hab => by rwa [MemberId.same_comm]
  rw [List.pairwise_map]
  exact List.Pairwise.filter _ (List.pairwise_map.2 (List.pairwise_map.1 ho.distinct))

end View.PlannedFor

namespace TypeSymbol

/-- The type has no views yet, and no member that could be taken for the accessor of one. -/
structure Plain (t : TypeSymbol) : Prop where
  views : t.views = []
  signatures : ∀ id ∈ t.memberIds, ¬id.HasViewSignature

/-- There is one view for each interface, given by the accessor made for it, and the members it lists are on no
surface and are reached through its interface. -/
structure ViewsPlanned (t : TypeSymbol) : Prop where
  apart : t.views.Pairwise fun v w => v.interfaceId ≠ w.interfaceId
  accessor : ∀ v ∈ t.views, v.accessorId = View.accessorIdFor t.id v.interface v.interfaceId
  listed : ∀ v ∈ t.views, ∀ id ∈ v.members, ∃ x ∈ t.members.infos,
    x.2.id = id ∧ x.2.placement = .viewOnly ∧ x.2.viewInterface? = some v.interfaceId

/-- The group of an interface is made of the members that are viewed through it. -/
theorem group_of_viewed (t : TypeSymbol) (infos : List MemberInfo) (key : TypeId) :
    (((infos.filterMap fun info => info.viewInterface?.map fun id => (id, info)).map fun x =>
        (x.1, (View.interfaceOf t x.2 x.1, x.2.id))).filter (·.1 = key)).map (·.2) =
      (infos.filter fun info => decide (info.viewInterface? = some key)).map fun info =>
        (View.interfaceOf t info key, info.id) := by
  induction infos with
  | nil => rfl
  | cons info rest ih =>
    cases hview : info.viewInterface? with
    | none => simpa [hview] using ih
    | some id =>
      by_cases hkey : id = key
      · subst hkey
        simpa [hview] using ih
      · simpa [hview, hkey] using ih

/-- The views of a plan are such views. -/
theorem plannedFor_of_mem_planViews {t : TypeSymbol} {v : View} (hv : v ∈ t.planViews.views) : v.PlannedFor t := by
  unfold planViews at hv
  simp only at hv
  obtain ⟨⟨key, group⟩, hgroup, hview⟩ := List.mem_filterMap.1 hv
  obtain ⟨first, hfirst, rfl⟩ := Option.map_eq_some_iff.1 hview
  obtain ⟨-, hgroup⟩ := Grouping.mem_groups.1 (List.mem_mergeSort.1 hgroup)
  rw [group_of_viewed, List.filter_filter] at hgroup
  subst hgroup
  refine ⟨rfl, ?_, ?_⟩
  · refine (List.mergeSort_perm _ _).trans (List.Perm.of_eq ?_)
    rw [List.map_map]
    rfl
  · have hfirst := List.mem_of_mem_head? hfirst
    obtain ⟨info, hinfo, rfl⟩ := List.mem_map.1 hfirst
    obtain ⟨hinfo, hviewed⟩ := List.mem_filter.1 hinfo
    obtain ⟨x, hx, rfl⟩ := List.mem_map.1 hinfo
    refine ⟨x, hx, List.mem_mergeSort.2 (List.mem_map_of_mem (f := Prod.snd) hfirst), ?_, rfl⟩
    exact of_decide_eq_true (Bool.and_eq_true_iff.1 hviewed).1

theorem interfaceIds_planViews (t : TypeSymbol) :
    t.planViews.views.Pairwise fun v w => v.interfaceId ≠ w.interfaceId := by
  unfold planViews
  simp only
  rw [List.pairwise_filterMap]
  -- the groups have distinct keys, and a view has the key of its group
  refine (Grouping.pairwise_mergeSort_groups _ _).imp ?_
  intro p q hpq v hv w hw
  obtain ⟨_, -, rfl⟩ := Option.map_eq_some_iff.1 hv
  obtain ⟨_, -, rfl⟩ := Option.map_eq_some_iff.1 hw
  exact hpq

theorem mem_moved_planViews {t : TypeSymbol} {id : MemberId} :
    id ∈ t.planViews.moved ↔ ∃ x ∈ t.members.infos, View.concerns x.2 = true ∧ x.2.viewInterface?.isSome = true ∧
      x.2.placement ≠ .viewOnly ∧ x.2.id = id := by
  simp only [planViews, List.mem_map, List.mem_filter, List.mem_filterMap, decide_eq_true_eq]
  constructor
  · rintro ⟨⟨key, info⟩, ⟨⟨info', ⟨⟨x, hx, rfl⟩, hc⟩, hi⟩, hp⟩, rfl⟩
    obtain ⟨_, hk, heq⟩ := Option.map_eq_some_iff.1 hi
    obtain ⟨rfl, rfl⟩ := Prod.mk.inj heq
    exact ⟨x, hx, hc, by simp [hk], hp, rfl⟩
  · rintro ⟨x, hx, hc, hi, hp, rfl⟩
    obtain ⟨key, hk⟩ := Option.isSome_iff_exists.1 hi
    exact ⟨(key, x.2), ⟨⟨x.2, ⟨⟨x, hx, rfl⟩, hc⟩, by simp [hk]⟩, hp⟩, rfl⟩

/-- The members of a view are on no surface once the plan is carried out. -/
theorem placement_moveInfo_of_viewed {t : TypeSymbol} {x : MemberKind × MemberInfo} (hx : x ∈ t.members.infos)
    (hc : View.concerns x.2 = true) (hi : x.2.viewInterface?.isSome = true) :
    (t.planViews.moveInfo x.2).placement = .viewOnly := by
  unfold ViewPlan.moveInfo
  split
  · rfl
  · rename_i hmoved
    by_contra hp
    exact hmoved (List.any_eq_true.2 ⟨x.2.id, mem_moved_planViews.2 ⟨x, hx, hc, hi, hp, rfl⟩, by simp⟩)

@[simp] theorem moveInfo_id (p : ViewPlan) (info : MemberInfo) : (p.moveInfo info).id = info.id := by
  rw [ViewPlan.moveInfo_frame]

@[simp] theorem moveInfo_viewInterface? (p : ViewPlan) (info : MemberInfo) :
    (p.moveInfo info).viewInterface? = info.viewInterface? := by
  rw [ViewPlan.moveInfo_frame]
  rfl

/-- A member that is concerned and has an interface is listed by the view of that interface. -/
theorem exists_view_of_concerned {t : TypeSymbol} {x : MemberKind × MemberInfo} (hx : x ∈ t.members.infos)
    (hc : View.concerns x.2 = true) {key : TypeId} (hkey : x.2.viewInterface? = some key) :
    ∃ v ∈ t.planViews.views, v.holds x.2.id = true := by
  have hentry : (key, (View.interfaceOf t x.2 key, x.2.id)) ∈
      (((t.members.infos.map (·.2)).filter View.concerns).filterMap fun info =>
        info.viewInterface?.map fun id => (id, info)).map fun x => (x.1, (View.interfaceOf t x.2 x.1, x.2.id)) := by
    refine List.mem_map.2 ⟨(key, x.2), List.mem_filterMap.2 ⟨x.2, ?_, by simp [hkey]⟩, rfl⟩
    exact List.mem_filter.2 ⟨List.mem_map_of_mem hx, hc⟩
  obtain ⟨group, hgroup⟩ := Grouping.exists_mem_groups hentry
  have hmem : (View.interfaceOf t x.2 key, x.2.id) ∈ group := by
    obtain ⟨-, rfl⟩ := Grouping.mem_groups.1 hgroup
    exact List.mem_map.2 ⟨_, List.mem_filter.2 ⟨hentry, by simp⟩, rfl⟩
  obtain ⟨first, hfirst⟩ := Option.isSome_iff_exists.1 (List.isSome_head?.2 (List.ne_nil_of_mem hmem))
  refine ⟨_, List.mem_filterMap.2 ⟨(key, group), List.mem_mergeSort.2 hgroup,
    Option.map_eq_some_iff.2 ⟨first, hfirst, rfl⟩⟩, ?_⟩
  refine List.any_eq_true.2 ⟨x.2.id, List.mem_mergeSort.2 ?_, MemberId.same_refl _⟩
  exact List.mem_map_of_mem (f := Prod.snd) hmem

theorem mem_orphans_planViews {t : TypeSymbol} {id : MemberId} :
    id ∈ t.planViews.orphans ↔ ∃ x ∈ t.members.infos, View.concerns x.2 = true ∧ x.2.viewInterface? = none ∧
      x.2.id = id := by
  simp only [planViews, sortMembers, List.mem_mergeSort, List.mem_map, List.mem_filter, Option.isNone_iff_eq_none]
  constructor
  · rintro ⟨info, ⟨⟨⟨x, hx, rfl⟩, hc⟩, hi⟩, rfl⟩
    exact ⟨x, hx, hc, hi, rfl⟩
  · rintro ⟨x, hx, hc, hi, rfl⟩
    exact ⟨x.2, ⟨⟨⟨x, hx, rfl⟩, hc⟩, hi⟩, rfl⟩

/-- A member that has to move is in some view. -/
theorem moved_of_views_eq_nil {t : TypeSymbol} (h : t.planViews.views = []) : t.planViews.moved = [] := by
  rw [List.eq_nil_iff_forall_not_mem]
  intro id hid
  obtain ⟨x, hx, hc, hi, -, -⟩ := mem_moved_planViews.1 hid
  obtain ⟨key, hkey⟩ := Option.isSome_iff_exists.1 hi
  obtain ⟨v, hv, -⟩ := exists_view_of_concerned hx hc hkey
  simp [h] at hv

/-- Carrying a plan out changes what it moves, also where there is nothing to do. -/
theorem members_applyTo_planViews (t : TypeSymbol) :
    (t.planViews.applyTo t).members = t.members.mapInfo fun _ => t.planViews.moveInfo := by
  by_cases h : t.planViews.views = []
  · have hstay : ∀ info, t.planViews.moveInfo info = info := by
      intro info
      simp [ViewPlan.moveInfo, moved_of_views_eq_nil h]
    simp [ViewPlan.applyTo, h, Members.mapInfo, hstay]
  · simp [ViewPlan.applyTo, h]

/-- Which members have to move, by their identities. -/
theorem OwnsMembers.any_moved_iff {t : TypeSymbol} (h : t.OwnsMembers) {x : MemberKind × MemberInfo}
    (hx : x ∈ t.members.infos) :
    t.planViews.moved.any (·.same x.2.id) = true ↔
      View.concerns x.2 = true ∧ x.2.viewInterface?.isSome = true ∧ x.2.placement ≠ .viewOnly := by
  rw [List.any_eq_true]
  constructor
  · rintro ⟨id, hid, hsame⟩
    obtain ⟨y, hy, hc, hi, hp, rfl⟩ := mem_moved_planViews.1 hid
    obtain rfl := h.eq_of_same hy hx hsame
    exact ⟨hc, hi, hp⟩
  · rintro ⟨hc, hi, hp⟩
    exact ⟨x.2.id, mem_moved_planViews.2 ⟨x, hx, hc, hi, hp, rfl⟩, by simp⟩

/-- What is on a surface stays there unless it implements a known interface explicitly. -/
theorem OwnsMembers.onPrimarySurface_moveInfo {t : TypeSymbol} (h : t.OwnsMembers) {x : MemberKind × MemberInfo}
    (hx : x ∈ t.members.infos) :
    (t.planViews.moveInfo x.2).onPrimarySurface =
      (x.2.onPrimarySurface && !(x.2.isExplicit && x.2.viewInterface?.isSome)) := by
  have hmoved := h.any_moved_iff hx
  unfold ViewPlan.moveInfo
  by_cases hm : t.planViews.moved.any (·.same x.2.id) = true
  · obtain ⟨hc, hi, hp⟩ := hmoved.1 hm
    rw [if_pos hm]
    cases hplacement : x.2.placement <;>
      simp_all [View.concerns, MemberInfo.onPrimarySurface, Placement.isPrimary]
  · rw [if_neg hm]
    rw [hmoved] at hm
    cases hplacement : x.2.placement <;> cases hexplicit : x.2.isExplicit <;>
      simp_all [View.concerns, MemberInfo.onPrimarySurface, Placement.isPrimary]

@[simp] theorem memberIds_applyTo (p : ViewPlan) (t : TypeSymbol) : (p.applyTo t).memberIds = t.memberIds := by
  by_cases h : p.views = []
  · simp [ViewPlan.applyTo, h]
  · simp [memberIds, ViewPlan.infos_applyTo h]

theorem viewsPlanned_applyTo {t : TypeSymbol} (h : t.Plain) : (t.planViews.applyTo t).ViewsPlanned := by
  by_cases hviews : t.planViews.views = []
  · have happly : t.planViews.applyTo t = t := by simp [ViewPlan.applyTo, hviews]
    rw [happly]
    exact ⟨by simp [h.views], by simp [h.views], by simp [h.views]⟩
  · have happly : (t.planViews.applyTo t).views = t.planViews.views := by simp [ViewPlan.applyTo, hviews]
    refine ⟨?_, ?_, ?_⟩
    · rw [happly]
      exact interfaceIds_planViews t
    · rw [happly, ViewPlan.applyTo_id]
      exact fun v hv => (plannedFor_of_mem_planViews hv).accessor
    · rw [happly, ViewPlan.infos_applyTo hviews]
      intro v hv id hid
      obtain ⟨x, hx, rfl, hc, hi⟩ := (plannedFor_of_mem_planViews hv).exists_info hid
      refine ⟨(x.1, t.planViews.moveInfo x.2), List.mem_map.2 ⟨x, hx, rfl⟩, by simp, ?_, by simpa using hi⟩
      exact placement_moveInfo_of_viewed hx hc (by simp [hi])

/-- There is one view for an interface. -/
theorem ViewsPlanned.eq_of_interfaceId {t : TypeSymbol} (hv : t.ViewsPlanned) {v w : View} (hvt : v ∈ t.views)
    (hwt : w ∈ t.views) (h : v.interfaceId = w.interfaceId) : v = w := by
  have hids : (t.views.map (·.interfaceId)).Nodup := List.pairwise_map.2 hv.apart
  exact List.inj_on_of_nodup_map hids hvt hwt h

/-- A view that lists a member is the view of the interface that the member is reached through. -/
theorem ViewsPlanned.eq_of_holds {t : TypeSymbol} (hv : t.ViewsPlanned) (ho : t.OwnsMembers)
    {x : MemberKind × MemberInfo} (hx : x ∈ t.members.infos) {v w : View} (hvt : v ∈ t.views) (hwt : w ∈ t.views)
    (hvx : v.holds x.2.id = true) (hwx : w.holds x.2.id = true) : v = w := by
  have hreached : ∀ u ∈ t.views, u.holds x.2.id = true → x.2.viewInterface? = some u.interfaceId := by
    intro u hu hux
    obtain ⟨id, hid, hsame⟩ := List.any_eq_true.1 hux
    obtain ⟨y, hy, rfl, -, hi⟩ := hv.listed u hu id hid
    rwa [← ho.eq_of_same hy hx hsame]
  exact hv.eq_of_interfaceId hvt hwt (Option.some.inj ((hreached v hvt hvx).symm.trans (hreached w hwt hwx)))

theorem ViewsPlanned.placement_of_holds {t : TypeSymbol} (hv : t.ViewsPlanned) (ho : t.OwnsMembers)
    {x : MemberKind × MemberInfo} (hx : x ∈ t.members.infos) {v : View} (hvt : v ∈ t.views)
    (hvx : v.holds x.2.id = true) : x.2.placement = .viewOnly := by
  obtain ⟨id, hid, hsame⟩ := List.any_eq_true.1 hvx
  obtain ⟨y, hy, rfl, hp, -⟩ := hv.listed v hvt id hid
  rwa [← ho.eq_of_same hy hx hsame]

end TypeSymbol

end Exonym
