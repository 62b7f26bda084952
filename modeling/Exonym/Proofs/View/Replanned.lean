import Exonym.Proofs.View.Planned

/-!
# Planning views again

A plan is carried out by moving members into views. The members that have moved are those that are viewed, so planning
again gives the same views, and nothing is left to move.

Main statements:

* `TypeSymbol.views_planViews_congr`: what the views of a plan depend on.
* `TypeSymbol.OwnsMembers.applyTo_planViews`: a plan that has been carried out is a plan for what came out.
-/

namespace Exonym

namespace TypeSymbol

variable {t t' : TypeSymbol} {f : MemberInfo → MemberInfo}

/-- The views that are planned for a type depend on its identity, on its interfaces, and on which members are viewed
through which interface. -/
theorem views_planViews_congr (hid : t'.id = t.id) (hinterfaces : t'.interfaces = t.interfaces)
    (hinfos : t'.members.infos.map (·.2) = (t.members.infos.map (·.2)).map f)
    (hf : ∀ x ∈ t.members.infos, (f x.2).id = x.2.id ∧ (f x.2).explicitInterface = x.2.explicitInterface ∧
      (f x.2).sourceInterface = x.2.sourceInterface ∧ View.concerns (f x.2) = View.concerns x.2) :
    t'.planViews.views = t.planViews.views := by
  have hconcerned : (t'.members.infos.map (·.2)).filter View.concerns =
      ((t.members.infos.map (·.2)).filter View.concerns).map f := by
    rw [hinfos, List.filter_map]
    refine congrArg (List.map f) (List.filter_congr ?_)
    intro info hinfo
    obtain ⟨x, hx, rfl⟩ := List.mem_map.1 hinfo
    exact (hf x hx).2.2.2
  have hviewed : ∀ info ∈ (t.members.infos.map (·.2)).filter View.concerns,
      ((f info).viewInterface?.map fun id => (id, (View.interfaceOf t' (f info) id, (f info).id))) =
        info.viewInterface?.map fun id => (id, (View.interfaceOf t info id, info.id)) := by
    intro info hinfo
    obtain ⟨x, hx, rfl⟩ := List.mem_map.1 (List.mem_filter.1 hinfo).1
    obtain ⟨hxid, hexplicit, hsource, -⟩ := hf x hx
    unfold MemberInfo.viewInterface? View.interfaceOf
    rw [hxid, hexplicit, hsource, hinterfaces]
  unfold planViews
  simp only [hconcerned, hid, List.map_filterMap, List.filterMap_map, Option.map_map, Function.comp_def] at hviewed ⊢
  rw [List.filterMap_congr hviewed]

theorem OwnsMembers.concerns_moveInfo (h : t.OwnsMembers) {x : MemberKind × MemberInfo} (hx : x ∈ t.members.infos) :
    View.concerns (t.planViews.moveInfo x.2) = View.concerns x.2 := by
  unfold ViewPlan.moveInfo
  split
  · rename_i hmoved
    obtain ⟨id, hid, hsame⟩ := List.any_eq_true.1 hmoved
    obtain ⟨y, hy, hc, -, -, rfl⟩ := mem_moved_planViews.1 hid
    rw [← h.eq_of_same hy hx hsame, hc]
    simp [View.concerns]
  · rfl

/-- A plan with the views that are there, which moves nothing, leaves a type as it is. -/
theorem applyTo_eq_self {p : ViewPlan} (hviews : p.views = t.views) (hmoved : p.moved = []) : p.applyTo t = t := by
  have hmembers : (t.members.mapInfo fun _ => p.moveInfo) = t.members :=
    Members.mapInfo_eq_self_iff.2 fun x _ => by simp [ViewPlan.moveInfo, hmoved]
  unfold ViewPlan.applyTo
  split
  · rfl
  · rw [hmembers, hviews]

/-- A type that its plan was carried out on is left as it is by the plan that is made for it then. -/
theorem OwnsMembers.applyTo_planViews (h : t.OwnsMembers) :
    (t.planViews.applyTo t).planViews.applyTo (t.planViews.applyTo t) = t.planViews.applyTo t := by
  by_cases hviews : t.planViews.views = []
  · have happly : t.planViews.applyTo t = t := by simp [ViewPlan.applyTo, hviews]
    rw [happly, happly]
  · have hinfos := ViewPlan.infos_applyTo hviews t
    -- the second plan has the same views, and what they list has been moved already
    refine applyTo_eq_self ?_ ?_
    · have hplanned : (t.planViews.applyTo t).views = t.planViews.views := by simp [ViewPlan.applyTo, hviews]
      have hinterfaces : (t.planViews.applyTo t).interfaces = t.interfaces := by
        rw [ViewPlan.applyTo_frame]
      rw [hplanned]
      refine views_planViews_congr (f := t.planViews.moveInfo) (ViewPlan.applyTo_id _ t) hinterfaces ?_ ?_
      · simp [hinfos, Function.comp_def]
      · intro x hx
        refine ⟨moveInfo_id _ x.2, ?_, ?_, h.concerns_moveInfo hx⟩ <;> rw [ViewPlan.moveInfo_frame]
    · refine List.eq_nil_iff_forall_not_mem.2 fun id hid => ?_
      obtain ⟨x, hx, hc, hi, hp, -⟩ := mem_moved_planViews.1 hid
      rw [hinfos] at hx
      obtain ⟨y, hy, rfl⟩ := List.mem_map.1 hx
      have hyc : View.concerns y.2 = true := by rwa [← h.concerns_moveInfo hy]
      exact hp (placement_moveInfo_of_viewed hy hyc (by simpa using hi))

end TypeSymbol

end Exonym
