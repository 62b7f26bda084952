import Exonym.Proofs.Order.Reordered
import Exonym.Proofs.View.Planned

/-!
# What view planning sees of how members are listed

The members of a type fall into the same views in any order, and the views list them in an order of their own. Only the
reference to the interface is that of the member that is listed first, and with it go the name of the accessor and the
text of the notice. So the plans for two types that are alike correspond, and say the same exactly when their views
refer to their interfaces in the same way.

Main statements:

* `TypeSymbol.Alike.planViews`: the plans for types that are alike correspond.
* `ViewPlan.Corresponds.applyTo`: types stay alike when plans that correspond are carried out.
* `ViewPlan.Corresponds.diagnostics_eq_iff`: when the same is said about both plans.
-/

namespace Exonym

/-! ## Views that correspond -/

/-- How a view refers to its interface, as far as it is seen: the name that the accessor is made of and the text. -/
def View.reference (v : View) : String × String :=
  (v.interface.shortName, v.interface.text)

/-- Views of one interface with the same members, but perhaps with different references to it. -/
structure View.Corresponds (v w : View) : Prop where
  interfaceId : w.interfaceId = v.interfaceId
  members : w.members = v.members
  accessorName : w.accessorName = v.accessorName
  accessorId : w.interface.shortName = v.interface.shortName → w.accessorId = v.accessorId

/-- Views that correspond and refer to their interface in the same way. -/
structure View.Alike (v w : View) : Prop extends View.Corresponds v w where
  reference : w.reference = v.reference

namespace View

theorem corresponds_refl (v : View) : v.Corresponds v :=
  ⟨rfl, rfl, rfl, fun _ => rfl⟩

variable {v w : View}

theorem Alike.shortName_eq (h : v.Alike w) : w.interface.shortName = v.interface.shortName :=
  (Prod.mk.inj h.reference).1

theorem Alike.accessorId_eq (h : v.Alike w) : w.accessorId = v.accessorId :=
  h.accessorId h.shortName_eq

theorem Corresponds.holds_eq (h : v.Corresponds w) : w.holds = v.holds := by
  funext id
  unfold holds
  rw [h.members]

theorem forall₂_alike_iff {vs ws : List View} (h : List.Forall₂ Corresponds vs ws) :
    List.Forall₂ Alike vs ws ↔ ws.map reference = vs.map reference := by
  rw [eq_comm, map_eq_map_iff]
  refine forall₂_iff (h.imp fun v w hvw => ?_)
  exact ⟨fun halike => halike.reference.symm, fun href => ⟨hvw, href.symm⟩⟩

end View

/-! ## Plans that correspond -/

/-- Plans with views that correspond, for the same members. -/
structure ViewPlan.Corresponds (p p' : ViewPlan) : Prop where
  views : List.Forall₂ View.Corresponds p.views p'.views
  moved : p.moved.Perm p'.moved
  orphans : p'.orphans = p.orphans

namespace TypeSymbol

variable {t t' : TypeSymbol}

/-- Members of one type have one place in the order of identities. -/
theorem OwnsMembers.sortMembers_eq (h : t.OwnsMembers) {ids ids' : List MemberId} (hperm : ids.Perm ids')
    (hids : ∀ id ∈ ids, id ∈ t.memberIds) : sortMembers ids' = sortMembers ids := by
  refine (sort_eq_of_perm (c := compare) (k := fun id => id) hperm ?_).symm
  intro a ha b hb hab
  obtain ⟨x, hx, rfl⟩ := List.mem_map.1 (hids a ha)
  obtain ⟨y, hy, rfl⟩ := List.mem_map.1 (hids b hb)
  rw [h.eq_of_same hx hy (MemberId.same_iff.2 (MemberId.compare_eq_iff.1 hab))]

theorem Alike.interfaceOf_eq {R : View → View → Prop} (h : t.Alike R t') (info : MemberInfo) (interfaceId : TypeId) :
    View.interfaceOf t' info interfaceId = View.interfaceOf t info interfaceId :=
  h.agree (View.interfaceOf · info interfaceId) fun _ _ => rfl

theorem Alike.planViews {R : View → View → Prop} (h : t.Alike R t') (ho : t.OwnsMembers) :
    t.planViews.Corresponds t'.planViews := by
  have hconcerned : ((t.members.infos.map (·.2)).filter View.concerns).Perm
      ((t'.members.infos.map (·.2)).filter View.concerns) :=
    (h.members.infos.map _).filter _
  have hviewed := hconcerned.filterMap fun info => info.viewInterface?.map fun id => (id, info)
  refine ⟨?_, (hviewed.filter _).map _, ?_⟩
  · unfold TypeSymbol.planViews
    simp only [h.interfaceOf_eq, h.id_eq]
    -- a view is made of a group, and the groups of both lists have the same elements
    refine List.rel_filterMap ?_ (forall₂_imp_of_mem (S := fun p q => (∀ m ∈ p.2, m.2 ∈ t.memberIds) ∧ p.1 = q.1 ∧
      p.2.Perm q.2) (Grouping.forall₂_sort_groups (fun _ _ => TypeId.compare_eq_iff.1) (hviewed.map _)) ?_)
    · rintro ⟨key, group⟩ ⟨_, group'⟩ ⟨hids, rfl, hperm⟩
      cases group with
      | nil =>
        obtain rfl := hperm.nil_eq
        exact .none
      | cons m rest =>
        cases group' with
        | nil => simp at hperm
        | cons m' rest' =>
          refine .some ⟨rfl, ?_, rfl, ?_⟩
          · refine ho.sortMembers_eq (hperm.map _) ?_
            intro id hid
            obtain ⟨m, hm, rfl⟩ := List.mem_map.1 hid
            exact hids m hm
          · intro hshort
            simp only at hshort
            simp only [View.accessorIdFor, hshort]
    · rintro ⟨key, group⟩ hgroup q _ hq
      refine ⟨?_, hq⟩
      obtain ⟨-, rfl⟩ := Grouping.mem_groups.1 (List.mem_mergeSort.1 hgroup)
      intro m hm
      simp only [group_of_viewed, List.mem_map, List.mem_filter] at hm
      obtain ⟨_, ⟨⟨⟨x, hx, rfl⟩, -⟩, -⟩, rfl⟩ := hm
      exact List.mem_map_of_mem hx
  · refine ho.sortMembers_eq ((hconcerned.filter _).map _) ?_
    intro id hid
    simp only [List.mem_map, List.mem_filter] at hid
    obtain ⟨info, ⟨⟨⟨x, hx, rfl⟩, -⟩, -⟩, rfl⟩ := hid
    exact List.mem_map_of_mem hx

end TypeSymbol

namespace ViewPlan

variable {p p' : ViewPlan} {t t' : TypeSymbol}

theorem Corresponds.moveInfo_eq (h : p.Corresponds p') : p'.moveInfo = p.moveInfo := by
  funext info
  unfold moveInfo
  rw [h.moved.any_eq]

/-- Types stay alike when plans that correspond are carried out; a type without planned views keeps those it has. -/
theorem Corresponds.applyTo {R : View → View → Prop} (h : p.Corresponds p') (hrefl : ∀ v, R v v)
    (hviews : List.Forall₂ R p.views p'.views) (ht : t.Alike Eq t') : (p.applyTo t).Alike R (p'.applyTo t') := by
  have hempty : p'.views.isEmpty = p.views.isEmpty := by
    rw [Bool.eq_iff_iff, List.isEmpty_iff_length_eq_zero, List.isEmpty_iff_length_eq_zero, hviews.length_eq]
  unfold ViewPlan.applyTo
  rw [hempty, h.moveInfo_eq]
  by_cases hnone : p.views.isEmpty = true
  · rw [if_pos hnone, if_pos hnone]
    exact ht.imp fun v w hvw => hvw ▸ hrefl v
  · rw [if_neg hnone, if_neg hnone]
    refine ⟨ht.members.mapInfo fun _ => p.moveInfo, hviews, ?_⟩
    rw [ht.rest]

/-- Carrying out plans that correspond makes the same references as there are in the plans. -/
theorem Corresponds.references_eq_iff (h : p.Corresponds p') (ht : t.Alike Eq t') :
    (p'.applyTo t').views.map View.reference = (p.applyTo t).views.map View.reference ↔
      p'.views.map View.reference = p.views.map View.reference := by
  have hviews := h.views
  unfold ViewPlan.applyTo
  generalize p.views = views, p'.views = views' at hviews
  cases hviews with
  | nil =>
    have hsame : t.views = t'.views := by
      have := ht.views
      rwa [List.forall₂_eq_eq_eq] at this
    simp [hsame]
  | cons _ _ => simp

/-- What holds of views once they are carried out holds of them in the plans. -/
theorem Corresponds.forall₂_views {R : View → View → Prop} (h : p.Corresponds p')
    (hviews : List.Forall₂ R (p.applyTo t).views (p'.applyTo t').views) : List.Forall₂ R p.views p'.views := by
  have hall := h.views
  unfold ViewPlan.applyTo at hviews
  generalize p.views = views, p'.views = views' at hall hviews
  cases hall with
  | nil => exact .nil
  | cons _ _ => simpa using hviews

theorem Corresponds.length_notices (h : p.Corresponds p') (owner owner' : TypeId) :
    (p.notices owner).length = (p'.notices owner').length := by
  simp only [notices, List.length_map, List.length_append, h.orphans, h.views.length_eq]

variable {v w : View}

theorem diagnostic_planned_eq_iff (h : v.Corresponds w) (hshort : w.interface.shortName = v.interface.shortName)
    (owner : TypeId) :
    (ViewNotice.planned owner w).diagnostic = (ViewNotice.planned owner v).diagnostic ↔ w.reference = v.reference := by
  simp only [ViewNotice.diagnostic, Diagnostic.about, View.reference]
  rw [h.members, h.accessorId hshort, hshort]
  simp [String.append_right_inj, String.append_left_inj]

/-- If the accessors have the same names, the same is said about both plans exactly when the references are the same. -/
theorem Corresponds.diagnostics_eq_iff (h : p.Corresponds p')
    (hshort : List.Forall₂ (fun v w => w.interface.shortName = v.interface.shortName) p.views p'.views)
    (owner : TypeId) :
    (p'.notices owner).map (·.diagnostic) = (p.notices owner).map (·.diagnostic) ↔
      p'.views.map View.reference = p.views.map View.reference := by
  have hviews := h.views
  unfold notices
  rw [h.orphans]
  simp only [List.map_append, List.map_map, List.append_cancel_left_eq]
  generalize p.views = views, p'.views = views' at hviews hshort
  induction hviews with
  | nil => simp
  | cons hvw _ ih =>
    cases hshort with
    | cons hhead htail =>
      simp only [List.map_cons, List.cons.injEq, Function.comp_apply, ih htail, diagnostic_planned_eq_iff hvw hhead]

end ViewPlan

/-! ## Graphs -/

namespace SymbolGraph

/-- How the views of a graph refer to their interfaces, type by type. -/
def viewReferences (g : SymbolGraph) : List (List (String × String)) :=
  g.types.map fun t => t.views.map View.reference

variable {g g' : SymbolGraph}

theorem Alike.planViews_corresponds (h : g.Alike Eq g') (hg : g.Consistent) :
    List.Forall₂ (fun t t' => t.Alike Eq t' ∧ t.planViews.Corresponds t'.planViews) g.types g'.types :=
  forall₂_imp_of_mem h.types fun t ht _ _ halike => ⟨halike, halike.planViews (hg.members t ht)⟩

/-- Planned views correspond. -/
theorem Alike.planViews (h : g.Alike Eq g') (hg : g.Consistent) :
    g.planViews.1.Alike View.Corresponds g'.planViews.1 := by
  refine ⟨?_, h.aliases⟩
  unfold SymbolGraph.planViews
  rw [types_mapTypes, types_mapTypes, List.forall₂_map_left_iff, List.forall₂_map_right_iff]
  refine (h.planViews_corresponds hg).imp ?_
  rintro t t' ⟨halike, hplans⟩
  exact hplans.applyTo View.corresponds_refl hplans.views halike

/-- Graphs with corresponding views are alike if their views refer to their interfaces in the same way. -/
theorem alike_of_viewReferences (h : g.Alike View.Corresponds g') (href : g'.viewReferences = g.viewReferences) :
    g.Alike View.Alike g' := by
  refine ⟨?_, h.aliases⟩
  refine (forall₂_and h.types (map_eq_map_iff.1 href.symm)).imp ?_
  rintro t t' ⟨halike, hrefs⟩
  exact ⟨halike.members, (View.forall₂_alike_iff halike.views).2 hrefs.symm, halike.rest⟩

/-- There are as many things to say about the views. -/
theorem Alike.length_planViews (h : g.Alike Eq g') (hg : g.Consistent) :
    g'.planViews.2.length = g.planViews.2.length := by
  unfold SymbolGraph.planViews
  rw [List.length_flatMap, List.length_flatMap]
  rw [map_eq_of_forall₂ (h.planViews_corresponds hg) fun t t' ht => ht.2.length_notices t.id t'.id]

/-- If accessors have the same names, the same is said about the views exactly when the references are the same. -/
theorem Alike.diagnostics_planViews_eq_iff (h : g.Alike Eq g') (hg : g.Consistent)
    (hshort : g.planViews.1.Alike (fun v w => w.interface.shortName = v.interface.shortName) g'.planViews.1) :
    g'.planViews.2.map (·.diagnostic) = g.planViews.2.map (·.diagnostic) ↔
      g'.planViews.1.viewReferences = g.planViews.1.viewReferences := by
  have hplanned : List.Forall₂ (fun t t' => List.Forall₂ (fun v w => w.interface.shortName = v.interface.shortName)
      (t.planViews.applyTo t).views (t'.planViews.applyTo t').views) g.types g'.types := by
    have htypes := hshort.types
    unfold SymbolGraph.planViews at htypes
    rw [types_mapTypes, types_mapTypes, List.forall₂_map_left_iff, List.forall₂_map_right_iff] at htypes
    exact htypes.imp fun _ _ halike => halike.views
  have hall := forall₂_and (h.planViews_corresponds hg) hplanned
  unfold SymbolGraph.planViews viewReferences
  rw [List.map_flatMap, List.map_flatMap, types_mapTypes, types_mapTypes, List.map_map, List.map_map, eq_comm,
    @eq_comm _ (g'.types.map _), map_eq_map_iff, flatMap_eq_flatMap_iff]
  · refine forall₂_iff (hall.imp ?_)
    rintro t t' ⟨⟨halike, hplans⟩, hviews⟩
    rw [halike.id_eq, eq_comm, hplans.diagnostics_eq_iff (hplans.forall₂_views hviews), eq_comm (a := (_ ∘ _) _)]
    exact (hplans.references_eq_iff halike).symm
  · refine hall.imp ?_
    rintro t t' ⟨⟨-, hplans⟩, -⟩
    rw [List.length_map, List.length_map, hplans.length_notices]

end SymbolGraph

end Exonym
