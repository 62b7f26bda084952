import Exonym.Proofs.Graph.Traverse
import Exonym.Proofs.View.Replanned
import Exonym.Sample.Gallery

/-!
# What becomes of every member

Planning views sorts the members of a type out. A member is left out and nothing is said about it, or one view lists it,
or it is reported for want of an interface to reach it through, or it stays on a surface. There is one kind of member
that is none of this: an explicit implementation of something that has no identity, such as a generic parameter, is
reported as if it were on no surface, but nothing takes it off the surface it is on.

Main statements:

* `TypeSymbol.OwnsMembers.listings_applyTo`: which views list a member, and how often.
* `SymbolGraph.Consistent.count_reports`: which members are reported, and how often.
* `SymbolGraph.viewsAccounted_of_build`: every member has one fate, unless it is stranded.
* `SymbolGraph.stranded_of_crate`: a member that is stranded.
-/

namespace Exonym

namespace MemberId

/-- Among identities that are told apart, one that is listed is listed once. -/
theorem countP_same {ids : List MemberId} (h : ids.Pairwise fun a b => a.same b = false) (id : MemberId) :
    ids.countP (·.same id) = if ids.any (·.same id) then 1 else 0 := by
  induction ids with
  | nil => rfl
  | cons first rest ih =>
    obtain ⟨hfirst, hrest⟩ := List.pairwise_cons.1 h
    rw [List.countP_cons, ih hrest, List.any_cons]
    cases hsame : first.same id with
    | false => simp
    | true =>
      have hnone : rest.any (·.same id) = false := by
        rw [List.any_eq_false]
        intro other hother
        rw [same_comm, ← same_congr hsame, hfirst other hother]
        decide
      simp [hnone]

end MemberId

namespace View

/-- The view is of the interface that its reference points at, or has a reference made from the identity. -/
def RefersToInterface (v : View) : Prop :=
  v.interface.id? = some v.interfaceId ∨ v.interface = openReference v.interfaceId

instance : DecidablePred RefersToInterface := fun _ => inferInstanceAs (Decidable (_ ∨ _))

theorem isSome_id?_openReference (id : TypeId) : (openReference id).id?.isSome = true := by
  unfold openReference
  simp only [TypeRef.id?, Option.isSome_some]

/-- Where the reference to an interface comes from. -/
theorem interfaceOf_cases {t : TypeSymbol} {info : MemberInfo} {key : TypeId} (h : info.viewInterface? = some key) :
    (interfaceOf t info key).id? = some key ∨ interfaceOf t info key = openReference key ∨
      (interfaceOf t info key).id? = none ∧ info.explicitInterface = some (interfaceOf t info key) ∧
        info.sourceInterface = some key := by
  unfold MemberInfo.viewInterface? at h
  unfold interfaceOf
  cases hexplicit : info.explicitInterface with
  | some e =>
    rw [hexplicit, Option.bind_some] at h
    cases hid : e.id? with
    | some id => exact .inl (by simpa [hid] using h)
    | none => exact .inr (.inr ⟨hid, rfl, by simpa [hid] using h⟩)
  | none =>
    cases hfind : t.interfaces.find? (·.id? = some key) with
    | some r => exact .inl (by simpa using List.find?_some hfind)
    | none => exact .inr (.inl rfl)

end View

/-- The notice reports the member for want of an interface. -/
def ViewNotice.reports (id : MemberId) : ViewNotice → Bool
  | .orphan member => member.same id
  | .planned .. => false

/-- The member implements something explicitly that has no identity, and is on a surface all the same. -/
def MemberInfo.IsStranded (info : MemberInfo) : Prop :=
  info.onPrimarySurface = true ∧ info.isExplicit = true ∧ info.viewInterface? = none

instance : DecidablePred MemberInfo.IsStranded := fun _ => inferInstanceAs (Decidable (_ ∧ _))

/-- A member that is stranded has to do with views. -/
theorem MemberInfo.IsStranded.concerns {info : MemberInfo} (h : info.IsStranded) : View.concerns info = true := by
  obtain ⟨hsurface, hexplicit, -⟩ := h
  cases hplacement : info.placement <;>
    simp_all [View.concerns, MemberInfo.onPrimarySurface, Placement.isPrimary]

/-- The views that list the member, each as often as it does. -/
def TypeSymbol.listings (t : TypeSymbol) (id : MemberId) : List View :=
  t.views.flatMap fun v => List.replicate (v.members.countP (·.same id)) v

/-- What can become of a member. -/
inductive ViewFate where
  | leftOut
  | viewed
  | orphaned
  | surfaced
  deriving DecidableEq, Repr

/-- What each fate comes to, for a member of a type with views and all that was said in planning them. -/
def ViewFate.Befalls (t : TypeSymbol) (notices : List ViewNotice) (info : MemberInfo) : ViewFate → Prop
  | .leftOut =>
    info.placement = .omitted ∧ t.listings info.id = [] ∧ notices.countP (·.reports info.id) = 0
  | .viewed =>
    info.placement = .viewOnly ∧ (∃ v, t.listings info.id = [v] ∧ info.viewInterface? = some v.interfaceId) ∧
      notices.countP (·.reports info.id) = 0
  | .orphaned =>
    info.placement = .viewOnly ∧ t.listings info.id = [] ∧ notices.countP (·.reports info.id) = 1
  | .surfaced =>
    info.onPrimarySurface = true ∧ info.isExplicit = false ∧ t.listings info.id = [] ∧
      notices.countP (·.reports info.id) = 0

/-- Fates exclude each other. -/
theorem ViewFate.eq_of_befalls {t : TypeSymbol} {notices : List ViewNotice} {info : MemberInfo} {fate fate' : ViewFate}
    (h : fate.Befalls t notices info) (h' : fate'.Befalls t notices info) : fate = fate' := by
  cases fate <;> cases fate' <;> simp_all [Befalls, MemberInfo.onPrimarySurface, Placement.isPrimary]

/-- None of the fates is that of a member that is stranded. -/
theorem MemberInfo.IsStranded.not_befalls {info : MemberInfo} (h : info.IsStranded) {t : TypeSymbol}
    {notices : List ViewNotice} (fate : ViewFate) : ¬fate.Befalls t notices info := by
  obtain ⟨hsurface, hexplicit, -⟩ := h
  intro hfate
  cases fate with
  | leftOut => simp [onPrimarySurface, hfate.1, Placement.isPrimary] at hsurface
  | viewed => simp [onPrimarySurface, hfate.1, Placement.isPrimary] at hsurface
  | orphaned => simp [onPrimarySurface, hfate.1, Placement.isPrimary] at hsurface
  | surfaced => simp [hfate.2.1] at hexplicit

/-- A member has a fate, and one only, if a view lists it just in case it has to do with views and has an interface, if
it is then on no surface, and if it is reported just in case it has to do with views and has no interface. -/
theorem ViewFate.existsUnique_iff {t : TypeSymbol} {notices : List ViewNotice} {info : MemberInfo}
    (hviewed : View.concerns info = true → info.viewInterface?.isSome = true → info.placement = .viewOnly ∧
      ∃ v, t.listings info.id = [v] ∧ info.viewInterface? = some v.interfaceId)
    (hunviewed : ¬(View.concerns info = true ∧ info.viewInterface?.isSome = true) → t.listings info.id = [])
    (hreports : notices.countP (·.reports info.id) =
      if info.viewInterface?.isNone && View.concerns info then 1 else 0) :
    (∃! fate : ViewFate, fate.Befalls t notices info) ↔ ¬info.IsStranded := by
  constructor
  · rintro ⟨fate, hfate, -⟩ hstranded
    exact hstranded.not_befalls fate hfate
  · intro hstranded
    suffices h : ∃ fate : ViewFate, fate.Befalls t notices info from
      h.imp fun _ hfate => ⟨hfate, fun _ hfate' => eq_of_befalls hfate' hfate⟩
    by_cases hc : View.concerns info = true
    · cases hi : info.viewInterface? with
      | some key =>
        obtain ⟨hplacement, hlisted⟩ := hviewed hc (by simp [hi])
        exact ⟨.viewed, hplacement, hlisted, by simp [hreports, hi]⟩
      | none =>
        have hnone := hunviewed (by simp [hi])
        have hone : notices.countP (·.reports info.id) = 1 := by simp [hreports, hi, hc]
        refine ⟨.orphaned, ?_, hnone, hone⟩
        -- on a surface it would be stranded
        cases hplacement : info.placement <;>
          simp_all [View.concerns, MemberInfo.IsStranded, MemberInfo.onPrimarySurface, Placement.isPrimary]
    · have hnone := hunviewed (by simp [hc])
      have hzero : notices.countP (·.reports info.id) = 0 := by simp [hreports, hc]
      cases hplacement : info.placement with
      | omitted => exact ⟨.leftOut, hplacement, hnone, hzero⟩
      | viewOnly => simp [View.concerns, hplacement] at hc
      | classSurface =>
        exact ⟨.surfaced, by simp [MemberInfo.onPrimarySurface, hplacement, Placement.isPrimary],
          by simpa [View.concerns, hplacement] using hc, hnone, hzero⟩
      | staticSurface =>
        exact ⟨.surfaced, by simp [MemberInfo.onPrimarySurface, hplacement, Placement.isPrimary],
          by simpa [View.concerns, hplacement] using hc, hnone, hzero⟩

namespace TypeSymbol

/-- Members have one fate each unless they are stranded; views are in order, list something, and say which interface
they are of unless they were given a reference without an identity. -/
structure ViewsAccounted (t : TypeSymbol) (notices : List ViewNotice) : Prop where
  fate : ∀ x ∈ t.members.infos, (∃! fate : ViewFate, fate.Befalls t notices x.2) ↔ ¬x.2.IsStranded
  stranded : ∀ x ∈ t.members.infos, x.2.IsStranded →
    t.listings x.2.id = [] ∧ notices.countP (·.reports x.2.id) = 1
  nonempty : ∀ v ∈ t.views, v.members ≠ []
  sorted : t.views.Pairwise fun v w => compare v.interfaceId w.interfaceId = .lt
  reference : ∀ v ∈ t.views, v.RefersToInterface ↔ v.interface.id?.isSome = true
  unidentified : ∀ v ∈ t.views, v.interface.id? = none → ∃ x ∈ t.members.infos, v.holds x.2.id = true ∧
    x.2.explicitInterface = some v.interface ∧ x.2.sourceInterface = some v.interfaceId

variable {t : TypeSymbol} {v : View}

/-! ## What a plan lists -/

/-- Views are planned in the order of their interfaces. -/
theorem sorted_planViews (t : TypeSymbol) :
    t.planViews.views.Pairwise fun v w => compare v.interfaceId w.interfaceId = .lt := by
  refine pairwise_lt_of_ne (interfaceIds_planViews t) ?_
  unfold planViews
  simp only
  rw [List.pairwise_filterMap]
  refine (pairwise_sort Prod.fst _).imp ?_
  intro p q hpq v hv w hw
  obtain ⟨_, -, rfl⟩ := Option.map_eq_some_iff.1 hv
  obtain ⟨_, -, rfl⟩ := Option.map_eq_some_iff.1 hw
  exact hpq

/-! ## What is made of a type -/

theorem views_applyTo_planViews (h : t.views = []) : (t.planViews.applyTo t).views = t.planViews.views := by
  by_cases hviews : t.planViews.views = []
  · simp [ViewPlan.applyTo, hviews, h]
  · simp [ViewPlan.applyTo, hviews]

/-- The members are those from before, moved or left where they were. -/
theorem mem_infos_applyTo_planViews {y : MemberKind × MemberInfo} :
    y ∈ (t.planViews.applyTo t).members.infos ↔ ∃ x ∈ t.members.infos, (x.1, t.planViews.moveInfo x.2) = y := by
  rw [members_applyTo_planViews, Members.infos_mapInfo, List.mem_map]

/-- Of the members that have some property, one is listed once or not at all. -/
theorem OwnsMembers.countP_filter (ho : t.OwnsMembers) (p : MemberInfo → Bool) {x : MemberKind × MemberInfo}
    (hx : x ∈ t.members.infos) :
    (((t.members.infos.map (·.2)).filter p).map (·.id)).countP (·.same x.2.id) = if p x.2 then 1 else 0 := by
  have hsub : (((t.members.infos.map (·.2)).filter p).map (·.id)).Sublist t.memberIds := by
    have hmap : t.memberIds = (t.members.infos.map (·.2)).map (·.id) := by simp [memberIds]
    rw [hmap]
    exact List.filter_sublist.map _
  rw [MemberId.countP_same (ho.distinct.sublist hsub)]
  congr 1
  simp only [List.any_eq_true, List.mem_map, List.mem_filter, eq_iff_iff]
  constructor
  · rintro ⟨_, ⟨info, ⟨⟨y, hy, rfl⟩, hp⟩, rfl⟩, hsame⟩
    rwa [← ho.eq_of_same hy hx hsame]
  · intro hp
    exact ⟨_, ⟨x.2, ⟨⟨x, hx, rfl⟩, hp⟩, rfl⟩, MemberId.same_refl _⟩

/-- Which views list a member: that of its interface does, once, if the member has to do with views. -/
theorem OwnsMembers.listings_applyTo (ho : t.OwnsMembers) (hviews : t.views = []) {x : MemberKind × MemberInfo}
    (hx : x ∈ t.members.infos) :
    (t.planViews.applyTo t).listings x.2.id = t.planViews.views.filter fun v =>
      decide (x.2.viewInterface? = some v.interfaceId) && View.concerns x.2 := by
  have hcount : ∀ v ∈ t.planViews.views, v.members.countP (·.same x.2.id) =
      if decide (x.2.viewInterface? = some v.interfaceId) && View.concerns x.2 then 1 else 0 := by
    intro v hv
    rw [(plannedFor_of_mem_planViews hv).members.countP_eq, ho.countP_filter _ hx]
  unfold listings
  rw [views_applyTo_planViews hviews, List.flatMap_congr fun v hv => congrArg (List.replicate · v) (hcount v hv)]
  generalize t.planViews.views = views
  induction views with
  | nil => rfl
  | cons v rest ih =>
    rw [List.flatMap_cons, ih, List.filter_cons]
    split <;> rfl

/-- The view of an interface that some member is viewed through is there, and is the only one. -/
theorem filter_planViews {x : MemberKind × MemberInfo} (ho : t.OwnsMembers) (hx : x ∈ t.members.infos)
    (hc : View.concerns x.2 = true) {key : TypeId} (hkey : x.2.viewInterface? = some key) :
    ∃ v, v.interfaceId = key ∧ t.planViews.views.filter (fun v => decide (key = v.interfaceId)) = [v] := by
  obtain ⟨v, hv, hholds⟩ := exists_view_of_concerned hx hc hkey
  obtain ⟨id, hid, hsame⟩ := List.any_eq_true.1 hholds
  obtain ⟨y, hy, rfl, -, hi⟩ := (plannedFor_of_mem_planViews hv).exists_info hid
  obtain rfl := ho.eq_of_same hy hx hsame
  have hvkey : key = v.interfaceId := Option.some.inj (hkey.symm.trans hi)
  refine ⟨v, hvkey.symm, ?_⟩
  -- no view before it or after it has the interface
  obtain ⟨before, after, hviews⟩ := List.append_of_mem hv
  have hapart := interfaceIds_planViews t
  rw [hviews, List.pairwise_append, List.pairwise_cons] at hapart
  obtain ⟨-, ⟨hafter, -⟩, hbefore⟩ := hapart
  rw [hviews, hvkey, List.filter_append, List.filter_cons_of_pos (by simp),
    List.filter_eq_nil_iff.2 fun w hw => by simpa using (hbefore w hw v List.mem_cons_self).symm,
    List.filter_eq_nil_iff.2 fun w hw => by simpa using hafter w hw, List.nil_append]

/-- How often planning the views of the type reports a member. -/
theorem OwnsMembers.countP_orphans (ho : t.OwnsMembers) {x : MemberKind × MemberInfo} (hx : x ∈ t.members.infos) :
    t.planViews.orphans.countP (·.same x.2.id) =
      if x.2.viewInterface?.isNone && View.concerns x.2 then 1 else 0 := by
  unfold planViews sortMembers
  simp only
  rw [(List.mergeSort_perm _ _).countP_eq, List.filter_filter, ho.countP_filter _ hx]

/-- A member that has an interface and has to do with views is listed by one view, and once; others are not listed. -/
theorem OwnsMembers.listings_eq (ho : t.OwnsMembers) (hviews : t.views = []) {x : MemberKind × MemberInfo}
    (hx : x ∈ t.members.infos) :
    if View.concerns x.2 = true ∧ x.2.viewInterface?.isSome = true then
      ∃ v, (t.planViews.applyTo t).listings x.2.id = [v] ∧ x.2.viewInterface? = some v.interfaceId
    else (t.planViews.applyTo t).listings x.2.id = [] := by
  rw [ho.listings_applyTo hviews hx]
  split
  · rename_i h
    obtain ⟨hc, hi⟩ := h
    obtain ⟨key, hkey⟩ := Option.isSome_iff_exists.1 hi
    obtain ⟨v, rfl, hfilter⟩ := filter_planViews ho hx hc hkey
    refine ⟨v, ?_, hkey⟩
    simpa [hkey, hc] using hfilter
  · rename_i h
    refine List.filter_eq_nil_iff.2 fun v _ => ?_
    grind

/-- A planned view says which interface it is of, unless the member it has its reference from implements something that
has no identity. -/
theorem interface_of_mem_planViews (hv : v ∈ t.planViews.views) :
    (v.RefersToInterface ↔ v.interface.id?.isSome = true) ∧
      (v.interface.id? = none → ∃ x ∈ t.members.infos, v.holds x.2.id = true ∧
        x.2.explicitInterface = some v.interface ∧ x.2.sourceInterface = some v.interfaceId) := by
  obtain ⟨x, hx, hlisted, hview, hinterface⟩ := (plannedFor_of_mem_planViews hv).reference
  rcases View.interfaceOf_cases (t := t) hview with hid | hopened | ⟨hid, hexplicit, hsource⟩ <;> rw [← hinterface] at *
  · exact ⟨iff_of_true (.inl hid) (by simp [hid]), by simp [hid]⟩
  · have hid : v.interface.id?.isSome = true := by rw [hopened, View.isSome_id?_openReference]
    exact ⟨iff_of_true (.inr hopened) hid, fun hnone => by simp [hnone] at hid⟩
  · refine ⟨iff_of_false ?_ (by simp [hid]), fun _ => ⟨x, hx, ?_, hexplicit, hsource⟩⟩
    · rintro (hsome | hopened)
      · simp [hid] at hsome
      · have hsome := View.isSome_id?_openReference v.interfaceId
        rw [← hopened, hid] at hsome
        cases hsome
    · exact List.any_eq_true.2 ⟨x.2.id, hlisted, MemberId.same_refl _⟩

end TypeSymbol

namespace SymbolGraph

variable {g : SymbolGraph} {t : TypeSymbol}

/-- A member is reported once or not at all. -/
theorem Consistent.count_reports (hg : g.Consistent) (ht : t ∈ g.types) {x : MemberKind × MemberInfo}
    (hx : x ∈ t.members.infos) :
    g.planViews.2.countP (·.reports x.2.id) = if x.2.viewInterface?.isNone && View.concerns x.2 then 1 else 0 := by
  have hof : ∀ u : TypeSymbol, (u.planViews.notices u.id).countP (·.reports x.2.id) =
      u.planViews.orphans.countP (·.same x.2.id) := by
    intro u
    have hviews : (u.planViews.views.map (ViewNotice.planned u.id)).countP (·.reports x.2.id) = 0 := by
      rw [List.countP_eq_zero]
      intro n hn
      obtain ⟨v, -, rfl⟩ := List.mem_map.1 hn
      simp [ViewNotice.reports]
    rw [ViewPlan.notices, List.countP_append, hviews, List.countP_map]
    rfl
  -- the members of other types name those as theirs
  have hother : ∀ u ∈ g.types, u.id ≠ t.id → (u.planViews.notices u.id).countP (·.reports x.2.id) = 0 := by
    intro u hu hne
    rw [hof, List.countP_eq_zero]
    intro id hid hsame
    obtain ⟨y, hy, -, -, rfl⟩ := TypeSymbol.mem_orphans_planViews.1 hid
    exact hne (congrArg TypeSymbol.id (hg.eq_of_same ht hx hu hy hsame).1)
  obtain ⟨before, after, htypes⟩ := List.append_of_mem ht
  have hapart := hg.types
  rw [htypes, List.pairwise_append, List.pairwise_cons] at hapart
  obtain ⟨-, ⟨hafter, -⟩, hbefore⟩ := hapart
  have hzero : ∀ types : List TypeSymbol, (∀ u ∈ types, u ∈ g.types ∧ u.id ≠ t.id) →
      (types.flatMap fun u => u.planViews.notices u.id).countP (·.reports x.2.id) = 0 := by
    intro types htypes
    rw [List.countP_eq_zero]
    intro n hn
    obtain ⟨u, hu, hn⟩ := List.mem_flatMap.1 hn
    exact List.countP_eq_zero.1 (hother u (htypes u hu).1 (htypes u hu).2) n hn
  have hnotices : g.planViews.2 = g.types.flatMap fun u => u.planViews.notices u.id := rfl
  rw [hnotices, htypes, List.flatMap_append, List.flatMap_cons, List.countP_append, List.countP_append,
    hzero before fun u hu => ⟨by simp [htypes, hu], hbefore u hu t List.mem_cons_self⟩,
    hzero after fun u hu => ⟨by simp [htypes, hu], (hafter u hu).symm⟩, hof, (hg.members t ht).countP_orphans hx]
  simp

/-- A member that planning views has gone over has one fate, unless it is stranded; then it is reported. -/
theorem Consistent.fate_of_planViews (hg : g.Consistent) (ht : t ∈ g.types) (hviews : t.views = [])
    {y : MemberKind × MemberInfo} (hy : y ∈ (t.planViews.applyTo t).members.infos) :
    ((∃! fate : ViewFate, fate.Befalls (t.planViews.applyTo t) g.planViews.2 y.2) ↔ ¬y.2.IsStranded) ∧
      (y.2.IsStranded → (t.planViews.applyTo t).listings y.2.id = [] ∧
        g.planViews.2.countP (·.reports y.2.id) = 1) := by
  obtain ⟨x, hx, rfl⟩ := TypeSymbol.mem_infos_applyTo_planViews.1 hy
  have ho := hg.members t ht
  have hc := ho.concerns_moveInfo hx
  have hlistings := ho.listings_eq hviews hx
  have hreports := hg.count_reports ht hx
  refine ⟨ViewFate.existsUnique_iff ?_ ?_ ?_, ?_⟩
  · intro hconcerned hi
    rw [hc] at hconcerned
    rw [TypeSymbol.moveInfo_viewInterface?] at hi
    rw [if_pos ⟨hconcerned, hi⟩] at hlistings
    exact ⟨TypeSymbol.placement_moveInfo_of_viewed hx hconcerned hi, by simpa using hlistings⟩
  · intro hnot
    rw [hc, TypeSymbol.moveInfo_viewInterface?] at hnot
    rw [if_neg hnot] at hlistings
    simpa using hlistings
  · simpa [hc] using hreports
  · intro hstranded
    have hconcerns : View.concerns x.2 = true := hc ▸ hstranded.concerns
    obtain ⟨-, -, hi⟩ := hstranded
    rw [TypeSymbol.moveInfo_viewInterface?] at hi
    rw [if_neg (by simp [hi])] at hlistings
    exact ⟨by simpa using hlistings, by simp [hreports, hi, hconcerns]⟩

/-- What has been planned for a graph without views accounts for every member. -/
theorem Consistent.viewsAccounted (hg : g.Consistent) (hviews : ∀ t ∈ g.types, t.views = []) :
    ∀ t ∈ g.planViews.1.types, t.ViewsAccounted g.planViews.2 := by
  intro t' ht'
  obtain ⟨t, ht, rfl⟩ := List.mem_map.1 ht'
  have hplanned := TypeSymbol.views_applyTo_planViews (hviews t ht)
  refine ⟨fun y hy => (hg.fate_of_planViews ht (hviews t ht) hy).1,
    fun y hy => (hg.fate_of_planViews ht (hviews t ht) hy).2, ?_, ?_, ?_, ?_⟩
  · rw [hplanned]
    intro v hv
    obtain ⟨x, -, hlisted, -⟩ := (TypeSymbol.plannedFor_of_mem_planViews hv).reference
    exact List.ne_nil_of_mem hlisted
  · rw [hplanned]
    exact TypeSymbol.sorted_planViews t
  · rw [hplanned]
    exact fun v hv => (TypeSymbol.interface_of_mem_planViews hv).1
  · rw [hplanned]
    intro v hv hnone
    obtain ⟨x, hx, hholds, hexplicit, hsource⟩ := (TypeSymbol.interface_of_mem_planViews hv).2 hnone
    refine ⟨(x.1, t.planViews.moveInfo x.2), TypeSymbol.mem_infos_applyTo_planViews.2 ⟨x, hx, rfl⟩, ?_⟩
    rw [ViewPlan.moveInfo_frame]
    exact ⟨hholds, hexplicit, hsource⟩

/-- In a graph that was built of types without views, planning views gives every member one fate, unless it is on a
surface and implements something explicitly that has no identity; and it gives views that are in order and list
something. -/
theorem viewsAccounted_of_build {types : List TypeSymbol} {aliases : List Alias} (hbuild : build types aliases = .ok g)
    (hviews : ∀ t ∈ types, t.views = []) : ∀ t ∈ g.planViews.1.types, t.ViewsAccounted g.planViews.2 := by
  refine (consistent_of_build hbuild).viewsAccounted fun t ht => ?_
  obtain ⟨u, hu, rfl⟩ := (mem_types_of_build hbuild).1 ht
  exact hviews u hu

/-- A type with a member on its surface and one that is viewed. -/
theorem viewsAccounted_of_store :
    ∃ g, build Gallery.store [] = .ok g ∧ (∀ t ∈ Gallery.store, t.views = []) ∧
      ∀ t ∈ g.planViews.1.types, t.ViewsAccounted g.planViews.2 := by
  have hrun : (build Gallery.store []).toOption.any (fun _ => true) = true := by
    simp only [build, sortTypes, settle_eq, sortAliases, mergeSort_eq_sortTo]
    decide +kernel
  obtain ⟨g, hbuild, -⟩ := exists_of_any hrun
  have hviews : ∀ t ∈ Gallery.store, t.views = [] := by decide
  exact ⟨g, hbuild, hviews, viewsAccounted_of_build hbuild hviews⟩

/-- A type that implements an array explicitly, once on its own account and once on that of an interface. -/
def crate : List TypeSymbol := [
  (Gallery.draft "App.Crate" .classType
    |>.explicitMethod (.array (Gallery.app "App" "Item") 1) "Clear" (Gallery.system "Void")
    |>.method "Fill" [] (Gallery.system "Void") fun info =>
      { info with
        explicitInterface := some (.array (Gallery.app "App" "Item") 1)
        sourceInterface := some ⟨"app", "App.IFill"⟩ }).type]

/-- The first of its members has none of the fates, and the view of the second does not say which interface it is of. -/
theorem stranded_of_crate :
    ∃ g, build crate [] = .ok g ∧ (∀ t ∈ crate, t.views = []) ∧ ∃ t ∈ g.planViews.1.types,
      (∃ x ∈ t.members.infos, ∀ fate : ViewFate, ¬fate.Befalls t g.planViews.2 x.2) ∧
      ∃ v ∈ t.views, ¬v.RefersToInterface := by
  have hrun : (build crate []).toOption.any (fun g => decide (∃ t ∈ g.planViews.1.types,
      (∃ x ∈ t.members.infos, x.2.IsStranded) ∧ ∃ v ∈ t.views, ¬v.RefersToInterface)) = true := by
    simp only [build, sortTypes, settle_eq, sortAliases, planViews, TypeSymbol.planViews, sortMembers,
      mergeSort_eq_sortTo]
    decide +kernel
  obtain ⟨g, hbuild, hrun⟩ := exists_of_any hrun
  obtain ⟨t, ht, ⟨x, hx, hstranded⟩, hview⟩ := of_decide_eq_true hrun
  exact ⟨g, hbuild, by decide, t, ht, ⟨x, hx, hstranded.not_befalls⟩, hview⟩

end SymbolGraph

end Exonym
