import Exonym.Overload
import Exonym.Proofs.Graph.Consistency

/-!
# Which members overload resolution moves

Only methods and properties take part in overload resolution, so only they lose their places, and they go to no other
surface.

Main statements:

* `OverloadPlan.placement?_isSome_iff`, `OverloadPlan.exists_of_placement?`: when a member moves, and where to.
* `TypeSymbol.candidate_of_conflict`: the members in a conflict are candidates of one erasure.
* `TypeSymbol.OwnsMembers.candidate_of_placement?`: a member that moves is demoted in a conflict about its erasure.
* `TypeSymbol.constructors_applyOverloads`: constructors stay as they are.
* `TypeSymbol.settle_applyOverloads`: a settled type stays settled.
-/

namespace Exonym

namespace Conflict

theorem of_among {erasure : Erasure} {kind : ConflictKind} {order : Candidate → Candidate → Ordering}
    {group : List Candidate} {c : Conflict} (h : among erasure kind order group = some c) :
    c.erasure = erasure ∧ ∀ id ∈ c.kept :: c.demoted, ∃ x ∈ group, x.id = id := by
  unfold among at h
  split at h
  · rename_i kept next rest hsorted
    obtain rfl := Option.some.inj h
    refine ⟨rfl, fun id hid => ?_⟩
    obtain ⟨x, hx, rfl⟩ := List.mem_map.1 (show id ∈ (kept :: next :: rest).map (·.id) from hid)
    rw [← hsorted] at hx
    exact ⟨x, List.mem_mergeSort.1 hx, rfl⟩
  · simp at h

/-- A conflict in a bucket is about the erasure of the bucket, and about members of it. -/
theorem of_mem_inBucket {erasure : Erasure} {bucket : List Candidate} {c : Conflict}
    (h : c ∈ inBucket erasure bucket) :
    c.erasure = erasure ∧ ∀ id ∈ c.kept :: c.demoted, ∃ x ∈ bucket, x.id = id := by
  unfold inBucket at h
  split at h
  · simp at h
  · rename_i first rest
    split at h
    · exact of_among (Option.mem_toList.1 h)
    · obtain ⟨⟨key, group⟩, hgroup, hc⟩ := List.mem_filterMap.1 h
      obtain ⟨herasure, hmembers⟩ := of_among hc
      refine ⟨herasure, fun id hid => ?_⟩
      obtain ⟨x, hx, hxid⟩ := hmembers id hid
      obtain ⟨-, rfl⟩ := Grouping.mem_groups.1 hgroup
      simp only [List.mem_map, List.mem_filter] at hx
      obtain ⟨-, ⟨⟨y, hy, rfl⟩, -⟩, rfl⟩ := hx
      exact ⟨y, hy, hxid⟩

end Conflict

namespace OverloadPlan

/-- A member has a new placement if it is to move in some conflict. -/
theorem placement?_isSome_iff {conflicts : List Conflict} {id : MemberId} :
    ((ofConflicts conflicts).placement? id).isSome = true ↔
      ∃ c ∈ conflicts, ∃ other ∈ c.demoted, other.same id = true := by
  simp only [placement?, Option.isSome_map, List.find?_isSome, ofConflicts, List.mem_flatMap, List.mem_map]
  constructor
  · rintro ⟨_, ⟨c, hc, other, hother, rfl⟩, hsame⟩
    exact ⟨c, hc, other, hother, hsame⟩
  · rintro ⟨c, hc, other, hother, hsame⟩
    exact ⟨_, ⟨c, hc, other, hother, rfl⟩, hsame⟩

/-- A new placement is the one of a conflict in which the member is to move. -/
theorem exists_of_placement? {conflicts : List Conflict} {id : MemberId} {q : Placement}
    (h : (ofConflicts conflicts).placement? id = some q) :
    ∃ c ∈ conflicts, c.kind.placement = q ∧ ∃ other ∈ c.demoted, other.same id = true := by
  obtain ⟨⟨_, _⟩, hfound, rfl⟩ := Option.map_eq_some_iff.1 h
  obtain ⟨c, hc, hdemoted⟩ := List.mem_flatMap.1 (List.mem_of_find?_eq_some hfound)
  obtain ⟨other, hother, heq⟩ := List.mem_map.1 hdemoted
  obtain ⟨rfl, rfl⟩ := Prod.mk.inj heq
  exact ⟨c, hc, rfl, other, hother, by simpa using List.find?_some hfound⟩

end OverloadPlan

namespace TypeSymbol

/-- The members in a conflict are candidates with the erasure that the conflict is about. -/
theorem candidate_of_conflict {t : TypeSymbol} {c : Conflict} (h : c ∈ t.conflicts) {id : MemberId}
    (hid : id ∈ c.kept :: c.demoted) : ∃ e ∈ t.candidates, e.1 = c.erasure ∧ e.2.id = id := by
  obtain ⟨⟨erasure, bucket⟩, hbucket, hc⟩ := List.mem_flatMap.1 h
  obtain ⟨herasure, hmembers⟩ := Conflict.of_mem_inBucket hc
  obtain ⟨x, hx, hxid⟩ := hmembers id hid
  obtain ⟨-, rfl⟩ := Grouping.mem_groups.1 hbucket
  obtain ⟨e, he, rfl⟩ := List.mem_map.1 hx
  obtain ⟨he, hkey⟩ := List.mem_filter.1 he
  exact ⟨e, he, (of_decide_eq_true hkey).trans herasure.symm, hxid⟩

theorem member_of_candidate {t : TypeSymbol} {e : Erasure × Candidate} (h : e ∈ t.candidates) :
    ∃ x ∈ t.members.infos, x.1 ≠ .constructor ∧ x.2.onPrimarySurface = true ∧ x.2.id = e.2.id := by
  simp only [candidates, List.mem_mergeSort, List.mem_append, List.mem_map, List.mem_filter] at h
  rcases h with ⟨m, ⟨hm, hsurface⟩, rfl⟩ | ⟨p, ⟨hp, hsurface⟩, rfl⟩
  · exact ⟨(.method, m.info), by simpa [Members.infos] using ⟨m, hm, rfl⟩, MemberKind.noConfusion, hsurface, rfl⟩
  · exact ⟨(.property, p.info), by simpa [Members.infos] using ⟨p, hp, rfl⟩, MemberKind.noConfusion, hsurface, rfl⟩

/-- A member that is to move is a candidate on a surface, and some conflict about its erasure demotes it. -/
theorem OwnsMembers.candidate_of_placement? {t : TypeSymbol} (h : t.OwnsMembers) {x : MemberKind × MemberInfo}
    (hx : x ∈ t.members.infos) {q : Placement}
    (hq : (OverloadPlan.ofConflicts t.conflicts).placement? x.2.id = some q) :
    x.1 ≠ .constructor ∧ x.2.onPrimarySurface = true ∧ ∃ c ∈ t.conflicts, c.kind.placement = q ∧ x.2.id ∈ c.demoted ∧
      ∃ e ∈ t.candidates, e.1 = c.erasure ∧ e.2.id = x.2.id := by
  obtain ⟨c, hc, hplacement, other, hother, hsame⟩ := OverloadPlan.exists_of_placement? hq
  obtain ⟨e, he, herasure, rfl⟩ := candidate_of_conflict hc (List.mem_cons_of_mem _ hother)
  obtain ⟨y, hy, hkind, hsurface, hyid⟩ := member_of_candidate he
  obtain rfl := h.eq_of_same hy hx (by rw [hyid, hsame])
  exact ⟨hkind, hsurface, c, hc, hplacement, hyid ▸ hother, e, he, herasure, hyid.symm⟩

/-- Nothing but methods and properties is to move. -/
theorem OwnsMembers.placement?_constructor {t : TypeSymbol} (h : t.OwnsMembers) {x : MemberKind × MemberInfo}
    (hx : x ∈ t.members.infos) (hkind : x.1 = .constructor) :
    (OverloadPlan.ofConflicts t.conflicts).placement? x.2.id = none := by
  cases hq : (OverloadPlan.ofConflicts t.conflicts).placement? x.2.id with
  | none => rfl
  | some q => exact absurd hkind (h.candidate_of_placement? hx hq).1

theorem constructors_applyOverloads {t : TypeSymbol} (h : t.OwnsMembers) :
    ((OverloadPlan.ofConflicts t.conflicts).applyTo t).members.constructors = t.members.constructors := by
  change t.members.constructors.map _ = _
  conv => rhs; rw [← List.map_id t.members.constructors]
  refine List.map_congr_left fun c hc => ?_
  have hmem : (MemberKind.constructor, c.info) ∈ t.members.infos := by
    simpa [Members.infos] using ⟨c, hc, rfl⟩
  have hstay := h.placement?_constructor hmem rfl
  simp only [OverloadPlan.moveInfo, hstay, Option.getD_none]
  rfl

/-! ## Settled types -/

/-- Members that have to move go to no surface. -/
theorem isPrimary_of_placement? {conflicts : List Conflict} {id : MemberId} {q : Placement}
    (h : (OverloadPlan.ofConflicts conflicts).placement? id = some q) : q.isPrimary = false := by
  obtain ⟨c, -, rfl, -⟩ := OverloadPlan.exists_of_placement? h
  cases c.kind <;> rfl

/-- A member that is settled on a surface is settled off it, except for a constructor. -/
theorem settleInfo_of_moved {allStatic : Bool} {kind : MemberKind} {info : MemberInfo} {q : Placement}
    (h : SymbolGraph.settleInfo allStatic kind info = info) (hkind : kind ≠ .constructor) (hq : q.isPrimary = false) :
    SymbolGraph.settleInfo allStatic kind { info with placement := q } = { info with placement := q } := by
  have hstatic : (info.isStatic || allStatic) = info.isStatic := by
    conv => rhs; rw [← h]
    unfold SymbolGraph.settleInfo
    grind
  have hsurface : q ≠ .classSurface := by
    rintro rfl
    simp [Placement.isPrimary] at hq
  unfold SymbolGraph.settleInfo
  simp [hstatic, hkind, hsurface]

theorem settle_applyOverloads {t : TypeSymbol} (ho : t.OwnsMembers) (h : SymbolGraph.settle t = t) :
    SymbolGraph.settle ((OverloadPlan.ofConflicts t.conflicts).applyTo t) =
      (OverloadPlan.ofConflicts t.conflicts).applyTo t := by
  obtain ⟨hmembers, hnested⟩ := SymbolGraph.settle_eq_self_iff.1 h
  refine SymbolGraph.settle_eq_self_iff.2 ⟨?_, hnested⟩
  rw [OverloadPlan.infos_applyTo]
  intro y hy
  obtain ⟨x, hx, rfl⟩ := List.mem_map.1 hy
  change SymbolGraph.settleInfo t.flags.isStatic x.1 (OverloadPlan.moveInfo _ x.2) = OverloadPlan.moveInfo _ x.2
  cases hplacement : (OverloadPlan.ofConflicts t.conflicts).placement? x.2.id with
  | none =>
    rw [OverloadPlan.moveInfo, hplacement]
    exact hmembers x hx
  | some q =>
    rw [OverloadPlan.moveInfo, hplacement]
    refine settleInfo_of_moved (hmembers x hx) ?_ (isPrimary_of_placement? hplacement)
    intro hkind
    simp [ho.placement?_constructor hx hkind] at hplacement

end TypeSymbol

end Exonym
