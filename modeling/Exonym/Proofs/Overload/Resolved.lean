import Exonym.Proofs.Grouping
import Exonym.Proofs.Order.Overloads
import Exonym.Proofs.Overload.Demotions

/-!
# Overload resolution leaves no conflict

Of two members that are in conflict one has to move, and it goes to no surface. So the members that are left on the
surfaces of a type are told apart by what is left of them in the target language, and taking more members off the
surfaces does not change that.

Main statements:

* `TypeSymbol.exists_demoted`: one of two candidates in conflict has to move.
* `TypeSymbol.compatible_applyOverloads`: what is left on the surfaces is told apart.
* `TypeSymbol.OwnsMembers.conflicts_eq_nil`: nothing is in conflict once conflicts are settled.
-/

namespace Exonym

namespace Candidate

/-- Two candidates that can both stay: what is left of them differs, or they return the same and take parameters of
different types. -/
def Compatible (a b : Erasure × Candidate) : Prop :=
  a.1 = b.1 → a.2.returnType = b.2.returnType ∧ a.2.parameters ≠ b.2.parameters

instance : Std.Symm Compatible :=
  ⟨fun _ _ h heq => ⟨(h heq.symm).1.symm, (h heq.symm).2.symm⟩⟩

/-- Where a method is emitted is nothing to its candidate. -/
theorem ofMethod_moved {m : Method} {info : MemberInfo} (h : ∃ q : Placement, info = { m.info with placement := q }) :
    ofMethod { m with info := info } = ofMethod m := by
  obtain ⟨q, rfl⟩ := h
  rfl

theorem ofProperty_moved {p : Property} {info : MemberInfo}
    (h : ∃ q : Placement, info = { p.info with placement := q }) :
    ofProperty { p with info := info } = ofProperty p := by
  obtain ⟨q, rfl⟩ := h
  rfl

end Candidate

namespace Conflict

variable {erasure : Erasure} {kind : ConflictKind} {order : Candidate → Candidate → Ordering}
  {group bucket : List Candidate} {a b : Candidate}

/-- Of two members of a group at most one stays. -/
theorem demoted_of_among (ha : a ∈ group) (hb : b ∈ group) (hne : a.id ≠ b.id) :
    ∃ c, among erasure kind order group = some c ∧ (a.id ∈ c.demoted ∨ b.id ∈ c.demoted) := by
  have hsorted : ∀ x ∈ group, x ∈ group.mergeSort fun a b => (order a b).isLE := fun x hx => List.mem_mergeSort.2 hx
  have ha := hsorted a ha
  have hb := hsorted b hb
  unfold among
  match hlist : group.mergeSort fun a b => (order a b).isLE with
  | [] => simp [hlist] at ha
  | [only] =>
    rw [hlist, List.mem_singleton] at ha hb
    exact absurd (congrArg Candidate.id (ha.trans hb.symm)) hne
  | kept :: next :: rest =>
    rw [hlist] at ha hb
    refine ⟨_, rfl, ?_⟩
    rcases List.mem_cons.1 ha with rfl | ha
    · rcases List.mem_cons.1 hb with rfl | hb
      · exact absurd rfl hne
      · exact .inr (List.mem_map_of_mem hb)
    · exact .inl (List.mem_map_of_mem ha)

/-- One of two members of a bucket has to move unless both return the same and take different parameters. -/
theorem demoted_of_inBucket (ha : a ∈ bucket) (hb : b ∈ bucket) (hne : a.id ≠ b.id)
    (h : ¬(a.returnType = b.returnType ∧ a.parameters ≠ b.parameters)) :
    ∃ c ∈ inBucket erasure bucket, a.id ∈ c.demoted ∨ b.id ∈ c.demoted := by
  unfold inBucket
  cases bucket with
  | nil => cases ha
  | cons first rest =>
    simp only
    split
    · have hdemoted : ∃ c, among erasure .returnType Candidate.plainest (first :: rest) = some c ∧
          (a.id ∈ c.demoted ∨ b.id ∈ c.demoted) := demoted_of_among ha hb hne
      obtain ⟨c, hc, hdemoted⟩ := hdemoted
      exact ⟨c, by simp [hc], hdemoted⟩
    · rename_i hsame
      have hreturn : ∀ x ∈ first :: rest, x.returnType = first.returnType := by simpa using hsame
      -- all return the same here, so these two are in one group by their parameters
      have hparameters : a.parameters = b.parameters := by
        by_contra hparameters
        exact h ⟨(hreturn a ha).trans (hreturn b hb).symm, hparameters⟩
      obtain ⟨group, hgroup⟩ := Grouping.exists_mem_groups (List.mem_map.2 ⟨a, ha, rfl⟩ :
        (a.parameters, a) ∈ (first :: rest).map fun c => (c.parameters, c))
      have hmem : ∀ x ∈ first :: rest, x.parameters = a.parameters → x ∈ group := by
        intro x hx hxa
        obtain ⟨-, rfl⟩ := Grouping.mem_groups.1 hgroup
        refine List.mem_map.2 ⟨(x.parameters, x), List.mem_filter.2 ⟨List.mem_map.2 ⟨x, hx, rfl⟩, ?_⟩, rfl⟩
        simpa using hxa
      have hdemoted : ∃ c, among erasure .modifierOnly Candidate.widest group = some c ∧
          (a.id ∈ c.demoted ∨ b.id ∈ c.demoted) := demoted_of_among (hmem a ha rfl) (hmem b hb hparameters.symm) hne
      obtain ⟨c, hc, hdemoted⟩ := hdemoted
      exact ⟨c, List.mem_filterMap.2 ⟨_, hgroup, hc⟩, hdemoted⟩

/-- Of members that all take different parameters at most one takes the given ones. -/
theorem length_lt_two {parameters : List String} (hsame : ∀ c ∈ group, c.parameters = parameters)
    (hdistinct : group.Pairwise fun a b => a.parameters ≠ b.parameters) : group.length < 2 := by
  match group with
  | [] => simp
  | [_] => simp
  | a :: b :: rest =>
    have hab := (List.pairwise_cons.1 hdistinct).1 b List.mem_cons_self
    exact absurd ((hsame a (by simp)).trans (hsame b (by simp)).symm) hab

theorem inBucket_eq_nil (h : bucket.Pairwise fun a b => a.returnType = b.returnType ∧ a.parameters ≠ b.parameters) :
    inBucket erasure bucket = [] := by
  unfold inBucket
  cases bucket with
  | nil => rfl
  | cons first rest =>
    have hreturn : (first :: rest).any (·.returnType ≠ first.returnType) = false := by
      simp only [List.any_eq_false, decide_eq_true_eq, not_not, List.mem_cons]
      rintro c (rfl | hc)
      · rfl
      · exact ((List.pairwise_cons.1 h).1 c hc).1.symm
    simp only [hreturn, Bool.false_eq_true, if_false]
    refine List.filterMap_eq_nil_iff.2 ?_
    rintro ⟨key, group⟩ hgroup
    obtain ⟨-, rfl⟩ := Grouping.mem_groups.1 hgroup
    -- a group has one list of parameters, and no two members of the bucket share one
    refine among_eq_none_iff.2 (@length_lt_two _ key ?_ ?_)
    · intro c hc
      obtain ⟨entry, hentry, rfl⟩ := List.mem_map.1 hc
      obtain ⟨hentry, hkey⟩ := List.mem_filter.1 hentry
      obtain ⟨c, -, rfl⟩ := List.mem_map.1 hentry
      simpa using hkey
    · rw [List.pairwise_map]
      refine List.Pairwise.filter _ (List.pairwise_map.2 ?_)
      exact h.imp fun hab => hab.2

end Conflict

namespace TypeSymbol

variable {t t' : TypeSymbol} {a b : Erasure × Candidate}

theorem mem_candidates : a ∈ t.candidates ↔ a ∈ t.listedCandidates :=
  List.mem_mergeSort

theorem exists_demoted (ha : a ∈ t.listedCandidates) (hb : b ∈ t.listedCandidates) (hne : a.2.id ≠ b.2.id)
    (h : ¬Candidate.Compatible a b) : ∃ c ∈ t.conflicts, a.2.id ∈ c.demoted ∨ b.2.id ∈ c.demoted := by
  obtain ⟨heq, hconflict⟩ := Classical.not_imp.1 h
  obtain ⟨bucket, hbucket⟩ := Grouping.exists_mem_groups (mem_candidates.2 ha)
  have hmem : ∀ x ∈ t.listedCandidates, x.1 = a.1 → x.2 ∈ bucket := by
    intro x hx hxa
    obtain ⟨-, rfl⟩ := Grouping.mem_groups.1 hbucket
    exact List.mem_map_of_mem (List.mem_filter.2 ⟨mem_candidates.2 hx, by simpa using hxa⟩)
  have hdemoted : ∃ c ∈ Conflict.inBucket a.1 bucket, a.2.id ∈ c.demoted ∨ b.2.id ∈ c.demoted :=
    Conflict.demoted_of_inBucket (hmem a ha rfl) (hmem b hb heq.symm) hne hconflict
  obtain ⟨c, hc, hdemoted⟩ := hdemoted
  exact ⟨c, List.mem_flatMap.2 ⟨_, hbucket, hc⟩, hdemoted⟩

theorem conflicts_eq_nil_of_compatible (h : t.listedCandidates.Pairwise Candidate.Compatible) : t.conflicts = [] := by
  have hcandidates : t.candidates.Pairwise Candidate.Compatible :=
    (List.mergeSort_perm t.listedCandidates _).symm.pairwise h (Std.Symm.symm _ _)
  refine List.flatMap_eq_nil_iff.2 ?_
  rintro ⟨erasure, bucket⟩ hbucket
  obtain ⟨-, rfl⟩ := Grouping.mem_groups.1 hbucket
  refine Conflict.inBucket_eq_nil (List.pairwise_map.2 ?_)
  refine (hcandidates.filter _).imp_of_mem ?_
  intro x y hx hy hxy
  have hx : x.1 = erasure := by simpa using (List.mem_filter.1 hx).2
  have hy : y.1 = erasure := by simpa using (List.mem_filter.1 hy).2
  exact hxy (hx.trans hy.symm)

/-! ## Members that stay -/

/-- Where members are only taken off the surfaces, candidates only become fewer. -/
theorem listedCandidates_sublist {f : MemberInfo → MemberInfo} (h : t'.members = t.members.mapInfo fun _ => f)
    (hf : ∀ info, ∃ q : Placement, f info = { info with placement := q } ∧
      (q.isPrimary = true → info.onPrimarySurface = true)) :
    t'.listedCandidates.Sublist t.listedCandidates := by
  have hprimary : ∀ info, (f info).onPrimarySurface = true → info.onPrimarySurface = true := by
    intro info hinfo
    obtain ⟨q, hq, himp⟩ := hf info
    rw [hq] at hinfo
    exact himp hinfo
  have hmoved : ∀ info, ∃ q : Placement, f info = { info with placement := q } := fun info =>
    (hf info).imp fun _ hq => hq.1
  have hmethod : ∀ m : Method, Candidate.ofMethod { m with info := f m.info } = Candidate.ofMethod m := fun m =>
    Candidate.ofMethod_moved (hmoved m.info)
  have hproperty : ∀ p : Property, Candidate.ofProperty { p with info := f p.info } = Candidate.ofProperty p := fun p =>
    Candidate.ofProperty_moved (hmoved p.info)
  unfold listedCandidates
  rw [h]
  simp only [Members.mapInfo, List.filter_map, List.map_map, Function.comp_def, hmethod, hproperty]
  refine ((List.monotone_filter_right _ ?_).map _).append ((List.monotone_filter_right _ ?_).map _)
  · exact fun m hm => hprimary m.info hm
  · exact fun p hp => hprimary p.info hp

/-- A member that has to move is on no surface afterwards. -/
theorem not_demoted_of_listed (ha : a ∈ ((OverloadPlan.ofConflicts t.conflicts).applyTo t).listedCandidates)
    {c : Conflict} (hc : c ∈ t.conflicts) : a.2.id ∉ c.demoted := by
  intro hdemoted
  have hmoved : ∀ info : MemberInfo, info.id = a.2.id →
      ((OverloadPlan.ofConflicts t.conflicts).moveInfo info).onPrimarySurface = false := by
    intro info hid
    obtain ⟨q, hq⟩ := Option.isSome_iff_exists.1 <|
      OverloadPlan.placement?_isSome_iff.2 ⟨c, hc, a.2.id, hdemoted, MemberId.same_refl _⟩
    rw [OverloadPlan.moveInfo, hid, hq]
    exact isPrimary_of_placement? hq
  simp only [listedCandidates, List.mem_append, List.mem_map, List.mem_filter] at ha
  rcases ha with ⟨x, ⟨hx, hprimary⟩, rfl⟩ | ⟨x, ⟨hx, hprimary⟩, rfl⟩
  · obtain ⟨m, -, rfl⟩ := List.mem_map.1 hx
    simp [hmoved m.info rfl] at hprimary
  · obtain ⟨m, -, rfl⟩ := List.mem_map.1 hx
    simp [hmoved m.info rfl] at hprimary

theorem OwnsMembers.compatible_applyOverloads (h : t.OwnsMembers) :
    ((OverloadPlan.ofConflicts t.conflicts).applyTo t).listedCandidates.Pairwise Candidate.Compatible := by
  have hsublist : ((OverloadPlan.ofConflicts t.conflicts).applyTo t).listedCandidates.Sublist t.listedCandidates := by
    refine listedCandidates_sublist rfl fun info => ⟨_, rfl, ?_⟩
    cases hplacement : (OverloadPlan.ofConflicts t.conflicts).placement? info.id with
    | none => exact fun hprimary => hprimary
    | some q => simp [isPrimary_of_placement? hplacement]
  refine (h.pairwise_listedCandidates.sublist hsublist).imp_of_mem ?_
  intro a b ha hb hne
  by_contra hconflict
  have hid : a.2.id ≠ b.2.id := by
    intro hid
    simp [hid] at hne
  obtain ⟨c, hc, hdemoted | hdemoted⟩ := exists_demoted (hsublist.subset ha) (hsublist.subset hb) hid hconflict
  · exact not_demoted_of_listed ha hc hdemoted
  · exact not_demoted_of_listed hb hc hdemoted

/-- Nothing is in conflict once conflicts are settled, also when more members are taken off the surfaces. -/
theorem OwnsMembers.conflicts_eq_nil (h : t.OwnsMembers)
    (hsublist : t'.listedCandidates.Sublist ((OverloadPlan.ofConflicts t.conflicts).applyTo t).listedCandidates) :
    t'.conflicts = [] :=
  conflicts_eq_nil_of_compatible (h.compatible_applyOverloads.sublist hsublist)

/-- A type without conflicts is left as it is. -/
theorem applyOverloads_eq_self (h : t.conflicts = []) : (OverloadPlan.ofConflicts t.conflicts).applyTo t = t := by
  have hstay : ∀ info, (OverloadPlan.ofConflicts t.conflicts).moveInfo info = info := by
    intro info
    simp [OverloadPlan.moveInfo, OverloadPlan.placement?, OverloadPlan.ofConflicts, h]
  have hmembers : t.members.mapInfo (fun _ => (OverloadPlan.ofConflicts t.conflicts).moveInfo) = t.members :=
    Members.mapInfo_eq_self_iff.2 fun x _ => hstay x.2
  unfold OverloadPlan.applyTo
  rw [hmembers]

end TypeSymbol

end Exonym
