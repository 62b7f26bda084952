import Exonym.Proofs.Overload.Resolved

/-!
# Who has to give way

The members on the surfaces of a type that have one erasure are rivals. A rival has to move exactly when another one
comes before it: whichever it is if the rivals return different types, and one that takes the same parameters if they
all return the same. So whoever gives way gives way to one that stays.

Main statements:

* `Conflict.demoted_of_among_iff`, `Conflict.demoted_of_inBucket_iff`: who has to move, in a group and in a bucket.
* `TypeSymbol.OwnsMembers.mem_rivals_applyOverloads`: the rivals that are left are those that none comes before.
* `TypeSymbol.OwnsMembers.exists_stays`: whoever has to move gives way to a rival that stays.
* `TypeSymbol.OwnsMembers.placement?_of_rival`: where a rival goes.
-/

namespace Exonym

namespace Candidate

instance : Std.TransCmp plainest :=
  inferInstanceAs (Std.TransCmp (compareLex (compareOn isExplicit) declared))

instance : Std.TransCmp widest :=
  inferInstanceAs (Std.TransCmp (compareLex (compareOn byRefCount) (compareLex (compareOn constraintCount) declared)))

variable {a b c : Candidate} {rivals rivals' : List Candidate}

theorem same_of_plainest (h : plainest a b = .eq) : a.id.same b.id = true := by
  unfold plainest compareLex at h
  rw [Ordering.then_eq_eq] at h
  exact same_of_declared h.2

theorem same_of_widest (h : widest a b = .eq) : a.id.same b.id = true := by
  simp only [widest, compareLex, Ordering.then_eq_eq] at h
  exact same_of_declared h.2.2

/-- Some of the candidates return different types. -/
def ReturnsDiffer (rivals : List Candidate) : Prop :=
  ∃ a ∈ rivals, ∃ b ∈ rivals, a.returnType ≠ b.returnType

instance : Decidable (ReturnsDiffer rivals) :=
  inferInstanceAs (Decidable (∃ a ∈ rivals, ∃ b ∈ rivals, _))

theorem returnsDiffer_cons_iff :
    ReturnsDiffer (a :: rivals) ↔ ∃ b ∈ a :: rivals, b.returnType ≠ a.returnType := by
  constructor
  · rintro ⟨x, hx, y, hy, hne⟩
    by_cases hxa : x.returnType = a.returnType
    · exact ⟨y, hy, fun hya => hne (hxa.trans hya.symm)⟩
    · exact ⟨x, hx, hxa⟩
  · rintro ⟨b, hb, hne⟩
    exact ⟨b, hb, a, List.mem_cons_self, hne⟩

/-- The first of two rivals comes before the second, which has to move for it. -/
def Outranks (rivals : List Candidate) (b a : Candidate) : Prop :=
  if ReturnsDiffer rivals then plainest b a = .lt else b.parameters = a.parameters ∧ widest b a = .lt

instance : Decidable (Outranks rivals b a) := by
  unfold Outranks
  infer_instance

theorem outranks_of_differ (h : ReturnsDiffer rivals) : Outranks rivals b a ↔ plainest b a = .lt := by
  simp [Outranks, h]

theorem outranks_of_not_differ (h : ¬ReturnsDiffer rivals) :
    Outranks rivals b a ↔ b.parameters = a.parameters ∧ widest b a = .lt := by
  simp [Outranks, h]

theorem returnsDiffer_congr (h : ∀ x, x ∈ rivals ↔ x ∈ rivals') : ReturnsDiffer rivals ↔ ReturnsDiffer rivals' := by
  simp only [ReturnsDiffer, h]

theorem outranks_congr (h : ∀ x, x ∈ rivals ↔ x ∈ rivals') : Outranks rivals b a ↔ Outranks rivals' b a := by
  simp only [Outranks, returnsDiffer_congr h]

/-- What kind of conflict there is among rivals, if there is any. -/
def conflictKind (rivals : List Candidate) : ConflictKind :=
  if ReturnsDiffer rivals then .returnType else .modifierOnly

end Candidate

namespace Conflict

open Candidate

variable {erasure : Erasure} {kind : ConflictKind} {order : Candidate → Candidate → Ordering}
  {group bucket : List Candidate} {a b : Candidate} {c : Conflict}

/-- Members of a group that are told apart by their identities. -/
theorem eq_of_distinct (hdistinct : group.Pairwise fun a b => a.id.same b.id = false) {a b : Candidate} (ha : a ∈ group)
    (hb : b ∈ group) (h : a.id.same b.id = true) : a = b := by
  have : Std.Symm fun a b : Candidate => a.id.same b.id = false := ⟨fun a b hab => by rw [MemberId.same_comm, hab]⟩
  by_contra hne
  simp [hdistinct.forall ha hb hne] at h

theorem not_lt_self [Std.TransCmp order] (a : Candidate) : order a a ≠ .lt := by
  have hself : order a a = .eq := Std.ReflCmp.compare_self
  simp [hself]

/-- What is first in a sorted group comes after nothing. -/
theorem not_lt_first [Std.TransCmp order] {first : Candidate} {rest : List Candidate}
    (h : (group.mergeSort fun a b => (order a b).isLE) = first :: rest) (hb : b ∈ group) : order b first ≠ .lt := by
  intro hlt
  have hsorted := pairwise_sort (c := order) (fun x => x) group
  have hmem : b ∈ group.mergeSort fun a b => (order a b).isLE := List.mem_mergeSort.2 hb
  rw [h] at hsorted hmem
  rcases List.mem_cons.1 hmem with rfl | hmem
  · exact not_lt_self b hlt
  · have hle := (List.pairwise_cons.1 hsorted).1 b hmem
    have hswap : order first b = (order b first).swap := Std.OrientedCmp.eq_swap
    rw [hswap, hlt] at hle
    simp at hle

/-- Of two members one comes before the other, if they are not one member. -/
theorem lt_of_not_lt [Std.TransCmp order] (horder : ∀ a b, order a b = .eq → a.id.same b.id = true)
    (hdistinct : group.Pairwise fun a b => a.id.same b.id = false) (ha : a ∈ group) (hb : b ∈ group)
    (h : order a b ≠ .lt) : b = a ∨ order b a = .lt := by
  cases hba : order b a with
  | lt => exact .inr rfl
  | eq => exact .inl (eq_of_distinct hdistinct hb ha (horder b a hba))
  | gt => exact absurd (Std.OrientedCmp.lt_of_gt hba) h

/-- Some member of a group comes first, before any given other one. -/
theorem exists_first [Std.TransCmp order] (horder : ∀ a b, order a b = .eq → a.id.same b.id = true)
    (hdistinct : group.Pairwise fun a b => a.id.same b.id = false) (ha : a ∈ group) :
    ∃ b ∈ group, (∀ x ∈ group, order x b ≠ .lt) ∧ (b = a ∨ order b a = .lt) := by
  have hmem : ∀ x, x ∈ (group.mergeSort fun a b => (order a b).isLE) ↔ x ∈ group := fun x => List.mem_mergeSort
  match hlist : group.mergeSort fun a b => (order a b).isLE with
  | [] => simp [← hmem, hlist] at ha
  | first :: rest =>
    have hfirst : first ∈ group := (hmem first).1 (hlist ▸ List.mem_cons_self)
    exact ⟨first, hfirst, fun _ => not_lt_first hlist,
      lt_of_not_lt horder hdistinct ha hfirst (not_lt_first hlist ha)⟩

/-- In a group those have to move that another one comes before. -/
theorem demoted_of_among_iff [Std.TransCmp order] (horder : ∀ a b, order a b = .eq → a.id.same b.id = true)
    (hdistinct : group.Pairwise fun a b => a.id.same b.id = false) (ha : a ∈ group) :
    (∃ c, among erasure kind order group = some c ∧ a.id ∈ c.demoted) ↔ ∃ b ∈ group, order b a = .lt := by
  have hmem : ∀ x, x ∈ (group.mergeSort fun a b => (order a b).isLE) ↔ x ∈ group := fun x => List.mem_mergeSort
  have hapart : (group.mergeSort fun a b => (order a b).isLE).Pairwise fun a b => a.id.same b.id = false :=
    (List.mergeSort_perm group _).symm.pairwise hdistinct fun hab => by rw [MemberId.same_comm, hab]
  unfold among
  -- the first of the sorted group is kept, and the others have to move
  match hlist : group.mergeSort fun a b => (order a b).isLE with
  | [] => simp [← hmem, hlist] at ha
  | [only] =>
    simp only [hlist, List.mem_singleton] at hmem
    simp [← hmem, (hmem a).2 ha, not_lt_self]
  | kept :: next :: rest =>
    rw [hlist] at hapart
    simp only [hlist] at hmem
    simp only [Option.some.injEq, exists_eq_left']
    constructor
    · intro hdemoted
      obtain ⟨x, hx, hxid⟩ := List.mem_map.1 hdemoted
      obtain rfl := eq_of_distinct hdistinct ((hmem x).1 (List.mem_cons_of_mem _ hx)) ha (by simp [hxid])
      have hkept : kept ∈ group := (hmem kept).1 List.mem_cons_self
      refine ⟨kept, hkept, (lt_of_not_lt horder hdistinct ha hkept (not_lt_first hlist ha)).resolve_left ?_⟩
      rintro rfl
      simpa using (List.pairwise_cons.1 hapart).1 kept hx
    · rintro ⟨b, hb, hlt⟩
      refine List.mem_map_of_mem ((List.mem_cons.1 ((hmem a).2 ha)).resolve_left ?_)
      rintro rfl
      exact not_lt_first hlist hb hlt

/-- The conflicts in a bucket, by what its members return. -/
theorem inBucket_eq : inBucket erasure bucket =
    if ReturnsDiffer bucket then (among erasure .returnType plainest bucket).toList
    else (Grouping.groups (bucket.map fun c => (c.parameters, c))).filterMap fun (_, group) =>
      among erasure .modifierOnly widest group := by
  unfold inBucket
  cases bucket with
  | nil => rfl
  | cons first rest =>
    have hdiffer : (first :: rest).any (·.returnType ≠ first.returnType) = true ↔ ReturnsDiffer (first :: rest) := by
      simp only [returnsDiffer_cons_iff, List.any_eq_true, decide_eq_true_eq]
    simp only [hdiffer]

/-- The members of a bucket that take the same parameters as one of them are a group. -/
theorem mem_groups_parameters {parameters : List String} :
    (parameters, group) ∈ Grouping.groups (bucket.map fun c => (c.parameters, c)) ↔
      (∃ c ∈ bucket, c.parameters = parameters) ∧ group = bucket.filter (·.parameters = parameters) := by
  rw [Grouping.mem_groups]
  simp [List.filter_map, Function.comp_def]

theorem kind_of_mem_inBucket (h : c ∈ inBucket erasure bucket) : c.kind = conflictKind bucket := by
  have hkind : ∀ {kind order group}, among erasure kind order group = some c → c.kind = kind := by
    intro kind order group hc
    unfold among at hc
    split at hc
    · rw [← Option.some.inj hc]
    · simp at hc
  rw [inBucket_eq] at h
  unfold conflictKind
  split at h
  · rename_i hdiffer
    rw [if_pos hdiffer]
    exact hkind (Option.mem_toList.1 h)
  · rename_i hsame
    rw [if_neg hsame]
    obtain ⟨⟨_, group⟩, -, hc⟩ := List.mem_filterMap.1 h
    exact hkind hc

/-- In a bucket those have to move that another one outranks. -/
theorem demoted_of_inBucket_iff (hdistinct : bucket.Pairwise fun a b => a.id.same b.id = false) (ha : a ∈ bucket) :
    (∃ c ∈ inBucket erasure bucket, a.id ∈ c.demoted) ↔ ∃ b ∈ bucket, Outranks bucket b a := by
  rw [inBucket_eq]
  unfold Outranks
  split
  · have hwhole : (∃ c, among erasure .returnType plainest bucket = some c ∧ a.id ∈ c.demoted) ↔
        ∃ b ∈ bucket, plainest b a = .lt := demoted_of_among_iff (fun _ _ => same_of_plainest) hdistinct ha
    rw [← hwhole]
    simp
  · -- where all return the same, only those with the same parameters are in each other's way
    have hgroup : ∀ x ∈ bucket, (∃ c, among erasure .modifierOnly widest (bucket.filter (·.parameters = x.parameters)) =
        some c ∧ x.id ∈ c.demoted) ↔ ∃ b ∈ bucket, b.parameters = x.parameters ∧ widest b x = .lt := by
      intro x hx
      rw [demoted_of_among_iff (fun _ _ => same_of_widest) (hdistinct.filter _) (List.mem_filter.2 ⟨hx, by simp⟩)]
      simp only [List.mem_filter, decide_eq_true_eq, and_assoc]
    rw [← hgroup a ha]
    constructor
    · rintro ⟨c, hc, hdemoted⟩
      obtain ⟨⟨parameters, group⟩, hmem, hc⟩ := List.mem_filterMap.1 hc
      obtain ⟨-, rfl⟩ := mem_groups_parameters.1 hmem
      obtain ⟨x, hx, hxid⟩ := (of_among hc).2 a.id (List.mem_cons_of_mem _ hdemoted)
      obtain ⟨hx, hparameters⟩ := List.mem_filter.1 hx
      obtain rfl := eq_of_distinct hdistinct hx ha (by simp [hxid])
      obtain rfl := of_decide_eq_true hparameters
      exact ⟨c, hc, hdemoted⟩
    · rintro ⟨c, hc, hdemoted⟩
      exact ⟨c, List.mem_filterMap.2 ⟨_, mem_groups_parameters.2 ⟨⟨a, ha, rfl⟩, rfl⟩, hc⟩, hdemoted⟩

end Conflict

/-! ## Rivals -/

namespace TypeSymbol

open Candidate

variable {t : TypeSymbol} {e : Erasure} {a b : Candidate}

/-- The members on the surfaces of the type of which the erasure is left. -/
def rivals (t : TypeSymbol) (e : Erasure) : List Candidate :=
  (t.listedCandidates.filter (·.1 = e)).map (·.2)

theorem mem_rivals : a ∈ t.rivals e ↔ (e, a) ∈ t.listedCandidates := by
  unfold rivals
  rw [List.mem_map]
  constructor
  · rintro ⟨⟨other, x⟩, hx, rfl⟩
    obtain ⟨hlisted, heq⟩ := List.mem_filter.1 hx
    obtain rfl : other = e := of_decide_eq_true heq
    exact hlisted
  · exact fun h => ⟨(e, a), List.mem_filter.2 ⟨h, by simp⟩, rfl⟩

theorem mem_rivals_iff : a ∈ t.rivals e ↔
    (∃ m ∈ t.members.methods, m.info.onPrimarySurface = true ∧ ofMethod m = (e, a)) ∨
      ∃ p ∈ t.members.properties, p.info.onPrimarySurface = true ∧ ofProperty p = (e, a) := by
  simp only [mem_rivals, listedCandidates, List.mem_append, List.mem_map, List.mem_filter, and_assoc]

theorem OwnsMembers.pairwise_rivals (h : t.OwnsMembers) (e : Erasure) :
    (t.rivals e).Pairwise fun a b => a.id.same b.id = false :=
  List.pairwise_map.2 (h.pairwise_listedCandidates.filter _)

/-- A member has one erasure. -/
theorem OwnsMembers.eq_of_mem_rivals (h : t.OwnsMembers) {e' : Erasure} (ha : a ∈ t.rivals e) (hb : b ∈ t.rivals e')
    (hid : a.id.same b.id = true) : e = e' ∧ a = b := by
  have : Std.Symm fun a b : Erasure × Candidate => a.2.id.same b.2.id = false :=
    ⟨fun a b hab => by rw [MemberId.same_comm, hab]⟩
  have heq : ((e, a) : Erasure × Candidate) = (e', b) := by
    by_contra hne
    simp [h.pairwise_listedCandidates.forall (mem_rivals.1 ha) (mem_rivals.1 hb) hne] at hid
  exact Prod.mk.inj heq

/-- The bucket of an erasure holds its rivals. -/
theorem mem_buckets {bucket : List Candidate} (h : (e, bucket) ∈ t.buckets) : bucket.Perm (t.rivals e) := by
  obtain ⟨-, rfl⟩ := Grouping.mem_groups.1 h
  exact ((List.mergeSort_perm t.listedCandidates _).filter _).map _

theorem exists_bucket (ha : a ∈ t.rivals e) : ∃ bucket, (e, bucket) ∈ t.buckets :=
  Grouping.exists_mem_groups (e := (e, a)) (mem_candidates.2 (mem_rivals.1 ha))

/-- A conflict that is about a rival is one in the bucket of its erasure. -/
theorem OwnsMembers.mem_inBucket_of_demoted (h : t.OwnsMembers) (ha : a ∈ t.rivals e) {bucket : List Candidate}
    (hbucket : (e, bucket) ∈ t.buckets) {c : Conflict} (hc : c ∈ t.conflicts) {id : MemberId} (hid : id ∈ c.demoted)
    (hsame : id.same a.id = true) : c ∈ Conflict.inBucket e bucket ∧ id = a.id := by
  obtain ⟨⟨e', bucket'⟩, hbucket', hc⟩ := List.mem_flatMap.1 hc
  obtain ⟨x, hx, rfl⟩ := (Conflict.of_mem_inBucket hc).2 id (List.mem_cons_of_mem _ hid)
  obtain ⟨rfl, rfl⟩ := h.eq_of_mem_rivals ((mem_buckets hbucket').mem_iff.1 hx) ha hsame
  obtain ⟨-, rfl⟩ := Grouping.mem_groups.1 hbucket
  obtain ⟨-, rfl⟩ := Grouping.mem_groups.1 hbucket'
  exact ⟨hc, rfl⟩

/-- The conflicts that a rival has to move for are of one kind, and it has to move if another rival outranks it. -/
theorem OwnsMembers.demoted_iff (h : t.OwnsMembers) (ha : a ∈ t.rivals e) {kind : ConflictKind} :
    (∃ c ∈ t.conflicts, c.kind = kind ∧ ∃ id ∈ c.demoted, id.same a.id = true) ↔
      kind = conflictKind (t.rivals e) ∧ ∃ b ∈ t.rivals e, Outranks (t.rivals e) b a := by
  obtain ⟨bucket, hbucket⟩ := exists_bucket ha
  have hperm := mem_buckets hbucket
  have hdistinct : bucket.Pairwise fun a b => a.id.same b.id = false :=
    hperm.symm.pairwise (h.pairwise_rivals e) fun hab => by rw [MemberId.same_comm, hab]
  have hkind : conflictKind bucket = conflictKind (t.rivals e) := by
    simp only [conflictKind, returnsDiffer_congr fun x => hperm.mem_iff]
  have hdemoted : (∃ c ∈ Conflict.inBucket e bucket, a.id ∈ c.demoted) ↔ ∃ b ∈ bucket, Outranks bucket b a :=
    Conflict.demoted_of_inBucket_iff hdistinct (hperm.mem_iff.2 ha)
  simp only [hperm.mem_iff, outranks_congr fun x => hperm.mem_iff] at hdemoted
  rw [← hdemoted]
  constructor
  · rintro ⟨c, hc, rfl, id, hid, hsame⟩
    obtain ⟨hc, rfl⟩ := h.mem_inBucket_of_demoted ha hbucket hc hid hsame
    exact ⟨(Conflict.kind_of_mem_inBucket hc).trans hkind, c, hc, hid⟩
  · rintro ⟨rfl, c, hc, hid⟩
    refine ⟨c, List.mem_flatMap.2 ⟨_, hbucket, hc⟩, ?_, a.id, hid, MemberId.same_refl _⟩
    exact (Conflict.kind_of_mem_inBucket hc).trans hkind

/-- Where a rival goes. -/
theorem OwnsMembers.placement?_of_rival (h : t.OwnsMembers) (ha : a ∈ t.rivals e) :
    (OverloadPlan.ofConflicts t.conflicts).placement? a.id =
      if ∃ b ∈ t.rivals e, Outranks (t.rivals e) b a then some (conflictKind (t.rivals e)).placement else none := by
  cases hq : (OverloadPlan.ofConflicts t.conflicts).placement? a.id with
  | none =>
    rw [if_neg]
    intro hb
    obtain ⟨c, hc, -, hid⟩ := (h.demoted_iff ha).2 ⟨rfl, hb⟩
    have := OverloadPlan.placement?_isSome_iff.2 ⟨c, hc, hid⟩
    simp [hq] at this
  | some q =>
    obtain ⟨c, hc, rfl, hid⟩ := OverloadPlan.exists_of_placement? hq
    obtain ⟨hkind, hb⟩ := (h.demoted_iff ha).1 ⟨c, hc, rfl, hid⟩
    rw [if_pos hb, hkind]

/-- A member that has to move is a rival. -/
theorem OwnsMembers.rival_of_placement? (h : t.OwnsMembers) {x : MemberKind × MemberInfo} (hx : x ∈ t.members.infos)
    {q : Placement} (hq : (OverloadPlan.ofConflicts t.conflicts).placement? x.2.id = some q) :
    ∃ e, ∃ a ∈ t.rivals e, a.id = x.2.id := by
  obtain ⟨-, -, -, -, -, -, ⟨e, a⟩, ha, -, haid⟩ := h.candidate_of_placement? hx hq
  exact ⟨e, a, mem_rivals.2 (mem_candidates.1 ha), haid⟩

/-! ## Those that stay -/

/-- Candidates that do not have to move are left. -/
theorem listedCandidates_applyOverloads (t : TypeSymbol) :
    ((OverloadPlan.ofConflicts t.conflicts).applyTo t).listedCandidates =
      t.listedCandidates.filter fun a => ((OverloadPlan.ofConflicts t.conflicts).placement? a.2.id).isNone := by
  have hinfo : ∀ info : MemberInfo, ((OverloadPlan.ofConflicts t.conflicts).moveInfo info).onPrimarySurface =
      (((OverloadPlan.ofConflicts t.conflicts).placement? info.id).isNone && info.onPrimarySurface) := by
    intro info
    unfold OverloadPlan.moveInfo
    cases hq : (OverloadPlan.ofConflicts t.conflicts).placement? info.id with
    | none => simp
    | some q => simpa [MemberInfo.onPrimarySurface] using isPrimary_of_placement? hq
  unfold listedCandidates OverloadPlan.applyTo
  simp only [Members.mapInfo, List.filter_append, List.filter_map, List.map_map, Function.comp_def, hinfo,
    List.filter_filter]
  rfl

theorem OwnsMembers.mem_rivals_applyOverloads (h : t.OwnsMembers) :
    a ∈ ((OverloadPlan.ofConflicts t.conflicts).applyTo t).rivals e ↔
      a ∈ t.rivals e ∧ ∀ b ∈ t.rivals e, ¬Outranks (t.rivals e) b a := by
  rw [mem_rivals, listedCandidates_applyOverloads, List.mem_filter, ← mem_rivals, and_congr_right_iff]
  intro ha
  rw [h.placement?_of_rival ha]
  split <;> simp_all

theorem rivals_sublist (t : TypeSymbol) (e : Erasure) :
    (((OverloadPlan.ofConflicts t.conflicts).applyTo t).rivals e).Sublist (t.rivals e) := by
  unfold rivals
  rw [listedCandidates_applyOverloads]
  exact (List.filter_sublist.filter _).map _

/-- Every rival gives way to one that stays, unless it stays itself. -/
theorem OwnsMembers.exists_stays (h : t.OwnsMembers) (ha : a ∈ t.rivals e) :
    ∃ b ∈ ((OverloadPlan.ofConflicts t.conflicts).applyTo t).rivals e, b = a ∨ Outranks (t.rivals e) b a := by
  have hdistinct := h.pairwise_rivals e
  by_cases hdiffer : ReturnsDiffer (t.rivals e)
  · obtain ⟨b, hb, hfirst, hba⟩ := Conflict.exists_first (fun _ _ => same_of_plainest) hdistinct ha
    simp only [h.mem_rivals_applyOverloads, outranks_of_differ hdiffer]
    exact ⟨b, ⟨hb, hfirst⟩, hba⟩
  · -- only those that take the same parameters are in the way of one another
    have ha' : a ∈ (t.rivals e).filter (·.parameters = a.parameters) := List.mem_filter.2 ⟨ha, by simp⟩
    obtain ⟨b, hb, hfirst, hba⟩ := Conflict.exists_first (fun _ _ => same_of_widest) (hdistinct.filter _) ha'
    obtain ⟨hb, hparameters⟩ := List.mem_filter.1 hb
    have hparameters : b.parameters = a.parameters := of_decide_eq_true hparameters
    simp only [h.mem_rivals_applyOverloads, outranks_of_not_differ hdiffer]
    refine ⟨b, ⟨hb, fun x hx hxb => hfirst x (List.mem_filter.2 ⟨hx, ?_⟩) hxb.2⟩, hba.imp_right (.intro hparameters)⟩
    simpa using hxb.1.trans hparameters

end TypeSymbol

end Exonym
