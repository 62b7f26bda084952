import Exonym.Graph
import Exonym.Proofs.Graph.Traverse
import Exonym.Proofs.Sorting
import Mathlib.Data.List.Nodup
import Mathlib.Data.List.Pairwise

/-!
# What a graph that was built is known to satisfy

Building checks a list of types and aliases and then settles every type in its place. The check is passed exactly
when identities are told apart, members are those of their types, and everything referred to by identity is there;
what settling changes of a member is whether it is static, and its placement.

Main statements:

* `SymbolGraph.fault?_eq_none_iff`: when types and aliases make a graph.
* `SymbolGraph.consistent_of_build`: a graph that was built is consistent.
-/

namespace Exonym

/-- The identities of the members, in their order. -/
def TypeSymbol.memberIds (t : TypeSymbol) : List MemberId :=
  t.members.infos.map (·.2.id)

/-- The members of a type name it as theirs, and no two of them are the same. -/
structure TypeSymbol.OwnsMembers (t : TypeSymbol) : Prop where
  owned : ∀ id ∈ t.memberIds, id.declaringTypeId = t.id
  distinct : t.memberIds.Pairwise fun a b => a.same b = false

/-- Types are told apart by their identities, and members by theirs. -/
structure SymbolGraph.Consistent (g : SymbolGraph) : Prop where
  types : g.types.Pairwise fun t u => t.id ≠ u.id
  members : ∀ t ∈ g.types, t.OwnsMembers

theorem MemberId.same_comm (a b : MemberId) : a.same b = b.same a := by
  simp [MemberId.same, eq_comm]

@[simp] theorem MemberId.same_refl (a : MemberId) : a.same a = true := by
  simp [MemberId.same]

theorem MemberId.same_congr {a b : MemberId} (h : a.same b = true) (c : MemberId) : a.same c = b.same c := by
  simp only [MemberId.same, decide_eq_true_eq] at h
  simp [MemberId.same, h]

namespace TypeSymbol

theorem OwnsMembers.congr {t u : TypeSymbol} (h : t.OwnsMembers) (hid : u.id = t.id)
    (hids : u.memberIds = t.memberIds) : u.OwnsMembers :=
  ⟨fun id hm => (h.owned id (hids ▸ hm)).trans hid.symm, hids ▸ h.distinct⟩

/-- Two members of one identity are one member. -/
theorem OwnsMembers.eq_of_same {t : TypeSymbol} (h : t.OwnsMembers) {x y : MemberKind × MemberInfo}
    (hx : x ∈ t.members.infos) (hy : y ∈ t.members.infos) (hid : x.2.id.same y.2.id = true) : x = y := by
  have hp := List.pairwise_map.1 h.distinct
  have : Std.Symm fun x y : MemberKind × MemberInfo => x.2.id.same y.2.id = false :=
    ⟨fun a b hab => by rw [MemberId.same_comm, hab]⟩
  by_contra hne
  simp [hp.forall hx hy hne] at hid

theorem OwnsMembers.find?_eq {t : TypeSymbol} (h : t.OwnsMembers) {x : MemberKind × MemberInfo}
    (hx : x ∈ t.members.infos) {id : MemberId} (hid : x.2.id.same id = true) :
    t.members.find? id = some x := by
  unfold Members.find?
  cases hf : t.members.infos.find? (fun x => x.2.id.same id) with
  | none => simpa [hid] using List.find?_eq_none.1 hf x hx
  | some y =>
    have hy : y.2.id.same id = true := by simpa using List.find?_some hf
    rw [h.eq_of_same hx (List.mem_of_find?_eq_some hf) (by rw [MemberId.same_congr hid, MemberId.same_comm, hy])]

end TypeSymbol

theorem Members.mem_of_find? {m : Members} {id : MemberId} {x : MemberKind × MemberInfo}
    (h : m.find? id = some x) : x ∈ m.infos ∧ x.2.id.same id = true :=
  ⟨List.mem_of_find?_eq_some h, by simpa using List.find?_some h⟩

namespace Members

/-- Two changes of what the members share are one if they agree on every member. -/
theorem mapInfo_eq_mapInfo_iff {m : Members} {f f' : MemberKind → MemberInfo → MemberInfo} :
    m.mapInfo f = m.mapInfo f' ↔ ∀ x ∈ m.infos, f x.1 x.2 = f' x.1 x.2 := by
  constructor
  · intro h x hx
    have hinfos := congrArg infos h
    rw [infos_mapInfo, infos_mapInfo, List.map_inj_left] at hinfos
    exact (Prod.mk.inj (hinfos x hx)).2
  · intro h
    simp only [infos, List.mem_append, List.mem_map] at h
    unfold mapInfo
    congr 1
    all_goals
      refine List.map_congr_left fun x hx => ?_
      rw [h (_, x.info) (by simpa using ⟨x, hx, rfl⟩)]

theorem mapInfo_eq_self_iff {m : Members} {f : MemberKind → MemberInfo → MemberInfo} :
    m.mapInfo f = m ↔ ∀ x ∈ m.infos, f x.1 x.2 = x.2 := by
  have hself : m.mapInfo (fun _ info => info) = m := by simp [mapInfo]
  conv => lhs; rhs; rw [← hself]
  exact mapInfo_eq_mapInfo_iff

end Members

namespace SymbolGraph

theorem Consistent.nodup_ids {g : SymbolGraph} (hg : g.Consistent) : (g.types.map (·.id)).Nodup :=
  List.pairwise_map.2 hg.types

theorem Consistent.eq_of_id {g : SymbolGraph} (hg : g.Consistent) {t u : TypeSymbol} (ht : t ∈ g.types)
    (hu : u ∈ g.types) (h : t.id = u.id) : t = u :=
  List.inj_on_of_nodup_map hg.nodup_ids ht hu h

/-- A graph stays consistent when other types take the places of its types and keep the identities, their own and those
of their members. -/
theorem Consistent.of_forall₂ {g g' : SymbolGraph} (hg : g.Consistent)
    (h : List.Forall₂ (fun t u => u.id = t.id ∧ (t.OwnsMembers → u.OwnsMembers)) g.types g'.types) :
    g'.Consistent := by
  have hids : g.types.map (·.id) = g'.types.map (·.id) := map_eq_of_forall₂ h fun _ _ htu => htu.1.symm
  refine ⟨List.pairwise_map.1 (hids ▸ hg.nodup_ids), fun u hu => ?_⟩
  obtain ⟨t, ht, -, howns⟩ := exists_of_mem_right h hu
  exact howns (hg.members t ht)

theorem Consistent.find?_eq {g : SymbolGraph} (hg : g.Consistent) {t : TypeSymbol} (ht : t ∈ g.types) :
    g.find? t.id = some t := by
  cases hf : g.find? t.id with
  | none => simpa using List.find?_eq_none.1 hf t ht
  | some u =>
    obtain ⟨hid, hu⟩ := find?_eq_some hf
    rw [hg.eq_of_id hu ht hid]

/-- Members of one identity are one member of one type. -/
theorem Consistent.eq_of_same {g : SymbolGraph} (hg : g.Consistent) {t u : TypeSymbol}
    {x y : MemberKind × MemberInfo} (ht : t ∈ g.types) (hx : x ∈ t.members.infos) (hu : u ∈ g.types)
    (hy : y ∈ u.members.infos) (hsame : y.2.id.same x.2.id = true) : u = t ∧ y = x := by
  have howner : y.2.id.declaringTypeId = x.2.id.declaringTypeId := by
    show y.2.id.bare.declaringTypeId = x.2.id.bare.declaringTypeId
    rw [MemberId.same_iff.1 hsame]
  rw [(hg.members u hu).owned _ (List.mem_map_of_mem hy), (hg.members t ht).owned _ (List.mem_map_of_mem hx)] at howner
  obtain rfl := hg.eq_of_id hu ht howner
  exact ⟨rfl, (hg.members u hu).eq_of_same hy hx hsame⟩

/-! ## Settling -/

@[simp] theorem settleInfo_id (allStatic : Bool) (kind : MemberKind) (info : MemberInfo) :
    (settleInfo allStatic kind info).id = info.id := by
  unfold settleInfo
  grind

@[simp] theorem settle_id (t : TypeSymbol) : (settle t).id = t.id := rfl

@[simp] theorem settle_views (t : TypeSymbol) : (settle t).views = t.views := rfl

theorem infos_settle (t : TypeSymbol) :
    (settle t).members.infos = t.members.infos.map fun x => (x.1, settleInfo t.flags.isStatic x.1 x.2) :=
  Members.infos_mapInfo _ _

@[simp] theorem memberIds_settle (t : TypeSymbol) : (settle t).memberIds = t.memberIds := by
  simp [TypeSymbol.memberIds, infos_settle]

theorem settleInfo_settleInfo (allStatic : Bool) (kind : MemberKind) (info : MemberInfo) :
    settleInfo allStatic kind (settleInfo allStatic kind info) = settleInfo allStatic kind info := by
  unfold settleInfo
  grind

/-- Settling a second time changes nothing. -/
theorem settle_settle (t : TypeSymbol) : settle (settle t) = settle t := by
  have hmembers : (t.members.mapInfo (settleInfo t.flags.isStatic)).mapInfo (settleInfo t.flags.isStatic) =
      t.members.mapInfo (settleInfo t.flags.isStatic) := by
    simp [Members.mapInfo, settleInfo_settleInfo]
  have hnested := sort_sort (c := (compare : TypeId → TypeId → Ordering)) (fun id => id) t.nestedTypes
  unfold settle
  simp only [hmembers, hnested]

/-- A type is settled when none of its members has to be, and its nested types are in order. -/
theorem settle_eq_self_iff {t : TypeSymbol} :
    settle t = t ↔ (∀ x ∈ t.members.infos, settleInfo t.flags.isStatic x.1 x.2 = x.2) ∧
      t.nestedTypes.mergeSort (fun a b => (compare a b).isLE) = t.nestedTypes := by
  rw [← Members.mapInfo_eq_self_iff]
  constructor
  · intro h
    exact ⟨congrArg TypeSymbol.members h, congrArg TypeSymbol.nestedTypes h⟩
  · rintro ⟨hmembers, hnested⟩
    unfold settle
    rw [hmembers, hnested]

/-! ## Building -/

theorem firstRepeated?_eq_none_iff {α : Type} {same : α → α → Bool} {seen xs : List α} :
    firstRepeated? same seen xs = none ↔
      (∀ x ∈ xs, ∀ y ∈ seen, same y x = false) ∧ xs.Pairwise fun x y => same x y = false := by
  induction xs generalizing seen with
  | nil => simp [firstRepeated?]
  | cons x rest ih =>
    unfold firstRepeated?
    split
    · rename_i h
      obtain ⟨y, hy, hyx⟩ := List.any_eq_true.1 h
      refine iff_of_false (by simp) fun hall => ?_
      simp [hall.1 x (by simp) y hy] at hyx
    · rename_i h
      have hx : ∀ y ∈ seen, same y x = false := by simpa using h
      rw [ih, List.pairwise_cons]
      grind

theorem memberFault?_eq_none_iff {owner : TypeId} {seen ids : List MemberId} :
    memberFault? owner seen ids = none ↔ (∀ id ∈ ids, id.declaringTypeId = owner) ∧
      (∀ id ∈ ids, ∀ other ∈ seen, other.same id = false) ∧ ids.Pairwise fun a b => a.same b = false := by
  induction ids generalizing seen with
  | nil => simp [memberFault?]
  | cons id rest ih =>
    unfold memberFault?
    split
    · rename_i h
      exact iff_of_false (by simp) fun hall => h (hall.1 id (by simp))
    · rename_i howner
      have howner : id.declaringTypeId = owner := by simpa using howner
      split
      · rename_i h
        obtain ⟨other, ho, hsame⟩ := List.any_eq_true.1 h
        refine iff_of_false (by simp) fun hall => ?_
        simp [hall.2.1 id (by simp) other ho] at hsame
      · rename_i h
        have hid : ∀ other ∈ seen, other.same id = false := by simpa using h
        rw [ih, List.pairwise_cons]
        grind

theorem ownsMembers_iff {t : TypeSymbol} :
    t.OwnsMembers ↔ memberFault? t.id [] (t.members.infos.map (·.2.id)) = none := by
  rw [memberFault?_eq_none_iff]
  constructor
  · rintro ⟨howned, hdistinct⟩
    exact ⟨howned, by simp, hdistinct⟩
  · rintro ⟨howned, -, hdistinct⟩
    exact ⟨howned, hdistinct⟩

/-- A list of types and aliases has no fault exactly when nothing is there twice, nothing is out of its place and
nothing is missing. -/
theorem fault?_eq_none_iff {types : List TypeSymbol} {aliases : List Alias} :
    fault? types aliases = none ↔ types.Pairwise (fun t u => t.id ≠ u.id) ∧ (∀ t ∈ types, t.OwnsMembers) ∧
      (∀ t ∈ types, linkFault? (types.map (·.id)) (settle t) = none) ∧
      ∀ a ∈ aliases, a.target ∈ types.map (·.id) := by
  simp only [fault?, Option.or_eq_none_iff, Option.map_eq_none_iff, firstRepeated?_eq_none_iff,
    List.findSome?_eq_none_iff, List.find?_eq_none, List.pairwise_map, ownsMembers_iff, List.mem_map]
  grind

theorem build_eq_ok_iff {types : List TypeSymbol} {aliases : List Alias} {g : SymbolGraph} :
    build types aliases = .ok g ↔ fault? (sortTypes types) aliases = none ∧
      g = ⟨(sortTypes types).map settle, sortAliases aliases⟩ := by
  unfold build
  cases h : fault? (sortTypes types) aliases <;> simp [h, eq_comm]

theorem consistent_of_build {types : List TypeSymbol} {aliases : List Alias} {g : SymbolGraph}
    (h : build types aliases = .ok g) : g.Consistent := by
  obtain ⟨hfault, rfl⟩ := build_eq_ok_iff.1 h
  obtain ⟨hids, hmembers, -⟩ := fault?_eq_none_iff.1 hfault
  refine ⟨List.pairwise_map.2 (hids.imp fun hne => by simpa using hne), ?_⟩
  simp only [List.mem_map, forall_exists_index, and_imp, forall_apply_eq_imp_iff₂]
  intro t ht
  exact (hmembers t ht).congr (settle_id t) (memberIds_settle t)

theorem mem_types_of_build {types : List TypeSymbol} {aliases : List Alias} {g : SymbolGraph}
    (h : build types aliases = .ok g) {t : TypeSymbol} : t ∈ g.types ↔ ∃ u ∈ types, settle u = t := by
  obtain ⟨-, rfl⟩ := build_eq_ok_iff.1 h
  simp [sortTypes]

/-- The definition of `settle`, for places where it is applied to nothing. -/
theorem settle_eq : settle = fun t => { t with
    members := t.members.mapInfo (settleInfo t.flags.isStatic)
    nestedTypes := t.nestedTypes.mergeSort fun a b => (compare a b).isLE } := rfl

theorem settle_of_mem_build {types : List TypeSymbol} {aliases : List Alias} {g : SymbolGraph}
    (h : build types aliases = .ok g) : ∀ t ∈ g.types, settle t = t := by
  intro t ht
  obtain ⟨u, -, rfl⟩ := (mem_types_of_build h).1 ht
  exact settle_settle u

/-- A change of every type that leaves identities alone keeps the graph consistent. -/
theorem Consistent.mapTypes {g : SymbolGraph} (hg : g.Consistent) {f : TypeSymbol → TypeSymbol}
    (hid : ∀ t, (f t).id = t.id) (hids : ∀ t, (f t).memberIds = t.memberIds) : (g.mapTypes f).Consistent := by
  refine hg.of_forall₂ ?_
  rw [types_mapTypes, List.forall₂_map_right_iff, List.forall₂_same]
  exact fun t _ => ⟨hid t, fun ho => ho.congr (hid t) (hids t)⟩

end SymbolGraph

end Exonym
