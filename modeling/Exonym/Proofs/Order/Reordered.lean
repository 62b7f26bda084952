import Exonym.Sample.Draft
import Exonym.Proofs.Graph.Consistency
import Exonym.Proofs.Graph.Traverse
import Exonym.Proofs.Sorting

/-!
# Listing in another order

Two types are alike when they differ in nothing but the order in which their members are listed, and in views, which
correspond to each other. Two graphs are alike when their types are, one by one: the types of a graph have an order of
their own, whatever order they were listed in.

Main statements:

* `TypeSymbol.Alike`, `SymbolGraph.Alike`: types and graphs that were listed in different orders.
* `TypeSymbol.Alike.find?_eq`: members are found by their identities in any order.
* `SymbolGraph.exists_build_of_listedAnew`: what is listed in another order makes a graph that is alike.
-/

namespace Exonym

/-- The same members, with those of each kind in another order. -/
structure Members.Reordered (m m' : Members) : Prop where
  methods : m.methods.Perm m'.methods
  properties : m.properties.Perm m'.properties
  fields : m.fields.Perm m'.fields
  events : m.events.Perm m'.events
  constructors : m.constructors.Perm m'.constructors

/-- The same type, with its members in another order and views that correspond by `R`. -/
structure TypeSymbol.Alike (R : View → View → Prop) (t t' : TypeSymbol) : Prop where
  members : t.members.Reordered t'.members
  views : List.Forall₂ R t.views t'.views
  rest : t' = { t with members := t'.members, views := t'.views }

/-- The same graph, but for the order of members in its types and for views, which correspond by `R`. -/
structure SymbolGraph.Alike (R : View → View → Prop) (g g' : SymbolGraph) : Prop where
  types : List.Forall₂ (TypeSymbol.Alike R) g.types g'.types
  aliases : g'.aliases = g.aliases

/-- The same types in another order, with the members of each in another order. -/
def ListedAnew (types types' : List TypeSymbol) : Prop :=
  ∃ between, types.Perm between ∧ List.Forall₂ (TypeSymbol.Alike Eq) between types'

/-- Reversing all lists is one way to list types anew. -/
theorem listedAnew_reverse (types : List TypeSymbol) : ListedAnew types (TypeDraft.reverse types) := by
  refine ⟨types.reverse, types.reverse_perm.symm, ?_⟩
  unfold TypeDraft.reverse
  rw [List.forall₂_map_right_iff, List.forall₂_same]
  intro t _
  refine ⟨⟨?_, ?_, ?_, ?_, ?_⟩, List.forall₂_refl t.views, rfl⟩ <;> exact (List.reverse_perm _).symm

namespace Members

variable {m m' : Members}

theorem Reordered.infos (h : m.Reordered m') : m.infos.Perm m'.infos := by
  unfold Members.infos
  exact ((((h.methods.map _).append (h.properties.map _)).append (h.fields.map _)).append (h.events.map _)).append
    (h.constructors.map _)

theorem Reordered.mapInfo (h : m.Reordered m') (f : MemberKind → MemberInfo → MemberInfo) :
    (m.mapInfo f).Reordered (m'.mapInfo f) :=
  ⟨h.methods.map _, h.properties.map _, h.fields.map _, h.events.map _, h.constructors.map _⟩

theorem Reordered.mem_infos (h : m.Reordered m') {x : MemberKind × MemberInfo} : x ∈ m'.infos ↔ x ∈ m.infos :=
  h.infos.mem_iff.symm

end Members

namespace TypeSymbol

variable {R : View → View → Prop} {t t' : TypeSymbol}

/-- Types that are alike agree on whatever members and views have no part in. -/
theorem Alike.agree {α : Type} (h : Alike R t t') (f : TypeSymbol → α)
    (hf : ∀ members views, f { t with members := members, views := views } = f t) : f t' = f t := by
  rw [h.rest, hf]

theorem Alike.imp {S : View → View → Prop} (h : Alike R t t') (hRS : ∀ v w, R v w → S v w) : Alike S t t' :=
  ⟨h.members, h.views.imp hRS, h.rest⟩

theorem Alike.id_eq (h : Alike R t t') : t'.id = t.id :=
  h.agree TypeSymbol.id fun _ _ => rfl

theorem Alike.namespace_eq (h : Alike R t t') : t'.namespace = t.namespace :=
  h.agree TypeSymbol.namespace fun _ _ => rfl

theorem Alike.memberIds (h : Alike R t t') : t.memberIds.Perm t'.memberIds :=
  h.members.infos.map _

theorem Alike.ownsMembers (h : Alike R t t') (ho : t.OwnsMembers) : t'.OwnsMembers := by
  refine ⟨?_, ?_⟩
  · intro id hid
    rw [h.id_eq]
    exact ho.owned id (h.memberIds.mem_iff.2 hid)
  · exact h.memberIds.pairwise ho.distinct fun hab => by rw [MemberId.same_comm, hab]

/-- Members are found by their identities, wherever they are listed. -/
theorem Alike.find?_eq (h : Alike R t t') (ho : t.OwnsMembers) (id : MemberId) :
    t'.members.find? id = t.members.find? id := by
  cases hf : t.members.find? id with
  | some x =>
    obtain ⟨hx, hid⟩ := Members.mem_of_find? hf
    exact (h.ownsMembers ho).find?_eq (h.members.mem_infos.2 hx) hid
  | none =>
    unfold Members.find? at hf ⊢
    rw [List.find?_eq_none] at hf ⊢
    exact fun x hx => hf x (h.members.mem_infos.1 hx)

/-- A type that is changed in its members, one by one, stays like the other. -/
theorem Alike.mapInfo (h : Alike R t t') (f : MemberKind → MemberInfo → MemberInfo) :
    Alike R { t with members := t.members.mapInfo f } { t' with members := t'.members.mapInfo f } := by
  refine ⟨h.members.mapInfo f, h.views, ?_⟩
  rw [h.rest]

theorem Alike.settle (h : Alike R t t') : Alike R (SymbolGraph.settle t) (SymbolGraph.settle t') := by
  have hflags : t'.flags = t.flags := h.agree TypeSymbol.flags fun _ _ => rfl
  refine ⟨?_, h.views, ?_⟩
  · unfold SymbolGraph.settle
    rw [hflags]
    exact h.members.mapInfo _
  · rw [h.rest]
    rfl

end TypeSymbol

namespace SymbolGraph

variable {R : View → View → Prop} {g g' : SymbolGraph}

theorem Alike.imp {S : View → View → Prop} (h : g.Alike R g') (hRS : ∀ v w, R v w → S v w) : g.Alike S g' :=
  ⟨h.types.imp fun _ _ ht => ht.imp hRS, h.aliases⟩

theorem Alike.ids_eq (h : g.Alike R g') : g'.types.map (·.id) = g.types.map (·.id) :=
  (map_eq_of_forall₂ h.types fun _ _ ht => ht.id_eq.symm).symm

/-- The types found by an identity are alike. -/
theorem Alike.find? (h : g.Alike R g') (id : TypeId) :
    (g.find? id = none ∧ g'.find? id = none) ∨
      ∃ t t', g.find? id = some t ∧ g'.find? id = some t' ∧ t.Alike R t' := by
  unfold SymbolGraph.find?
  refine find?_of_forall₂ h.types ?_
  intro t t' ht
  rw [ht.id_eq]

theorem Alike.contains_eq (h : g.Alike R g') (id : TypeId) : g'.contains id = g.contains id := by
  have hmem : ∀ graph : SymbolGraph, graph.contains id = decide (id ∈ graph.types.map (·.id)) := by
    intro graph
    simp [contains, List.any_eq]
  rw [hmem, hmem, h.ids_eq]

theorem graphOrder_eq_iff {a b : TypeId} : TypeId.graphOrder a b = .eq ↔ a = b := by
  unfold TypeId.graphOrder
  rw [compareLex, Ordering.then_eq_eq, TypeId.compare_eq_iff]
  constructor
  · exact fun h => h.2
  · rintro rfl
    exact ⟨Std.ReflCmp.compare_self, rfl⟩

instance : Std.TransCmp TypeId.graphOrder :=
  inferInstanceAs (Std.TransCmp (compareLex (compareOn TypeId.namespace) compare))

/-- The canonical order of types does not depend on the order in which they are listed. -/
theorem sortTypes_of_listedAnew {types types' : List TypeSymbol} (h : ListedAnew types types')
    (hids : types.Pairwise fun t u => t.id ≠ u.id) :
    List.Forall₂ (TypeSymbol.Alike Eq) (sortTypes types) (sortTypes types') := by
  obtain ⟨between, hperm, halike⟩ := h
  have hsame : sortTypes types = sortTypes between := by
    refine sort_eq_of_perm (c := TypeId.graphOrder) (k := TypeSymbol.id) hperm ?_
    intro t ht u hu htu
    have hnodup : (types.map (·.id)).Nodup := List.pairwise_map.2 hids
    exact List.inj_on_of_nodup_map hnodup ht hu (graphOrder_eq_iff.1 htu)
  rw [hsame]
  exact forall₂_sort (r := fun a b => (TypeId.graphOrder a b).isLE) halike fun t u htu => htu.id_eq.symm

theorem fault?_of_alike {types types' : List TypeSymbol} {aliases : List Alias}
    (h : List.Forall₂ (TypeSymbol.Alike Eq) types types') (hfault : fault? types aliases = none) :
    fault? types' aliases = none := by
  have hids : types'.map (·.id) = types.map (·.id) := (map_eq_of_forall₂ h fun _ _ ht => ht.id_eq.symm).symm
  obtain ⟨hdistinct, hmembers, hlinks, haliases⟩ := fault?_eq_none_iff.1 hfault
  refine fault?_eq_none_iff.2 ⟨?_, ?_, ?_, ?_⟩
  · have := List.pairwise_map.2 hdistinct
    rw [← hids] at this
    exact List.pairwise_map.1 this
  · intro t' ht'
    obtain ⟨t, ht, halike⟩ := exists_of_mem_right h ht'
    exact halike.ownsMembers (hmembers t ht)
  · intro t' ht'
    obtain ⟨t, ht, halike⟩ := exists_of_mem_right h ht'
    rw [hids, halike.settle.agree (linkFault? (types.map (·.id))) fun _ _ => rfl]
    exact hlinks t ht
  · rwa [hids]

/-- Listing types and members in another order makes a graph that is alike. -/
theorem exists_build_of_listedAnew {types types' : List TypeSymbol} {aliases : List Alias}
    (h : ListedAnew types types') (hbuild : build types aliases = .ok g) :
    ∃ g', build types' aliases = .ok g' ∧ g.Alike Eq g' := by
  obtain ⟨hfault, rfl⟩ := build_eq_ok_iff.1 hbuild
  have hids : types.Pairwise fun t u => t.id ≠ u.id :=
    (List.mergeSort_perm types _).pairwise (fault?_eq_none_iff.1 hfault).1 Ne.symm
  have hsorted := sortTypes_of_listedAnew h hids
  refine ⟨_, build_eq_ok_iff.2 ⟨fault?_of_alike hsorted hfault, rfl⟩, ?_, rfl⟩
  rw [List.forall₂_map_left_iff, List.forall₂_map_right_iff]
  exact hsorted.imp fun _ _ ht => ht.settle

end SymbolGraph

end Exonym
