import Exonym.Proofs.Order.Reordered

/-!
# Which types and aliases make a graph

Building looks for five kinds of fault, in lists that it has put in canonical order, and reports the first one it
meets. It finds none exactly when types and aliases go together. What is reported does not depend on the order in which
the types come: the canonical order separates types of different identities, so it is the same list from whichever order
it was made, unless an identity is there twice. Then the lists may differ, but the identities in them do not, and a
repeated identity is reported before anything else is looked at.

Main statements:

* `SymbolGraph.fault?_eq_none_iff_buildable`: there is no fault exactly when everything goes together.
* `SymbolGraph.build_eq_of_perm`: the order in which types are listed does not matter, for graphs and for faults.
* `SymbolGraph.buildable_iff_and_build_eq_of_perm`: building accepts what goes together, in any order of types.
-/

namespace Exonym

/-- Types and aliases that go together: nothing is there twice, members are listed on the type they name, and what is
referred to by identity is there. -/
structure Buildable (types : List TypeSymbol) (aliases : List Alias) : Prop where
  distinct : types.Pairwise fun t u => t.id ≠ u.id
  members : ∀ t ∈ types, t.OwnsMembers
  declaring : ∀ t ∈ types, ∀ id, t.declaringType = some id → ∃ u ∈ types, u.id = id
  nested : ∀ t ∈ types, ∀ id ∈ t.nestedTypes, ∃ u ∈ types, u.id = id
  targets : ∀ a ∈ aliases, ∃ u ∈ types, u.id = a.target

/-- Types go together with others that are new, are declared in those that were there, and have no nested types. -/
theorem Buildable.append {types added : List TypeSymbol} {aliases new : List Alias} (h : Buildable types aliases)
    (hdistinct : added.Pairwise fun t u => t.id ≠ u.id) (hnew : ∀ t ∈ types, ∀ u ∈ added, t.id ≠ u.id)
    (hmembers : ∀ t ∈ added, t.OwnsMembers)
    (hdeclaring : ∀ t ∈ added, ∀ id, t.declaringType = some id → ∃ u ∈ types, u.id = id)
    (hnested : ∀ t ∈ added, t.nestedTypes = []) (htargets : ∀ a ∈ new, ∃ u ∈ types, u.id = a.target) :
    Buildable (types ++ added) (aliases ++ new) := by
  have hleft : ∀ {id : TypeId}, (∃ u ∈ types, u.id = id) → ∃ u ∈ types ++ added, u.id = id :=
    fun ⟨u, hu, hid⟩ => ⟨u, List.mem_append_left _ hu, hid⟩
  refine ⟨List.pairwise_append.2 ⟨h.distinct, hdistinct, hnew⟩, List.forall_mem_append.2 ⟨h.members, hmembers⟩, ?_, ?_, ?_⟩
    <;> refine List.forall_mem_append.2 ⟨?_, ?_⟩
  · exact fun t ht id hid => hleft (h.declaring t ht id hid)
  · exact fun t ht id hid => hleft (hdeclaring t ht id hid)
  · exact fun t ht id hid => hleft (h.nested t ht id hid)
  · intro t ht
    simp [hnested t ht]
  · exact fun a ha => hleft (h.targets a ha)
  · exact fun a ha => hleft (htargets a ha)

namespace SymbolGraph

variable {types types' : List TypeSymbol} {aliases : List Alias}

/-! ## Faults -/

theorem linkFault?_eq_none_iff {ids : List TypeId} {t : TypeSymbol} :
    linkFault? ids t = none ↔
      (∀ id, t.declaringType = some id → id ∈ ids) ∧ ∀ id ∈ t.nestedTypes, id ∈ ids := by
  unfold linkFault?
  cases hd : t.declaringType with
  | none => simp
  | some declaring =>
    by_cases hmem : declaring ∈ ids <;> simp [Option.filter, hmem]

/-- Settling sorts the nested types, which has no part in what a type refers to. -/
theorem linkFault?_settle_eq_none_iff {ids : List TypeId} {t : TypeSymbol} :
    linkFault? ids (settle t) = none ↔
      (∀ id, t.declaringType = some id → id ∈ ids) ∧ ∀ id ∈ t.nestedTypes, id ∈ ids := by
  rw [linkFault?_eq_none_iff]
  simp [settle]

theorem fault?_eq_none_iff_buildable : fault? types aliases = none ↔ Buildable types aliases := by
  simp only [fault?_eq_none_iff, linkFault?_settle_eq_none_iff, List.mem_map]
  constructor
  · rintro ⟨hdistinct, hmembers, hlinks, htargets⟩
    exact ⟨hdistinct, hmembers, fun t ht => (hlinks t ht).1, fun t ht => (hlinks t ht).2, htargets⟩
  · rintro ⟨hdistinct, hmembers, hdeclaring, hnested, htargets⟩
    exact ⟨hdistinct, hmembers, fun t ht => ⟨hdeclaring t ht, hnested t ht⟩, htargets⟩

/-- A repeated identity is reported before anything else. -/
theorem fault?_of_repeated {id : TypeId}
    (h : firstRepeated? (fun a b => a = b) [] (types.map (·.id)) = some id) :
    fault? types aliases = some (.duplicateType id) := by
  simp [fault?, h]

/-! ## The order of types -/

theorem buildable_of_perm (h : types.Perm types') (hb : Buildable types aliases) : Buildable types' aliases := by
  have hthere : ∀ {id : TypeId}, (∃ u ∈ types, u.id = id) → ∃ u ∈ types', u.id = id := by
    rintro id ⟨u, hu, hid⟩
    exact ⟨u, h.mem_iff.1 hu, hid⟩
  refine ⟨h.pairwise hb.distinct Ne.symm, fun t ht => hb.members t (h.mem_iff.2 ht), ?_, ?_, ?_⟩
  · exact fun t ht id hid => hthere (hb.declaring t (h.mem_iff.2 ht) id hid)
  · exact fun t ht id hid => hthere (hb.nested t (h.mem_iff.2 ht) id hid)
  · exact fun a ha => hthere (hb.targets a ha)

theorem sortTypes_perm (types : List TypeSymbol) : (sortTypes types).Perm types :=
  List.mergeSort_perm types _

/-- The identities of sorted types are the sorted identities. -/
theorem ids_sortTypes (types : List TypeSymbol) :
    (sortTypes types).map (·.id) =
      (types.map (·.id)).mergeSort fun a b => (TypeId.graphOrder a b).isLE :=
  List.map_mergeSort fun _ _ _ _ => rfl

theorem ids_sortTypes_of_perm (h : types.Perm types') :
    (sortTypes types).map (·.id) = (sortTypes types').map (·.id) := by
  rw [ids_sortTypes, ids_sortTypes]
  exact sort_eq_of_perm (k := fun id => id) (h.map _) fun _ _ _ _ hab => graphOrder_eq_iff.1 hab

/-- Types of different identities have one canonical order. -/
theorem sortTypes_eq_of_perm (h : types.Perm types') (hids : types.Pairwise fun t u => t.id ≠ u.id) :
    sortTypes types = sortTypes types' := by
  have hnodup : (types.map (·.id)).Nodup := List.pairwise_map.2 hids
  exact sort_eq_of_perm (k := TypeSymbol.id) h fun t ht u hu htu =>
    List.inj_on_of_nodup_map hnodup ht hu (graphOrder_eq_iff.1 htu)

/-- The canonical order is one for both lists, or a type is there twice and the lists agree on which comes first. -/
theorem sortTypes_of_perm (h : types.Perm types') :
    sortTypes types = sortTypes types' ∨
      ∃ id, firstRepeated? (fun a b => a = b) [] ((sortTypes types).map (·.id)) = some id ∧
        firstRepeated? (fun a b => a = b) [] ((sortTypes types').map (·.id)) = some id := by
  rw [← ids_sortTypes_of_perm h]
  cases hrep : firstRepeated? (fun a b : TypeId => a = b) [] ((sortTypes types).map (·.id)) with
  | some id => exact .inr ⟨id, rfl, rfl⟩
  | none =>
    refine .inl (sortTypes_eq_of_perm h ?_)
    have hids : (sortTypes types).Pairwise fun t u => t.id ≠ u.id := by
      simpa [List.pairwise_map] using (firstRepeated?_eq_none_iff.1 hrep).2
    exact (sortTypes_perm types).pairwise hids Ne.symm

theorem build_eq_error_iff {e : GraphError} :
    build types aliases = .error e ↔ fault? (sortTypes types) aliases = some e := by
  unfold build
  cases h : fault? (sortTypes types) aliases <;> simp [h]

theorem build_eq_of_perm (h : types.Perm types') : build types aliases = build types' aliases := by
  obtain hsame | ⟨id, hleft, hright⟩ := sortTypes_of_perm h
  · unfold build
    rw [hsame]
  · rw [build_eq_error_iff.2 (fault?_of_repeated hleft), build_eq_error_iff.2 (fault?_of_repeated hright)]

/-! ## What is accepted -/

theorem exists_build_iff_buildable : (∃ g, build types aliases = .ok g) ↔ Buildable types aliases := by
  have hsorted : Buildable (sortTypes types) aliases ↔ Buildable types aliases :=
    ⟨buildable_of_perm (sortTypes_perm types), buildable_of_perm (sortTypes_perm types).symm⟩
  simp only [build_eq_ok_iff, fault?_eq_none_iff_buildable, hsorted, exists_and_left, exists_eq, and_true]

/-- Building accepts exactly the types and aliases that go together, and its result, graph or fault, is the same value
for every order of the types. -/
theorem buildable_iff_and_build_eq_of_perm (types : List TypeSymbol) (aliases : List Alias) :
    ((∃ g, build types aliases = .ok g) ↔ Buildable types aliases) ∧
      ∀ types', types.Perm types' → build types' aliases = build types aliases :=
  ⟨exists_build_iff_buildable, fun _ h => (build_eq_of_perm h).symm⟩

/-- A class and a struct of one identity, a type that declares one that is missing, and one that lists it. -/
def twins : List TypeSymbol := [
  .ofKind ⟨"app", "App.Twin"⟩ .classType,
  .ofKind ⟨"app", "App.Twin"⟩ .structType,
  { TypeSymbol.ofKind ⟨"app", "App.Case"⟩ .classType with nestedTypes := [⟨"app", "App.Case+Lid"⟩] },
  { TypeSymbol.ofKind ⟨"app", "App.Hook+Eye"⟩ .classType with declaringType := some ⟨"app", "App.Hook"⟩ }]

/-- All faults of the twins considered, either order has the same one reported. -/
theorem build_twins_reverse :
    twins.Perm twins.reverse ∧ build twins.reverse [] = .error (.duplicateType ⟨"app", "App.Twin"⟩) ∧
      ¬ Buildable twins [] := by
  have hperm : twins.Perm twins.reverse := twins.reverse_perm.symm
  have hfault : build twins [] = .error (.duplicateType ⟨"app", "App.Twin"⟩) := by
    rw [build_eq_error_iff]
    simp only [sortTypes, mergeSort_eq_sortTo]
    decide +kernel
  obtain ⟨haccepted, hsame⟩ := buildable_iff_and_build_eq_of_perm twins []
  refine ⟨hperm, (hsame _ hperm).trans hfault, fun hb => ?_⟩
  obtain ⟨g, hg⟩ := haccepted.2 hb
  simp [hfault] at hg

end SymbolGraph

end Exonym
