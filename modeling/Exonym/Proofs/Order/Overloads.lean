import Exonym.Overload
import Exonym.Proofs.Order.Reordered

/-!
# Overload resolution does not see how members are listed

The members that take part in overload resolution are put in an order of their own, which tells all members of a type
apart. So the conflicts found in a type are the same in any order of its members.

Main statements:

* `TypeSymbol.Alike.conflicts_eq`: the conflicts of types that are alike.
* `SymbolGraph.Alike.resolveOverloads`: graphs stay alike when their conflicts are settled.
-/

namespace Exonym

instance : Std.TransCmp Candidate.declared :=
  inferInstanceAs (Std.TransCmp (compareLex (compareOn Candidate.declarationOrder) (compareOn Candidate.id)))

theorem Candidate.same_of_declared {a b : Candidate} (h : declared a b = .eq) : a.id.same b.id = true := by
  unfold declared compareLex at h
  rw [Ordering.then_eq_eq] at h
  exact MemberId.same_iff.2 (MemberId.compare_eq_iff.1 h.2)

namespace TypeSymbol

/-- The candidates of a type as they are listed. -/
def listedCandidates (t : TypeSymbol) : List (Erasure × Candidate) :=
  (t.members.methods.filter (·.info.onPrimarySurface)).map Candidate.ofMethod ++
    (t.members.properties.filter (·.info.onPrimarySurface)).map Candidate.ofProperty

theorem OwnsMembers.pairwise_listedCandidates {t : TypeSymbol} (h : t.OwnsMembers) :
    t.listedCandidates.Pairwise fun a b => a.2.id.same b.2.id = false := by
  have hdistinct := h.distinct
  simp only [memberIds, Members.infos, List.map_append, List.pairwise_append, List.pairwise_map] at hdistinct
  obtain ⟨⟨⟨⟨hmethods, hproperties, hcross⟩, -⟩, -⟩, -⟩ := hdistinct
  unfold listedCandidates
  rw [List.pairwise_append, List.pairwise_map, List.pairwise_map]
  refine ⟨hmethods.filter _, hproperties.filter _, ?_⟩
  intro a ha b hb
  obtain ⟨m, hm, rfl⟩ := List.mem_map.1 ha
  obtain ⟨p, hp, rfl⟩ := List.mem_map.1 hb
  have hmid : m.info.id ∈ (t.members.methods.map fun x => (MemberKind.method, x.info)).map (·.2.id) := by
    simpa using ⟨m, (List.mem_filter.1 hm).1, rfl⟩
  have hpid : p.info.id ∈ (t.members.properties.map fun x => (MemberKind.property, x.info)).map (·.2.id) := by
    simpa using ⟨p, (List.mem_filter.1 hp).1, rfl⟩
  exact hcross _ hmid _ hpid

variable {R : View → View → Prop} {t t' : TypeSymbol}

theorem Alike.listedCandidates (h : t.Alike R t') : t.listedCandidates.Perm t'.listedCandidates :=
  ((h.members.methods.filter _).map _).append ((h.members.properties.filter _).map _)

theorem Alike.candidates_eq (h : t.Alike R t') (ho : t.OwnsMembers) : t'.candidates = t.candidates := by
  refine (sort_eq_of_perm (c := Candidate.declared) (k := Prod.snd) h.listedCandidates ?_).symm
  intro a ha b hb hab
  have : Std.Symm fun a b : Erasure × Candidate => a.2.id.same b.2.id = false :=
    ⟨fun a b hab => by rw [MemberId.same_comm, hab]⟩
  by_contra hne
  have := ho.pairwise_listedCandidates.forall ha hb hne
  simp [Candidate.same_of_declared hab] at this

theorem Alike.conflicts_eq (h : t.Alike R t') (ho : t.OwnsMembers) : t'.conflicts = t.conflicts := by
  unfold conflicts buckets
  rw [h.candidates_eq ho]

theorem Alike.applyOverloads (h : t.Alike R t') (p : OverloadPlan) : (p.applyTo t).Alike R (p.applyTo t') :=
  h.mapInfo _

end TypeSymbol

/-- Graphs that are alike stay so, and the same conflicts are found in them. -/
theorem SymbolGraph.Alike.resolveOverloads {R : View → View → Prop} {g g' : SymbolGraph} (h : g.Alike R g')
    (hg : g.Consistent) :
    g.resolveOverloads.1.Alike R g'.resolveOverloads.1 ∧ g'.resolveOverloads.2 = g.resolveOverloads.2 := by
  have hall : List.Forall₂ (fun t t' : TypeSymbol => t.Alike R t' ∧ t'.conflicts = t.conflicts) g.types g'.types := by
    refine forall₂_imp_of_mem h.types ?_
    intro t ht t' _ halike
    exact ⟨halike, halike.conflicts_eq (hg.members t ht)⟩
  refine ⟨⟨?_, h.aliases⟩, ?_⟩
  · unfold SymbolGraph.resolveOverloads
    rw [types_mapTypes, types_mapTypes, List.forall₂_map_left_iff, List.forall₂_map_right_iff]
    refine hall.imp ?_
    rintro t t' ⟨halike, hconflicts⟩
    rw [hconflicts]
    exact halike.applyOverloads _
  · unfold SymbolGraph.resolveOverloads
    rw [List.flatMap_def, List.flatMap_def, map_eq_of_forall₂ hall.flip fun _ _ h => And.right h]

end Exonym
