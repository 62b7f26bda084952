import Exonym.Proofs.Overload.Ranking
import Exonym.Sample.Gallery

/-!
# What overload resolution leaves behind

Every group of rivals keeps a member, and only one if the rivals returned different types; those that are left can be
told apart. Nothing else is changed than where the others are emitted, and there is nothing left to do a second time.

Main statements:

* `TypeSymbol.OwnsMembers.conflictsSettled`: one type, before and after.
* `SymbolGraph.conflictsSettled_of_build`: whole graphs.
-/

namespace Exonym

open Candidate

namespace TypeSymbol

variable {t : TypeSymbol} {e : Erasure}

/-- The second type is the first one with its conflicts settled: of the rivals that are in each other's way one stays,
and the others are emitted elsewhere or not at all. -/
structure ConflictsSettled (t t' : TypeSymbol) : Prop where
  /-- Rivals that are left return the same and take parameters of different types. -/
  apart : ∀ e, (t'.rivals e).Pairwise fun a b => a.returnType = b.returnType ∧ a.parameters ≠ b.parameters
  kept : ∀ e, t.rivals e ≠ [] → t'.rivals e ≠ []
  single : ∀ e, ReturnsDiffer (t.rivals e) → (t'.rivals e).length = 1
  /-- Nothing but placements changes, and only those of rivals that are left no more. -/
  moved : ∃ placed : MemberInfo → Placement,
    t' = { t with members := t.members.mapInfo fun _ info => { info with placement := placed info } } ∧
      ∀ x ∈ t.members.infos, placed x.2 = x.2.placement ∨
        ∃ e, ∃ a ∈ t.rivals e, a.id = x.2.id ∧ a ∉ t'.rivals e ∧
          placed x.2 = if ReturnsDiffer (t.rivals e) then .viewOnly else .omitted

theorem OwnsMembers.apart_applyOverloads (h : t.OwnsMembers) (e : Erasure) :
    (((OverloadPlan.ofConflicts t.conflicts).applyTo t).rivals e).Pairwise fun a b =>
      a.returnType = b.returnType ∧ a.parameters ≠ b.parameters := by
  refine List.pairwise_map.2 ((h.compatible_applyOverloads.filter _).imp_of_mem ?_)
  intro a b ha hb hab
  have ha : a.1 = e := by simpa using (List.mem_filter.1 ha).2
  have hb : b.1 = e := by simpa using (List.mem_filter.1 hb).2
  exact hab (ha.trans hb.symm)

theorem OwnsMembers.rivals_applyOverloads_ne_nil (h : t.OwnsMembers) (hne : t.rivals e ≠ []) :
    ((OverloadPlan.ofConflicts t.conflicts).applyTo t).rivals e ≠ [] := by
  obtain ⟨a, ha⟩ := List.exists_mem_of_ne_nil _ hne
  obtain ⟨b, hb, -⟩ := h.exists_stays ha
  exact List.ne_nil_of_mem hb

/-- Where rivals return different types, any two of them are in each other's way. -/
theorem OwnsMembers.length_rivals_applyOverloads (h : t.OwnsMembers) (hdiffer : ReturnsDiffer (t.rivals e)) :
    (((OverloadPlan.ofConflicts t.conflicts).applyTo t).rivals e).length = 1 := by
  have hne : t.rivals e ≠ [] := by
    obtain ⟨x, hx, -⟩ := hdiffer
    exact List.ne_nil_of_mem hx
  have hdistinct := (h.pairwise_rivals e).sublist (rivals_sublist t e)
  have hstays : ∀ a ∈ ((OverloadPlan.ofConflicts t.conflicts).applyTo t).rivals e,
      a ∈ t.rivals e ∧ ∀ b ∈ t.rivals e, plainest b a ≠ .lt := by
    intro a ha
    simpa only [outranks_of_differ hdiffer] using h.mem_rivals_applyOverloads.1 ha
  match hlist : ((OverloadPlan.ofConflicts t.conflicts).applyTo t).rivals e with
  | [] => exact absurd hlist (h.rivals_applyOverloads_ne_nil hne)
  | [_] => rfl
  | a :: b :: rest =>
    obtain ⟨ha, hafirst⟩ := hstays a (by simp [hlist])
    obtain ⟨hb, hbfirst⟩ := hstays b (by simp [hlist])
    rw [hlist, List.pairwise_cons] at hdistinct
    -- neither comes before the other, and the order tells different members apart
    have hab : b = a := (Conflict.lt_of_not_lt (fun _ _ => same_of_plainest) (h.pairwise_rivals e) ha hb
      (hbfirst a ha)).resolve_right (hafirst b hb)
    simpa [hab] using hdistinct.1 b (by simp)

/-- Rivals that have to move are rivals no more. -/
theorem OwnsMembers.not_mem_rivals_applyOverloads (h : t.OwnsMembers) {a : Candidate} {q : Placement}
    (ha : a ∈ t.rivals e) (hq : (OverloadPlan.ofConflicts t.conflicts).placement? a.id = some q) :
    a ∉ ((OverloadPlan.ofConflicts t.conflicts).applyTo t).rivals e ∧ q = (conflictKind (t.rivals e)).placement := by
  rw [h.placement?_of_rival ha] at hq
  split at hq
  · rename_i houtranked
    refine ⟨fun hstays => ?_, (Option.some.inj hq).symm⟩
    obtain ⟨b, hb, hba⟩ := houtranked
    exact (h.mem_rivals_applyOverloads.1 hstays).2 b hb hba
  · simp at hq

theorem OwnsMembers.conflictsSettled (h : t.OwnsMembers) :
    t.ConflictsSettled ((OverloadPlan.ofConflicts t.conflicts).applyTo t) where
  apart := h.apart_applyOverloads
  kept _ := h.rivals_applyOverloads_ne_nil
  single _ := h.length_rivals_applyOverloads
  moved := by
    refine ⟨fun info => ((OverloadPlan.ofConflicts t.conflicts).placement? info.id).getD info.placement, rfl, ?_⟩
    intro x hx
    dsimp only
    cases hq : (OverloadPlan.ofConflicts t.conflicts).placement? x.2.id with
    | none => exact .inl rfl
    | some q =>
      obtain ⟨e, a, ha, haid⟩ := h.rival_of_placement? hx hq
      obtain ⟨hgone, rfl⟩ := h.not_mem_rivals_applyOverloads ha (haid ▸ hq)
      refine .inr ⟨e, a, ha, haid, hgone, ?_⟩
      rw [Option.getD_some, conflictKind]
      split <;> rfl

end TypeSymbol

namespace SymbolGraph

variable {g : SymbolGraph}

/-- Once conflicts are settled there are none. -/
theorem Consistent.resolveOverloads_resolveOverloads (hg : g.Consistent) :
    g.resolveOverloads.1.resolveOverloads = (g.resolveOverloads.1, []) := by
  have hnone : ∀ t ∈ g.resolveOverloads.1.types, t.conflicts = [] := by
    intro t ht
    obtain ⟨u, hu, rfl⟩ := List.mem_map.1 ht
    exact (hg.members u hu).conflicts_eq_nil (List.Sublist.refl _)
  have htypes : g.resolveOverloads.1.types.map (fun t => (OverloadPlan.ofConflicts t.conflicts).applyTo t) =
      g.resolveOverloads.1.types := by
    conv => rhs; rw [← List.map_id g.resolveOverloads.1.types]
    exact List.map_congr_left fun t ht => TypeSymbol.applyOverloads_eq_self (hnone t ht)
  refine Prod.ext ?_ (List.flatMap_eq_nil_iff.2 hnone)
  change g.resolveOverloads.1.mapTypes _ = _
  rw [SymbolGraph.mapTypes, htypes]

/-- In a graph that was built, overload resolution settles the conflicts of every type and changes nothing else; a second
time it changes nothing and finds nothing to report. -/
theorem conflictsSettled_of_build {types : List TypeSymbol} {aliases : List Alias} (h : build types aliases = .ok g) :
    List.Forall₂ TypeSymbol.ConflictsSettled g.types g.resolveOverloads.1.types ∧
      g.resolveOverloads.1.aliases = g.aliases ∧
      g.resolveOverloads.1.resolveOverloads = (g.resolveOverloads.1, []) := by
  have hg := consistent_of_build h
  refine ⟨?_, rfl, hg.resolveOverloads_resolveOverloads⟩
  change List.Forall₂ _ g.types (g.types.map _)
  rw [List.forall₂_map_right_iff, List.forall₂_same]
  exact fun t ht => (hg.members t ht).conflictsSettled

/-- A conflict of either kind, each in a type of its own. -/
theorem conflictsSettled_of_boxedReader :
    ∃ g, build (Gallery.boxed ++ Gallery.reader) [] = .ok g ∧
      g.resolveOverloads.2.map (·.kind) = [.returnType, .modifierOnly] ∧
      List.Forall₂ TypeSymbol.ConflictsSettled g.types g.resolveOverloads.1.types ∧
      g.resolveOverloads.1.aliases = g.aliases ∧
      g.resolveOverloads.1.resolveOverloads = (g.resolveOverloads.1, []) := by
  have hkinds : (build (Gallery.boxed ++ Gallery.reader) []).toOption.any (fun g =>
      g.resolveOverloads.2.map (·.kind) = [.returnType, .modifierOnly]) = true := by
    simp only [build, sortTypes, settle_eq, sortAliases, resolveOverloads, TypeSymbol.conflicts, TypeSymbol.buckets,
      TypeSymbol.candidates, Conflict.inBucket, Conflict.among, mergeSort_eq_sortTo]
    decide +kernel
  obtain ⟨g, hbuild, hkinds⟩ := exists_of_any hkinds
  exact ⟨g, hbuild, of_decide_eq_true hkinds, conflictsSettled_of_build hbuild⟩

end SymbolGraph

end Exonym
