import Exonym.Proofs.Hierarchy.Reduced
import Exonym.Sample.Gallery
import Mathlib.Data.List.Pairwise

/-!
# A reduced list is a minimal cover

What is kept of a list stands in its order, without repetitions. Nothing can be spared in it, for no interface that is
kept is an ancestor of another one, and nothing is missing, for every listed interface is kept, or an ancestor of one
that is. An interface may be dropped because of one that is dropped itself later on; that ancestors of ancestors are
ancestors, and that the last one of a circle has nothing left that could remove it, makes up for this. What is not kept
is recorded, occurrence by occurrence, with the reason.

Main statements:

* `Reduction.candidates_perm`, `Reduction.prune_perm`: both steps record what they drop.
* `Hierarchy.justified_of_reduce`: the reasons that are recorded are right.
* `Hierarchy.reduce_cover`: what is kept is a minimal cover of the list.
* `Hierarchy.top_iff_kept`: of which interfaces the cover consists, up to circles.
* `Hierarchy.reduce_again`: what is kept is kept.
* `Hierarchy.reduce_minimal`: a minimal cover, once and for all.
-/

namespace Exonym

namespace Reduction

theorem candidates_perm (seen rs : List TypeRef) :
    rs.Perm ((candidates seen rs).1 ++ (candidates seen rs).2.map Pruned.reference) := by
  induction rs generalizing seen with
  | nil => exact .refl []
  | cons r rest ih =>
    unfold candidates
    split
    · exact ((ih seen).cons r).trans List.perm_middle.symm
    · exact (ih (r :: seen)).cons r

theorem prune_perm (before cs : List (TypeRef × Ancestors)) :
    (cs.map Prod.fst).Perm ((prune before cs).1 ++ (prune before cs).2.map Pruned.reference) := by
  induction cs generalizing before with
  | nil => exact .refl []
  | cons c rest ih =>
    unfold prune
    split
    · exact ((ih before).cons c.1).trans List.perm_middle.symm
    · exact (ih (before ++ [c])).cons c.1

/-- A repetition is one of what is listed before it, or has been seen. -/
theorem exists_before_of_mem_candidates {seen rs : List TypeRef} {p : Pruned} (hp : p ∈ (candidates seen rs).2) :
    p.reason = .duplicate ∧ ∃ before after, rs = before ++ p.reference :: after ∧
      p.reference.bare ∈ (seen ++ before).map TypeRef.bare := by
  induction rs generalizing seen with
  | nil => cases hp
  | cons r rest ih =>
    unfold candidates at hp
    split at hp
    · rename_i hseen
      rcases List.mem_cons.1 hp with rfl | hp
      · exact ⟨rfl, [], rest, rfl, by simpa using TypeRef.any_same_iff.1 hseen⟩
      · obtain ⟨hreason, before, after, rfl, hbefore⟩ := ih hp
        refine ⟨hreason, r :: before, after, rfl, ?_⟩
        simp only [List.map_append, List.map_cons, List.mem_append, List.mem_cons] at hbefore ⊢
        exact hbefore.imp_right .inr
    · obtain ⟨hreason, before, after, rfl, hbefore⟩ := ih hp
      refine ⟨hreason, r :: before, after, rfl, ?_⟩
      simp only [List.map_append, List.map_cons, List.mem_append, List.mem_cons] at hbefore ⊢
      -- this reference is among those that the rest counts as seen
      rcases hbefore with (hr | hseen) | hbefore
      · exact .inr (.inl hr)
      · exact .inl hseen
      · exact .inr (.inr hbefore)

/-- What is dropped is inherited from a candidate, which is the reason. -/
theorem exists_through_of_mem_prune {f : TypeRef → Ancestors} {before cs : List TypeRef} {p : Pruned}
    (hp : p ∈ (prune (withAncestors f before) (withAncestors f cs)).2) :
    ∃ through ∈ before ++ cs, p.reason = .inherited through ∧ (f through).contains p.reference = true := by
  induction cs generalizing before with
  | nil => cases hp
  | cons c rest ih =>
    rcases prune_cons f before c rest with ⟨x, hx, hcontains, hkept⟩ | ⟨-, hkept⟩
    · rw [hkept] at hp
      rcases List.mem_cons.1 hp with rfl | hp
      · exact ⟨x, by grind, rfl, hcontains⟩
      · obtain ⟨through, hthrough, hreason⟩ := ih hp
        exact ⟨through, by grind, hreason⟩
    · rw [hkept] at hp
      obtain ⟨through, hthrough, hreason, hcontains⟩ := ih hp
      exact ⟨through, by simpa using hthrough, hreason, hcontains⟩

/-- The reduction keeps a minimal cover of the list, and records what it drops. -/
structure Covers (h : Hierarchy) (listed : List TypeRef) (r : Reduction) : Prop where
  ordered : r.kept.Sublist listed
  distinct : (r.kept.map TypeRef.bare).Nodup
  minimal : ∀ k ∈ r.kept, ∃ a, h.ancestors k = .ok a ∧ ∀ other ∈ r.kept, a.contains other = false
  covering : ∀ i ∈ listed, ∃ k ∈ r.kept, k.same i = true ∨ ∃ a, h.ancestors k = .ok a ∧ a.contains i = true
  nonempty : listed ≠ [] → r.kept ≠ []
  accounted : listed.Perm (r.kept ++ r.pruned.map Pruned.reference)

end Reduction

namespace Hierarchy

open Reduction

variable {h : Hierarchy} {t : TypeSymbol} {r : Reduction}

theorem accounted_of_reduce (hr : h.reduce t = .ok r) :
    t.interfaces.Perm (r.kept ++ r.pruned.map Pruned.reference) := by
  obtain ⟨-, -, rfl⟩ := reduce_eq_ok_iff.1 hr
  have hcandidates := candidates_perm [] t.interfaces
  have hprune := prune_perm [] (withAncestors h.found (candidates [] t.interfaces).1)
  rw [map_fst_withAncestors] at hprune
  have hboth := hcandidates.trans (hprune.append_right _)
  rw [List.append_assoc] at hboth
  refine hboth.trans ?_
  simp only [reduction, List.map_append]
  exact List.perm_append_comm.append_left _

/-- What is dropped is dropped for the reason that is recorded with it. -/
theorem justified_of_reduce (hr : h.reduce t = .ok r) {p : Pruned} (hp : p ∈ r.pruned) :
    (p.reason = .duplicate ∧ ∃ before after, t.interfaces = before ++ p.reference :: after ∧
      ∃ earlier ∈ before, earlier.same p.reference = true) ∨
    ∃ through ∈ t.interfaces, p.reason = .inherited through ∧
      ∃ a, h.ancestors through = .ok a ∧ a.contains p.reference = true := by
  obtain ⟨-, hancestors, rfl⟩ := reduce_eq_ok_iff.1 hr
  rcases List.mem_append.1 hp with hp | hp
  · obtain ⟨hreason, before, after, hlisted, hbefore⟩ := exists_before_of_mem_candidates hp
    obtain ⟨earlier, hearlier, hbare⟩ := List.mem_map.1 hbefore
    exact .inl ⟨hreason, before, after, hlisted, earlier, hearlier, TypeRef.same_iff.2 hbare⟩
  · have hp : p ∈ (prune (withAncestors h.found []) (withAncestors h.found (candidates [] t.interfaces).1)).2 := hp
    obtain ⟨through, hthrough, hreason, hcontains⟩ := exists_through_of_mem_prune hp
    exact .inr ⟨through, (candidates_sublist [] t.interfaces).subset hthrough, hreason, _,
      hancestors through hthrough, hcontains⟩

/-- Of two interfaces that are kept, one is reached from the other only if they are one. -/
theorem eq_of_reaches_kept (hr : h.reduce t = .ok r) {k other : TypeRef} (hk : k ∈ r.kept) (hother : other ∈ r.kept)
    (hreach : h.graph.Reaches k other) : k = other := by
  have : Std.Symm fun x y => ¬h.graph.Reaches x y ∧ ¬h.graph.Reaches y x := ⟨fun _ _ => And.symm⟩
  by_contra hdifferent
  exact ((reduce_irredundant hr).forall hk hother hdifferent).1 hreach

/-- What is kept is a minimal cover of the list. -/
theorem reduce_cover (hr : h.reduce t = .ok r) : r.Covers h t.interfaces where
  ordered := reduce_sublist hr
  distinct := nodup_kept hr
  minimal := by
    intro k hk
    refine ⟨_, ancestors_of_kept hr hk, fun other hother => Bool.eq_false_iff.2 fun hcontains => ?_⟩
    obtain ⟨hreach, hne⟩ := (contains_iff (ancestors_of_kept hr hk)).1 hcontains
    exact hne (congrArg TypeRef.bare (eq_of_reaches_kept hr hk hother hreach).symm)
  covering := by
    intro i hi
    obtain ⟨k, hk, hki⟩ := reduce_covers hr i hi
    by_cases hsame : k.same i = true
    · exact ⟨k, hk, .inl hsame⟩
    · have hne : i.bare ≠ k.bare := fun heq => hsame (TypeRef.same_iff.2 heq.symm)
      exact ⟨k, hk, .inr ⟨_, ancestors_of_kept hr hk, (contains_iff (ancestors_of_kept hr hk)).2 ⟨hki, hne⟩⟩⟩
  nonempty := by
    intro hlisted
    obtain ⟨i, hi⟩ := List.exists_mem_of_ne_nil _ hlisted
    obtain ⟨k, hk, -⟩ := reduce_covers hr i hi
    exact List.ne_nil_of_mem hk
  accounted := accounted_of_reduce hr

/-- Whichever order a list is in, one interface is kept of each circle that no listed interface leads into from
outside. -/
theorem top_iff_kept (hr : h.reduce t = .ok r) {i : TypeRef} (hi : i ∈ t.interfaces) :
    (∀ j ∈ t.interfaces, h.graph.Reaches j i → h.graph.Reaches i j) ↔
      ∃ k ∈ r.kept, h.graph.Reaches k i ∧ h.graph.Reaches i k := by
  constructor
  · intro htop
    obtain ⟨k, hk, hki⟩ := reduce_covers hr i hi
    exact ⟨k, hk, hki, htop k ((reduce_sublist hr).subset hk) hki⟩
  · rintro ⟨k, hk, hki, hik⟩ j hj hji
    obtain ⟨k', hk', hkj⟩ := reduce_covers hr j hj
    obtain rfl := eq_of_reaches_kept hr hk' hk (hkj.trans (hji.trans hik))
    exact hik.trans hkj

/-- What is kept is kept when it is reduced in its turn, and nothing is dropped. -/
theorem reduce_again (hr : h.reduce t = .ok r) : h.reduce { t with interfaces := r.kept } =
    .ok ⟨r.kept, [], r.kept.filter fun x => (h.graph.resolve? x).isNone⟩ := by
  have hcandidates : candidates [] r.kept = (r.kept, []) := candidates_eq_self (nodup_kept hr) (by simp)
  have hprune : prune (withAncestors h.found []) (withAncestors h.found r.kept) = (r.kept, []) :=
    prune_eq_self (unrelated_of_reduce hr)
  change prune [] _ = _ at hprune
  refine reduce_eq_ok_iff.2 ⟨fun k hk => ?_, fun k hk => ?_, ?_⟩
  · exact (reduce_eq_ok_iff.1 hr).1 k ((reduce_sublist hr).subset hk)
  · rw [hcandidates] at hk
    exact ancestors_of_kept hr hk
  · simp [reduction, hcandidates, hprune]

/-- Reducing a list keeps a minimal cover of it, once and for all. -/
theorem reduce_minimal (hr : h.reduce t = .ok r) : r.Covers h t.interfaces ∧
    ∃ again, h.reduce { t with interfaces := r.kept } = .ok again ∧ again.kept = r.kept ∧ again.pruned = [] :=
  ⟨reduce_cover hr, _, reduce_again hr, rfl, rfl⟩

/-- Two interfaces that inherit from each other, and one that the second of them inherits from. -/
def circle : List TypeSymbol := [
  (Gallery.draft "App.ILeft" .interface |>.implements (Gallery.app "App" "IRight")).type,
  (Gallery.draft "App.IRight" .interface
    |>.implements (Gallery.app "App" "ILeft")
    |>.implements (Gallery.app "App" "IRoot")).type,
  (Gallery.draft "App.IRoot" .interface).type]

/-- A class that lists all of them, one of them twice. -/
def circler : TypeSymbol :=
  (Gallery.draft "App.Circler" .classType
    |>.implements (Gallery.app "App" "ILeft")
    |>.implements (Gallery.app "App" "IRoot")
    |>.implements (Gallery.app "App" "IRight")
    |>.implements (Gallery.app "App" "ILeft")).type

theorem reduce_minimal_circle : ∃ r, (⟨⟨circle, []⟩, 3⟩ : Hierarchy).reduce circler = .ok r ∧
    r.kept = [Gallery.app "App" "IRight"] ∧ r.Covers ⟨⟨circle, []⟩, 3⟩ circler.interfaces ∧
      ∃ again, (⟨⟨circle, []⟩, 3⟩ : Hierarchy).reduce { circler with interfaces := r.kept } = .ok again ∧
        again.kept = r.kept ∧ again.pruned = [] := by
  have hreduce : ((⟨⟨circle, []⟩, 3⟩ : Hierarchy).reduce circler).toOption.any
      (fun r => r.kept = [Gallery.app "App" "IRight"]) = true := by
    decide +kernel
  obtain ⟨r, hr, hkept⟩ := exists_of_any hreduce
  exact ⟨r, hr, by simpa using hkept, reduce_minimal hr⟩

end Hierarchy

end Exonym
