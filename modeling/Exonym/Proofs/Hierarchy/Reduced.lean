import Exonym.Hierarchy.Reduction
import Exonym.Proofs.Graph.Traverse
import Exonym.Proofs.Hierarchy.Reach

/-!
# What reducing a list of interfaces keeps

Nothing that can be reached from the list is lost: every interface that was listed is reached from one that is kept.
And nothing more can be dropped: none of those that are kept is reached from another. So a list that has been reduced
is left as it is when it is reduced again, in any graph in which nothing more can be reached.

Main statements:

* `Hierarchy.reduce_eq_ok_iff`: when a list is reduced, and what it is reduced to.
* `Hierarchy.reduce_covers`: every listed interface is reached from one that is kept.
* `Hierarchy.reduce_irredundant`: no interface that is kept is reached from another.
* `Hierarchy.kept_of_reduce`: a list without such pairs is kept.
* `Hierarchy.reduce_settled`: when the budget is enough for a list.
-/

namespace Exonym

namespace Reduction

/-! ## Repetitions -/

theorem candidates_distinct (seen rs : List TypeRef) :
    ((candidates seen rs).1.map TypeRef.bare).Nodup ∧
      ∀ c ∈ (candidates seen rs).1, c.bare ∉ seen.map TypeRef.bare := by
  induction rs generalizing seen with
  | nil => simp [candidates]
  | cons r rest ih =>
    unfold candidates
    split
    · exact ih seen
    · rename_i hnew
      rw [TypeRef.any_same_iff] at hnew
      obtain ⟨hdistinct, hfresh⟩ := ih (r :: seen)
      refine ⟨List.nodup_cons.2 ⟨fun h => ?_, hdistinct⟩, List.forall_mem_cons.2 ⟨hnew, fun c hc h => ?_⟩⟩
      · obtain ⟨c, hc, hcr⟩ := List.mem_map.1 h
        exact hfresh c hc (by simp [hcr])
      · exact hfresh c hc (List.mem_cons_of_mem _ h)

/-- Only repetitions are dropped. -/
theorem exists_candidate (seen : List TypeRef) {rs : List TypeRef} {r : TypeRef} (hr : r ∈ rs) :
    r.bare ∈ seen.map TypeRef.bare ∨ ∃ c ∈ (candidates seen rs).1, c.bare = r.bare := by
  induction rs generalizing seen with
  | nil => cases hr
  | cons s rest ih =>
    unfold candidates
    split
    · rename_i hseen
      rcases List.mem_cons.1 hr with rfl | hr
      · exact .inl (TypeRef.any_same_iff.1 hseen)
      · exact ih seen hr
    · rcases List.mem_cons.1 hr with rfl | hr
      · exact .inr ⟨r, List.mem_cons_self, rfl⟩
      · rcases ih (s :: seen) hr with h | ⟨c, hc, hcr⟩
        · rcases List.mem_cons.1 h with heq | h
          · exact .inr ⟨s, List.mem_cons_self, heq.symm⟩
          · exact .inl h
        · exact .inr ⟨c, List.mem_cons_of_mem _ hc, hcr⟩

theorem candidates_eq_self {seen rs : List TypeRef} (hdistinct : (rs.map TypeRef.bare).Nodup)
    (hfresh : ∀ r ∈ rs, r.bare ∉ seen.map TypeRef.bare) : candidates seen rs = (rs, []) := by
  induction rs generalizing seen with
  | nil => rfl
  | cons r rest ih =>
    rw [List.map_cons, List.nodup_cons] at hdistinct
    have hnew : ¬seen.any (·.same r) = true := by
      rw [TypeRef.any_same_iff]
      exact hfresh r List.mem_cons_self
    unfold candidates
    rw [if_neg hnew, ih hdistinct.2]
    intro s hs h
    rcases List.mem_cons.1 h with heq | h
    · exact hdistinct.1 (heq ▸ List.mem_map_of_mem hs)
    · exact hfresh s (List.mem_cons_of_mem _ hs) h

/-! ## Pruning -/

section Prune

variable {f : TypeRef → Ancestors} {before cs : List TypeRef}

/-- The candidates with what they inherit from. -/
def withAncestors (f : TypeRef → Ancestors) (cs : List TypeRef) : List (TypeRef × Ancestors) :=
  cs.map fun c => (c, f c)

@[simp] theorem map_fst_withAncestors (f : TypeRef → Ancestors) (cs : List TypeRef) :
    (withAncestors f cs).map Prod.fst = cs := by
  simp [withAncestors, Function.comp_def]

theorem prune_sublist (f : TypeRef → Ancestors) (before cs : List TypeRef) :
    (prune (withAncestors f before) (withAncestors f cs)).1.Sublist cs := by
  have hkept := prune_kept_sublist (withAncestors f before) (withAncestors f cs)
  rwa [map_fst_withAncestors] at hkept

theorem prune_cons (f : TypeRef → Ancestors) (before : List TypeRef) (c : TypeRef) (rest : List TypeRef) :
    (∃ x ∈ before ++ rest, (f x).contains c = true ∧
      prune (withAncestors f before) (withAncestors f (c :: rest)) =
        ((prune (withAncestors f before) (withAncestors f rest)).1,
          ⟨c, .inherited x⟩ :: (prune (withAncestors f before) (withAncestors f rest)).2)) ∨
    ((∀ x ∈ before ++ rest, (f x).contains c = false) ∧
      prune (withAncestors f before) (withAncestors f (c :: rest)) =
        (c :: (prune (withAncestors f (before ++ [c])) (withAncestors f rest)).1,
          (prune (withAncestors f (before ++ [c])) (withAncestors f rest)).2)) := by
  have hfind : (withAncestors f before ++ withAncestors f rest).find? (·.2.contains c) =
      ((before ++ rest).find? fun x => (f x).contains c).map fun x => (x, f x) := by
    rw [withAncestors, withAncestors, ← List.map_append, List.find?_map]
    rfl
  have happend : withAncestors f (before ++ [c]) = withAncestors f before ++ [(c, f c)] := by
    simp [withAncestors]
  rw [happend]
  change _ ∨ _ ∧ prune _ ((c, f c) :: withAncestors f rest) = _
  cases h : (before ++ rest).find? fun x => (f x).contains c with
  | some x =>
    refine .inl ⟨x, List.mem_of_find?_eq_some h, by simpa using List.find?_some h, ?_⟩
    change prune _ ((c, f c) :: withAncestors f rest) = _
    simp only [prune, hfind, h, Option.map_some]
  | none =>
    refine .inr ⟨by simpa using List.find?_eq_none.1 h, ?_⟩
    simp only [prune, hfind, h, Option.map_none]

/-- Every candidate is inherited by one that is kept. -/
theorem prune_covers {R : TypeRef → TypeRef → Prop} (hrefl : ∀ x, R x x)
    (htrans : ∀ x y z, R x y → R y z → R x z)
    (hR : ∀ x ∈ before ++ cs, ∀ y, (f x).contains y = true → R x y) :
    ∀ c ∈ cs, ∃ k ∈ before ++ (prune (withAncestors f before) (withAncestors f cs)).1, R k c := by
  induction cs generalizing before with
  | nil => simp
  | cons c rest ih =>
    rcases prune_cons f before c rest with ⟨x, hx, hcontains, hkept⟩ | ⟨-, hkept⟩
    · -- the one that `c` is dropped for may be dropped later on, but then it has one that is kept itself
      have hrest := @ih before fun y hy => hR y (by grind)
      rw [hkept]
      have hc : ∃ k ∈ before ++ (prune (withAncestors f before) (withAncestors f rest)).1, R k c := by
        have hxc := hR x (by grind) c hcontains
        rcases List.mem_append.1 hx with hx | hx
        · exact ⟨x, List.mem_append_left _ hx, hxc⟩
        · obtain ⟨k, hk, hkx⟩ := hrest x hx
          exact ⟨k, hk, htrans k x c hkx hxc⟩
      intro d hd
      rcases List.mem_cons.1 hd with rfl | hd
      · exact hc
      · exact hrest d hd
    · rw [hkept]
      intro d hd
      rcases List.mem_cons.1 hd with rfl | hd
      · exact ⟨d, by simp, hrefl d⟩
      · obtain ⟨k, hk, hkd⟩ := @ih (before ++ [c]) (fun y hy => hR y (by grind)) d hd
        exact ⟨k, by simpa using hk, hkd⟩

/-- Two candidates of which neither inherits from the other. -/
def Unrelated (f : TypeRef → Ancestors) (x y : TypeRef) : Prop :=
  (f x).contains y = false ∧ (f y).contains x = false

/-- No candidate that is kept inherits from another one, or is inherited by one that was kept before. -/
theorem prune_unrelated (f : TypeRef → Ancestors) (before cs : List TypeRef) :
    (prune (withAncestors f before) (withAncestors f cs)).1.Pairwise (Unrelated f) ∧
      ∀ b ∈ before, ∀ k ∈ (prune (withAncestors f before) (withAncestors f cs)).1, (f b).contains k = false := by
  induction cs generalizing before with
  | nil => simp [withAncestors, prune]
  | cons c rest ih =>
    rcases prune_cons f before c rest with ⟨_, -, -, hkept⟩ | ⟨hfree, hkept⟩
    · rw [hkept]
      exact ih before
    · rw [hkept]
      obtain ⟨hpairwise, hbefore⟩ := ih (before ++ [c])
      have hsublist := prune_sublist f (before ++ [c]) rest
      refine ⟨List.pairwise_cons.2 ⟨?_, hpairwise⟩, ?_⟩
      · intro k hk
        exact ⟨hbefore c (by simp) k hk, hfree k (List.mem_append_right _ (hsublist.subset hk))⟩
      · intro b hb k hk
        rcases List.mem_cons.1 hk with rfl | hk
        · exact hfree b (List.mem_append_left _ hb)
        · exact hbefore b (List.mem_append_left _ hb) k hk

theorem prune_eq_self (hcs : (before ++ cs).Pairwise (Unrelated f)) :
    prune (withAncestors f before) (withAncestors f cs) = (cs, []) := by
  induction cs generalizing before with
  | nil => simp [withAncestors, prune]
  | cons c rest ih =>
    have hsplit : (before ++ [c]) ++ rest = before ++ c :: rest := by simp
    rcases prune_cons f before c rest with ⟨x, hx, hcontains, -⟩ | ⟨-, hkept⟩
    · obtain ⟨-, hrest, hcross⟩ := List.pairwise_append.1 hcs
      have hunrelated : (f x).contains c = false := by
        rcases List.mem_append.1 hx with hx | hx
        · exact (hcross x hx c List.mem_cons_self).1
        · exact ((List.pairwise_cons.1 hrest).1 x hx).2
      exact absurd (hcontains.symm.trans hunrelated) (by simp)
    · rw [hkept, ih (by rwa [hsplit])]

end Prune

end Reduction

/-! ## Reducing the list of a type -/

namespace Hierarchy

open Reduction

variable {h : Hierarchy} {t : TypeSymbol} {r : Reduction}

/-- What a walk has found, or nothing if it does not come to an end. -/
def found (h : Hierarchy) (c : TypeRef) : Ancestors :=
  (h.ancestors c).toOption.getD ⟨[], []⟩

theorem ancestors_of_mapM {cs : List TypeRef} {reached : List Ancestors}
    (hreached : cs.mapM h.ancestors = .ok reached) :
    (∀ c ∈ cs, h.ancestors c = .ok (h.found c)) ∧ cs.zip reached = withAncestors h.found cs := by
  have hall := mapM_eq_ok_iff.1 hreached
  induction hall with
  | nil => exact ⟨by simp, rfl⟩
  | @cons c a cs reached hc _ ih =>
    have hfound : h.found c = a := by simp [found, hc, Except.toOption]
    obtain ⟨hcs, hzip⟩ := ih (mapM_eq_ok_iff.2 ‹_›)
    refine ⟨?_, ?_⟩
    · intro d hd
      rcases List.mem_cons.1 hd with rfl | hd
      · rw [hfound, hc]
      · exact hcs d hd
    · rw [List.zip_cons_cons, hzip, ← hfound]
      rfl

theorem mapM_ancestors {cs : List TypeRef} (hcs : ∀ c ∈ cs, ∃ a, h.ancestors c = .ok a) :
    cs.mapM h.ancestors = .ok (cs.map h.found) := by
  rw [mapM_eq_ok_iff, List.forall₂_map_right_iff, List.forall₂_same]
  intro c hc
  obtain ⟨a, ha⟩ := hcs c hc
  simp [found, ha, Except.toOption]

/-- A list in the two steps of its reduction. -/
def reduction (h : Hierarchy) (listed : List TypeRef) : Reduction where
  kept := (prune [] (withAncestors h.found (candidates [] listed).1)).1
  pruned := (candidates [] listed).2 ++ (prune [] (withAncestors h.found (candidates [] listed).1)).2
  unresolved := (candidates [] listed).1.filter fun x => (h.graph.resolve? x).isNone

/-- A list is reduced where all that it lists has the right number of arguments and can be walked. -/
theorem reduce_eq_ok_iff : h.reduce t = .ok r ↔ (∀ i ∈ t.interfaces, h.checkArity i = .ok ()) ∧
    (∀ c ∈ (candidates [] t.interfaces).1, h.ancestors c = .ok (h.found c)) ∧ h.reduction t.interfaces = r := by
  constructor
  · intro hr
    unfold reduce at hr
    obtain ⟨_, hcheck, hr⟩ := bind_eq_ok hr
    obtain ⟨reached, hreached, hr⟩ := bind_eq_ok hr
    obtain ⟨hancestors, hzip⟩ := ancestors_of_mapM hreached
    refine ⟨forM_eq_ok_iff.1 hcheck, hancestors, ?_⟩
    rw [← Except.ok.inj hr, hzip]
    rfl
  · rintro ⟨hcheck, hancestors, rfl⟩
    have hreached := mapM_ancestors fun c hc => ⟨_, hancestors c hc⟩
    have hzip := (ancestors_of_mapM hreached).2
    unfold reduce
    rw [forM_eq_ok_iff.2 hcheck]
    simp only [bind, Except.bind, hreached, hzip]
    rfl

theorem reduce_eq_ok (hr : h.reduce t = .ok r) :
    (∀ c ∈ (candidates [] t.interfaces).1, h.ancestors c = .ok (h.found c)) ∧
      r.kept = (prune [] (withAncestors h.found (candidates [] t.interfaces).1)).1 := by
  obtain ⟨-, hancestors, rfl⟩ := reduce_eq_ok_iff.1 hr
  exact ⟨hancestors, rfl⟩

/-- Every listed interface is a candidate, tokens aside. -/
theorem exists_candidate_of_mem {i : TypeRef} (hi : i ∈ t.interfaces) :
    ∃ c ∈ (candidates [] t.interfaces).1, c.bare = i.bare := by
  rcases exists_candidate [] hi with hseen | hc
  · cases hseen
  · exact hc

theorem kept_sublist_candidates (hr : h.reduce t = .ok r) : r.kept.Sublist (candidates [] t.interfaces).1 := by
  rw [(reduce_eq_ok hr).2]
  exact prune_sublist h.found [] _

theorem reduce_sublist (hr : h.reduce t = .ok r) : r.kept.Sublist t.interfaces :=
  (kept_sublist_candidates hr).trans (candidates_sublist [] t.interfaces)

theorem ancestors_of_kept (hr : h.reduce t = .ok r) {k : TypeRef} (hk : k ∈ r.kept) :
    h.ancestors k = .ok (h.found k) :=
  (reduce_eq_ok hr).1 k ((kept_sublist_candidates hr).subset hk)

theorem nodup_kept (hr : h.reduce t = .ok r) : (r.kept.map TypeRef.bare).Nodup :=
  (candidates_distinct [] t.interfaces).1.sublist ((kept_sublist_candidates hr).map _)

/-- Of two interfaces that are kept, neither is among the ancestors of the other. -/
theorem unrelated_of_reduce (hr : h.reduce t = .ok r) : r.kept.Pairwise (Unrelated h.found) := by
  rw [(reduce_eq_ok hr).2]
  exact (prune_unrelated h.found [] _).1

theorem reduce_covers (hr : h.reduce t = .ok r) : ∀ i ∈ t.interfaces, ∃ k ∈ r.kept, h.graph.Reaches k i := by
  intro i hi
  obtain ⟨hancestors, hkept⟩ := reduce_eq_ok hr
  obtain ⟨c, hc, hci⟩ := exists_candidate_of_mem hi
  have hcovers : ∀ c ∈ (candidates [] t.interfaces).1,
      ∃ k ∈ [] ++ (prune (withAncestors h.found []) (withAncestors h.found (candidates [] t.interfaces).1)).1,
        h.graph.Reaches k c :=
    prune_covers (.refl _) (fun _ _ _ => .trans) fun x hx y hy => ((contains_iff (hancestors x hx)).1 hy).1
  obtain ⟨k, hk, hkc⟩ := hcovers c hc
  exact ⟨k, by rw [hkept]; exact hk, hkc.trans (.of_same hci)⟩

/-- No interface that is kept is reached from another one that is. -/
theorem reduce_irredundant (hr : h.reduce t = .ok r) :
    r.kept.Pairwise fun x y => ¬h.graph.Reaches x y ∧ ¬h.graph.Reaches y x := by
  refine ((unrelated_of_reduce hr).and (List.pairwise_map.1 (nodup_kept hr))).imp_of_mem ?_
  rintro x y hx hy ⟨⟨hxy, hyx⟩, hne⟩
  have hx := ancestors_of_kept hr hx
  have hy := ancestors_of_kept hr hy
  exact ⟨fun hreach => by simp [(contains_iff hx).2 ⟨hreach, Ne.symm hne⟩] at hxy,
    fun hreach => by simp [(contains_iff hy).2 ⟨hreach, hne⟩] at hyx⟩

/-- Where a list is reduced, each of its interfaces can be walked. -/
theorem exists_ancestors_of_reduce (hr : h.reduce t = .ok r) {i : TypeRef} (hi : i ∈ t.interfaces) :
    ∃ c a, c.bare = i.bare ∧ h.ancestors c = .ok a := by
  obtain ⟨c, hc, hci⟩ := exists_candidate_of_mem hi
  exact ⟨c, _, hci, (reduce_eq_ok hr).1 c hc⟩

/-- Where a list is reduced, everything that is reached from its interfaces fits. -/
theorem fits_of_reduce (hr : h.reduce t = .ok r) {i : TypeRef} (hi : i ∈ t.interfaces) :
    ∀ x, h.graph.Reaches i x → h.graph.Fits x := by
  obtain ⟨c, a, hci, hc⟩ := exists_ancestors_of_reduce hr hi
  obtain ⟨-, -, -, -, -, hfits⟩ := ancestors_eq_ok hc
  exact fun x hix => hfits x ((SymbolGraph.Reaches.of_same hci).trans hix)

/-- A list of which no interface is reached from another is kept. -/
theorem kept_of_reduce (hr : h.reduce t = .ok r)
    (hirredundant : t.interfaces.Pairwise fun x y => ¬h.graph.Reaches x y ∧ ¬h.graph.Reaches y x) :
    r.kept = t.interfaces := by
  obtain ⟨hancestors, hkept⟩ := reduce_eq_ok hr
  have hdistinct : (t.interfaces.map TypeRef.bare).Nodup :=
    List.pairwise_map.2 (hirredundant.imp fun hxy heq => hxy.1 (.of_same heq))
  have hcandidates : candidates [] t.interfaces = (t.interfaces, []) := candidates_eq_self hdistinct (by simp)
  rw [hcandidates] at hancestors hkept
  have hunrelated : t.interfaces.Pairwise (Unrelated h.found) := by
    refine hirredundant.imp_of_mem ?_
    rintro x y hx hy ⟨hxy, hyx⟩
    refine ⟨Bool.eq_false_iff.2 fun hcontains => hxy ?_, Bool.eq_false_iff.2 fun hcontains => hyx ?_⟩
    · exact ((contains_iff (hancestors x hx)).1 hcontains).1
    · exact ((contains_iff (hancestors y hy)).1 hcontains).1
  have hprune : prune (withAncestors h.found []) (withAncestors h.found t.interfaces) = (t.interfaces, []) :=
    prune_eq_self hunrelated
  rw [hkept]
  exact congrArg Prod.fst hprune

theorem ne_exhausted_of_checkArity {x : TypeRef} {e : HierarchyError} (hx : h.checkArity x = .error e) (budget : Nat) :
    e ≠ .exhausted budget := by
  unfold checkArity at hx
  split at hx
  · rename_i hfault
    obtain rfl := Except.error.inj hx
    obtain ⟨u, -, hu⟩ := Option.bind_eq_some_iff.1 hfault
    exact ne_exhausted_of_arityFault? hu budget
  · cases hx

/-- Reducing a list runs out of budget only where a walk does. -/
theorem reduce_settled (hwalks : ∀ i ∈ t.interfaces, Settled (h.ancestors i)) (budget : Nat) :
    h.reduce t ≠ .error (.exhausted budget) := by
  intro hr
  unfold reduce at hr
  cases hcheck : t.interfaces.forM h.checkArity with
  | error e =>
    obtain rfl : e = .exhausted budget := by simpa [hcheck, bind, Except.bind] using hr
    obtain ⟨i, -, hfault⟩ := exists_of_forM_error hcheck
    exact ne_exhausted_of_checkArity hfault budget rfl
  | ok done =>
    simp only [hcheck, bind, Except.bind] at hr
    cases hreached : (candidates [] t.interfaces).1.mapM h.ancestors with
    | ok reached => simp [hreached, pure, Except.pure] at hr
    | error e =>
      obtain rfl : e = .exhausted budget := by simpa [hreached] using hr
      obtain ⟨i, hi, hwalk⟩ := exists_of_mapM_error hreached
      have hsettled := hwalks i ((candidates_sublist [] t.interfaces).subset hi)
      rw [hwalk] at hsettled
      exact hsettled

end Hierarchy

end Exonym
