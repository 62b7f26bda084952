import Exonym.Grouping
import Exonym.Proofs.Sorting
import Mathlib.Data.List.Nodup

/-!
# Groups have distinct keys

Main statements:

* `Grouping.perm_flatMap_filter`: taking elements key by key.
* `Grouping.nodup_keys`: there is one group for each key.
* `Grouping.forall₂_sort_groups`: the groups do not depend on the order of the elements.
-/

namespace Exonym.Grouping

theorem nodup_eraseDups {α : Type} [DecidableEq α] (xs : List α) : xs.eraseDups.Nodup := by
  -- what follows the first element is made of a shorter list, in which that element is missing
  generalize hn : xs.length = n
  induction n using Nat.strongRecOn generalizing xs with
  | ind n ih =>
    cases xs with
    | nil => simp
    | cons x rest =>
      rw [List.eraseDups_cons, List.nodup_cons]
      refine ⟨by simp, ih _ ?_ _ rfl⟩
      have := List.length_filter_le (fun y => !y == x) rest
      simp only [List.length_cons] at hn
      omega

/-- Without repetitions, lists with the same elements differ in their order only. -/
theorem perm_eraseDups {α : Type} [DecidableEq α] {xs ys : List α} (h : xs.Perm ys) :
    xs.eraseDups.Perm ys.eraseDups := by
  rw [List.perm_ext_iff_of_nodup (nodup_eraseDups _) (nodup_eraseDups _)]
  intro x
  rw [List.mem_eraseDups, List.mem_eraseDups, h.mem_iff]

variable {κ α : Type} [DecidableEq κ]

/-- Elements that are taken key by key are all taken, and once. -/
theorem perm_flatMap_filter {f : α → κ} {keys : List κ} (hkeys : keys.Nodup) {xs : List α}
    (hall : ∀ x ∈ xs, f x ∈ keys) : (keys.flatMap fun key => xs.filter (f · = key)).Perm xs := by
  induction keys generalizing xs with
  | nil =>
    have hnone : xs = [] := List.eq_nil_iff_forall_not_mem.2 fun x hx => by simpa using hall x hx
    rw [hnone, List.flatMap_nil]
  | cons key rest ih =>
    obtain ⟨hkey, hrest⟩ := List.nodup_cons.1 hkeys
    -- the other keys are those of the elements that are left
    have hleft : (rest.flatMap fun other => xs.filter (f · = other)) =
        rest.flatMap fun other => (xs.filter fun x => !decide (f x = key)).filter (f · = other) := by
      refine List.flatMap_congr fun other hother => ?_
      rw [List.filter_filter]
      refine List.filter_congr fun x _ => ?_
      grind
    rw [List.flatMap_cons, hleft]
    refine ((ih hrest ?_).append_left _).trans (List.filter_append_perm _ xs)
    intro x hx
    obtain ⟨hx, hne⟩ := List.mem_filter.1 hx
    exact (List.mem_cons.1 (hall x hx)).resolve_left (by simpa using hne)

theorem nodup_keys (entries : List (κ × α)) : ((groups entries).map (·.1)).Nodup := by
  rw [groups_keys]
  exact nodup_eraseDups _

/-- Every element is in the group of its key. -/
theorem exists_mem_groups {entries : List (κ × α)} {e : κ × α} (h : e ∈ entries) :
    ∃ group, (e.1, group) ∈ groups entries :=
  ⟨_, mem_groups.2 ⟨List.mem_map_of_mem h, rfl⟩⟩

/-- Groups have distinct keys in whatever order they are put. -/
theorem pairwise_mergeSort_groups (entries : List (κ × α)) (r : κ × List α → κ × List α → Bool) :
    ((groups entries).mergeSort r).Pairwise fun p q => p.1 ≠ q.1 := by
  have hperm := (List.mergeSort_perm (groups entries) r).map Prod.fst
  exact List.pairwise_map.1 (hperm.nodup_iff.2 (nodup_keys entries))

/-- Elements in another order fall into the same groups, in another order. -/
theorem forall₂_sort_groups {c : κ → κ → Ordering} [Std.TransCmp c] (hc : ∀ a b, c a b = .eq → a = b)
    {entries entries' : List (κ × α)} (h : entries.Perm entries') :
    List.Forall₂ (fun p q => p.1 = q.1 ∧ p.2.Perm q.2) ((groups entries).mergeSort fun a b => (c a.1 b.1).isLE)
      ((groups entries').mergeSort fun a b => (c a.1 b.1).isLE) := by
  have hkeys := perm_eraseDups (h.map (·.1))
  -- the groups of the second list, in the order in which the first list has its keys
  let between := (entries.map (·.1)).eraseDups.map fun key => (key, (entries'.filter (·.1 = key)).map (·.2))
  have hperm : (groups entries').Perm between := (hkeys.map _).symm
  have hall : List.Forall₂ (fun p q => p.1 = q.1 ∧ p.2.Perm q.2) (groups entries) between := by
    unfold groups
    rw [List.forall₂_map_left_iff, List.forall₂_map_right_iff, List.forall₂_same]
    exact fun key _ => ⟨rfl, (h.filter _).map _⟩
  have hsame := sort_eq_of_perm (c := c) (k := Prod.fst) hperm ?_
  · rw [hsame]
    exact forall₂_sort (r := fun a b => (c a b).isLE) hall fun _ _ hpq => hpq.1
  · intro p hp q hq hpq
    exact List.inj_on_of_nodup_map (nodup_keys entries') hp hq (hc _ _ hpq)

end Exonym.Grouping
