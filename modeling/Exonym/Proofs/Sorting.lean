import Mathlib.Data.List.Forall2

/-!
# Sorting by a key

Lists are sorted by an order on some key of their elements. What comes out depends only on which elements there
are, as long as the order tells them apart, and on nothing of them but their keys.

Main statements:

* `sort_eq_of_perm`: listing elements in another order does not change the sorted list.
* `filter_sort`: elements may be left out before sorting or after it.
* `flatMap_filter_of_sorted`: a sorted list is made of the runs of its keys.
* `mergeSort_eq_sortTo`: a form of sorting that the kernel carries out.
* `forall₂_sort`: elements that correspond and have one key still correspond when both lists are sorted.
-/

namespace Exonym

section Ordered

variable {α κ : Type} {c : κ → κ → Ordering} [Std.TransCmp c]

theorem isLE_total (a b : κ) : ((c a b).isLE || (c b a).isLE) = true := by
  have hswap : c a b = (c b a).swap := Std.OrientedCmp.eq_swap
  rw [hswap]
  cases c b a <;> rfl

theorem pairwise_sort (k : α → κ) (xs : List α) :
    (xs.mergeSort fun a b => (c (k a) (k b)).isLE).Pairwise fun a b => (c (k a) (k b)).isLE = true :=
  List.pairwise_mergeSort (fun _ _ _ => Std.TransCmp.isLE_trans) (fun a b => isLE_total (k a) (k b)) xs

/-- A list that has been sorted is left as it is. -/
theorem sort_sort (k : α → κ) (xs : List α) :
    (xs.mergeSort fun a b => (c (k a) (k b)).isLE).mergeSort (fun a b => (c (k a) (k b)).isLE) =
      xs.mergeSort fun a b => (c (k a) (k b)).isLE :=
  List.mergeSort_of_pairwise (pairwise_sort k xs)

theorem sort_eq_of_perm {k : α → κ} {xs ys : List α} (h : xs.Perm ys)
    (hinj : ∀ a ∈ xs, ∀ b ∈ xs, c (k a) (k b) = .eq → a = b) :
    (xs.mergeSort fun a b => (c (k a) (k b)).isLE) = ys.mergeSort fun a b => (c (k a) (k b)).isLE := by
  refine List.Perm.eq_of_pairwise ?_ (pairwise_sort k xs) (pairwise_sort k ys) ?_
  · intro a b ha hb hab hba
    have hb : b ∈ xs := h.mem_iff.2 (List.mem_mergeSort.1 hb)
    exact hinj a (List.mem_mergeSort.1 ha) b hb (Std.OrientedCmp.isLE_antisymm hab hba)
  · exact (List.mergeSort_perm xs _).trans (h.trans (List.mergeSort_perm ys _).symm)

/-- A new first element parts what is sorted into what has to stand before it and the rest. -/
theorem sort_cons (k : α → κ) (x : α) (xs : List α) :
    let sorted := xs.mergeSort fun a b => (c (k a) (k b)).isLE
    let before := sorted.filter fun b => !(c (k x) (k b)).isLE
    let after := sorted.filter fun b => (c (k x) (k b)).isLE
    sorted = before ++ after ∧ ((x :: xs).mergeSort fun a b => (c (k a) (k b)).isLE) = before ++ x :: after := by
  intro sorted before after
  obtain ⟨b, a, hsort, hrest, hb⟩ := @List.mergeSort_cons α (fun a b => (c (k a) (k b)).isLE)
    (fun _ _ _ => Std.TransCmp.isLE_trans) (fun a b => isLE_total (k a) (k b)) x xs
  have hsorted := pairwise_sort (c := c) k (x :: xs)
  rw [hsort, List.pairwise_append, List.pairwise_cons] at hsorted
  have ha : ∀ y ∈ a, (c (k x) (k y)).isLE = true := hsorted.2.1.1
  have hbefore : before = b := by
    show sorted.filter _ = b
    rw [show sorted = b ++ a from hrest, List.filter_append, List.filter_eq_self.2 hb,
      List.filter_eq_nil_iff.2 fun y hy => by simp [ha y hy], List.append_nil]
  have hafter : after = a := by
    show sorted.filter _ = a
    rw [show sorted = b ++ a from hrest, List.filter_append, List.filter_eq_self.2 ha,
      List.filter_eq_nil_iff.2 fun y hy => by simpa using hb y hy, List.nil_append]
  rw [hbefore, hafter]
  exact ⟨hrest, hsort⟩

/-- Sorting keeps elements of one key in their order, so it may be done before or after some are left out. -/
theorem filter_sort (k : α → κ) (p : α → Bool) (xs : List α) :
    (xs.mergeSort fun a b => (c (k a) (k b)).isLE).filter p =
      (xs.filter p).mergeSort fun a b => (c (k a) (k b)).isLE := by
  induction xs with
  | nil => simp
  | cons x rest ih =>
    obtain ⟨hrest, hsort⟩ := sort_cons (c := c) k x rest
    rw [hsort, List.filter_append]
    by_cases hx : p x = true
    · rw [List.filter_cons_of_pos hx, List.filter_cons_of_pos hx, (sort_cons k x (rest.filter p)).2, ← ih]
      simp only [List.filter_filter, Bool.and_comm]
    · rw [List.filter_cons_of_neg hx, List.filter_cons_of_neg hx, ← ih, ← List.filter_append, ← hrest]

/-- Orders that agree on some elements put these in one order, whatever they do to others. -/
theorem filter_sort_congr {d : κ → κ → Ordering} [Std.TransCmp d] {k : α → κ} {p : α → Bool} {xs : List α}
    (h : ∀ x ∈ xs, p x = true → ∀ y ∈ xs, p y = true → c (k x) (k y) = d (k x) (k y)) :
    (xs.mergeSort fun a b => (c (k a) (k b)).isLE).filter p =
      (xs.mergeSort fun a b => (d (k a) (k b)).isLE).filter p := by
  have hsame := List.map_mergeSort (r := fun a b => (c (k a) (k b)).isLE) (s := fun a b => (d (k a) (k b)).isLE)
    (f := id) (l := xs.filter p) fun x hx y hy => by
      rw [List.mem_filter] at hx hy
      rw [h x hx.1 hx.2 y hy.1 hy.2]
      rfl
  rw [filter_sort, filter_sort]
  simpa using hsame

end Ordered

/-- Elements that are in the order of their keys are in strict order if no two of them have one key. -/
theorem pairwise_lt_of_ne {α κ : Type} {c : κ → κ → Ordering} [Std.LawfulEqCmp c] {k : α → κ} {xs : List α}
    (hne : xs.Pairwise fun a b => k a ≠ k b) (hle : xs.Pairwise fun a b => (c (k a) (k b)).isLE = true) :
    xs.Pairwise fun a b => c (k a) (k b) = .lt := by
  refine (hne.and hle).imp ?_
  rintro a b ⟨hne, hle⟩
  cases horder : c (k a) (k b) with
  | lt => rfl
  | eq => exact absurd (Std.LawfulEqCmp.eq_of_compare horder) hne
  | gt => simp [horder] at hle

theorem forall₂_sort {α β κ : Type} {R : α → β → Prop} {r : κ → κ → Bool} {k : α → κ} {l : β → κ} {xs : List α}
    {ys : List β} (h : List.Forall₂ R xs ys) (hkey : ∀ a b, R a b → k a = l b) :
    List.Forall₂ R (xs.mergeSort fun a b => r (k a) (k b)) (ys.mergeSort fun a b => r (l a) (l b)) := by
  -- both lists are read off the list of corresponding pairs, and sorting may be done there
  have hpairs : ∃ ps : List (α × β), (∀ p ∈ ps, R p.1 p.2) ∧ ps.map (·.1) = xs ∧ ps.map (·.2) = ys := by
    induction h with
    | nil => exact ⟨[], by simp, rfl, rfl⟩
    | cons hab _ ih =>
      obtain ⟨ps, hps, rfl, rfl⟩ := ih
      exact ⟨(_, _) :: ps, by simpa using ⟨hab, fun a b => hps (a, b)⟩, rfl, rfl⟩
  obtain ⟨ps, hps, rfl, rfl⟩ := hpairs
  have hleft := List.map_mergeSort (r := fun p q : α × β => r (k p.1) (k q.1)) (s := fun a b => r (k a) (k b))
    (f := Prod.fst) (l := ps) fun _ _ _ _ => rfl
  have hright := List.map_mergeSort (r := fun p q : α × β => r (k p.1) (k q.1)) (s := fun a b => r (l a) (l b))
    (f := Prod.snd) (l := ps) fun p hp q hq => by rw [hkey _ _ (hps p hp), hkey _ _ (hps q hq)]
  rw [← hleft, ← hright, List.forall₂_map_left_iff, List.forall₂_map_right_iff, List.forall₂_same]
  exact fun p hp => hps p (List.mem_mergeSort.1 hp)

/-! ## Runs of one key -/

section Runs

/-- A last key is new, or it is there already. -/
theorem eraseDups_concat {κ : Type} [DecidableEq κ] (keys : List κ) (key : κ) :
    (keys ++ [key]).eraseDups = if key ∈ keys then keys.eraseDups else keys.eraseDups ++ [key] := by
  rw [List.eraseDups_append, List.removeAll]
  split
  · rename_i hkey
    rw [List.filter_cons_of_neg (by simpa using hkey), List.filter_nil, List.eraseDups_nil, List.append_nil]
  · rename_i hkey
    rw [List.filter_cons_of_pos (by simpa using hkey), List.filter_nil, List.eraseDups_cons, List.filter_nil,
      List.eraseDups_nil]

variable {α κ : Type} [DecidableEq κ] {c : κ → κ → Ordering} [Std.LawfulEqCmp c] {k : α → κ}

/-- Keys that are in order are in strict order without repetitions. -/
theorem pairwise_eraseDups {keys : List κ} (h : keys.Pairwise fun a b => (c a b).isLE = true) :
    keys.eraseDups.Pairwise fun a b => c a b = .lt := by
  -- what follows the first key is made of a shorter list, in which that key is missing
  generalize hn : keys.length = n
  induction n using Nat.strongRecOn generalizing keys with
  | ind n ih =>
    cases keys with
    | nil => simp
    | cons key rest =>
      rw [List.pairwise_cons] at h
      rw [List.eraseDups_cons, List.pairwise_cons]
      refine ⟨fun other hother => ?_, ih _ ?_ (h.2.filter _) rfl⟩
      · rw [List.mem_eraseDups, List.mem_filter] at hother
        have hle := h.1 other hother.1
        have hne : c key other ≠ .eq := by
          intro heq
          obtain rfl := Std.LawfulEqCmp.eq_of_compare heq
          simp at hother
        cases horder : c key other with
        | lt => rfl
        | eq => exact absurd horder hne
        | gt => simp [horder] at hle
      · have := List.length_filter_le (fun y => !y == key) rest
        simp only [List.length_cons] at hn
        omega

variable [Std.TransCmp c]

/-- In a list that is sorted by a key, elements of the least key come first. -/
theorem eq_append_of_least {xs : List α} {key : κ} (h : xs.Pairwise fun a b => (c (k a) (k b)).isLE = true)
    (hleast : ∀ x ∈ xs, (c key (k x)).isLE = true) :
    xs = xs.filter (k · = key) ++ xs.filter (k · ≠ key) := by
  induction xs with
  | nil => rfl
  | cons x rest ih =>
    rw [List.pairwise_cons] at h
    by_cases hx : k x = key
    · rw [List.filter_cons_of_pos (by simpa using hx), List.filter_cons_of_neg (by simpa using hx), List.cons_append,
        ← ih h.2 fun y hy => hleast y (List.mem_cons_of_mem _ hy)]
    · have hnone : ∀ y ∈ x :: rest, k y ≠ key := by
        intro y hy hkey
        rcases List.mem_cons.1 hy with rfl | hy
        · exact hx hkey
        · have hle : (c (k x) key).isLE = true := hkey ▸ h.1 y hy
          exact hx (Std.LawfulEqCmp.eq_of_compare (Std.OrientedCmp.isLE_antisymm hle (hleast x List.mem_cons_self)))
      rw [List.filter_eq_nil_iff.2 (by simpa using hnone), List.filter_eq_self.2 (by simpa using hnone),
        List.nil_append]

/-- A list that is sorted by a key is made of the runs of the keys. -/
theorem flatMap_filter_of_sorted {xs : List α} {keys : List κ} (hkeys : keys.Pairwise fun a b => c a b = .lt)
    (h : xs.Pairwise fun a b => (c (k a) (k b)).isLE = true) (hmem : ∀ x ∈ xs, k x ∈ keys) :
    (keys.flatMap fun key => xs.filter (k · = key)) = xs := by
  induction keys generalizing xs with
  | nil =>
    rw [List.eq_nil_iff_forall_not_mem.2 fun x hx => List.not_mem_nil (hmem x hx)]
    rfl
  | cons key rest ih =>
    rw [List.pairwise_cons] at hkeys
    have hleast : ∀ x ∈ xs, (c key (k x)).isLE = true := by
      intro x hx
      have hself : c key key = .eq := Std.ReflCmp.compare_self
      rcases List.mem_cons.1 (hmem x hx) with hkey | hkey
      · rw [hkey, hself]
        rfl
      · rw [hkeys.1 (k x) hkey]
        rfl
    -- the rest of the list has no element with the least key, and of it the induction speaks
    have hrest : (rest.flatMap fun other => xs.filter (k · = other)) = xs.filter (k · ≠ key) := by
      rw [← ih hkeys.2 (h.filter _) fun x hx => ?_]
      · refine List.flatMap_congr fun other hother => ?_
        have hne : other ≠ key := by
          rintro rfl
          simpa [Std.ReflCmp.compare_self] using hkeys.1 other hother
        rw [List.filter_filter]
        refine List.filter_congr fun x _ => ?_
        by_cases hx : k x = other <;> simp [hx, hne]
      · rw [List.mem_filter] at hx
        exact (List.mem_cons.1 (hmem x hx.1)).resolve_left (by simpa using hx.2)
    rw [List.flatMap_cons, hrest]
    exact (eq_append_of_least h hleast).symm

end Runs
/-! ## Sorting closed lists

The sort of the library is defined by recursion on a measure, which the kernel does not carry out. The same sort by
recursion on the depth of the halving is one that it does. -/

section Kernel

variable {α : Type}

/-- Merges a list with one that starts with `x` and whose rest `rest` merges. -/
def mergeHead (le : α → α → Bool) (x : α) (rest : List α → List α) : List α → List α
  | [] => x :: rest []
  | y :: ys => if le x y then x :: rest (y :: ys) else y :: mergeHead le x rest ys

def mergeLists (le : α → α → Bool) : List α → List α → List α
  | [] => fun ys => ys
  | x :: xs => mergeHead le x (mergeLists le xs)

/-- Sorts by halving, not deeper than `depth`. -/
def sortTo (le : α → α → Bool) : Nat → List α → List α
  | 0, xs => xs
  | depth + 1, xs =>
    if xs.length < 2 then xs
    else
      let half := (xs.length + 1) / 2
      mergeLists le (sortTo le depth (xs.take half)) (sortTo le depth (xs.drop half))

theorem mergeLists_eq (le : α → α → Bool) (xs ys : List α) : mergeLists le xs ys = xs.merge ys le := by
  induction xs generalizing ys with
  | nil => simp [mergeLists]
  | cons x xs ih =>
    unfold mergeLists
    induction ys with
    | nil => simp [mergeHead, ih]
    | cons y ys ihy => rw [mergeHead, List.cons_merge_cons, ihy, ih]

theorem sortTo_eq (le : α → α → Bool) {depth : Nat} {xs : List α} (h : xs.length ≤ depth + 1) :
    sortTo le depth xs = xs.mergeSort le := by
  induction depth generalizing xs with
  | zero =>
    match xs, h with
    | [], _ => simp [sortTo]
    | [x], _ => simp [sortTo]
  | succ depth ih =>
    match xs, h with
    | [], _ => simp [sortTo]
    | [x], _ => simp [sortTo]
    | x :: y :: rest, h =>
      unfold sortTo
      rw [if_neg (by simp), mergeLists_eq, ih, ih, List.mergeSort]
      · simp only [List.MergeSort.Internal.splitInTwo_fst, List.MergeSort.Internal.splitInTwo_snd]
      · simp only [List.length_drop, List.length_cons] at h ⊢
        omega
      · simp only [List.length_take, List.length_cons] at h ⊢
        omega

theorem mergeSort_eq_sortTo (le : α → α → Bool) (xs : List α) : xs.mergeSort le = sortTo le xs.length xs :=
  (sortTo_eq le (by omega)).symm

end Kernel

end Exonym
