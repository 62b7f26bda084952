import Exonym.Hierarchy
import Exonym.Proofs.TypeRef.Bare
import Mathlib.Data.List.Perm.Subperm
import Mathlib.Logic.Relation

/-!
# Walks find what can be reached

Tokens aside, one reference leads to another if the second is an interface of the definition that the first points at,
closed by its arguments. A walk that comes to an end has looked at every reference that can be reached, once, and each
of them had the right number of arguments. A walk that stops early has met one that had not, or has run out of budget,
which does not happen where as many references as the budget allows are all that can be reached.

Main statements:

* `Hierarchy.look_eq_ok_iff`, `Hierarchy.look_eq_error_iff`: what looking at one reference does to a walk.
* `Hierarchy.run_ends`: a run is so many looks, and an answer at the walk that they lead to.
* `Hierarchy.sound_of_look`, `Hierarchy.Looks.sound`: what the looks of a walk keep true of it.
* `Hierarchy.ancestors_eq_ok`: what a walk that comes to an end has found.
* `Hierarchy.fault_of_ancestors_error`: why a walk stops early.
* `Hierarchy.ancestors_settled`: when a walk does not run out of budget.
-/

namespace Exonym

open Relation (ReflTransGen TransGen)

/-! ## Reaching references -/

namespace SymbolGraph

variable {g : SymbolGraph} {x y z : TypeRef}

@[simp] theorem resolve?_bare (g : SymbolGraph) (x : TypeRef) : g.resolve? x.bare = g.resolve? x := by
  simp [resolve?]

theorem mem_types_of_resolve? {t : TypeSymbol} (h : g.resolve? x = some t) : t ∈ g.types := by
  obtain ⟨id, -, hfind⟩ := Option.bind_eq_some_iff.1 h
  exact (find?_eq_some hfind).2

/-- The references one step away from a reference, without tokens. -/
def bases (g : SymbolGraph) (x : TypeRef) : List TypeRef :=
  match g.resolve? x with
  | some t => (Hierarchy.parents t x).map TypeRef.bare
  | none => []

theorem bases_of_resolve? {t : TypeSymbol} (h : g.resolve? x = some t) :
    g.bases x = t.interfaces.map fun i => ((Hierarchy.closing t x).apply i).bare := by
  simp [bases, h, Hierarchy.parents, Function.comp_def]

/-- One reference leads to another in one step. Only references without tokens are led to. -/
def LeadsTo (g : SymbolGraph) (x y : TypeRef) : Prop :=
  y ∈ g.bases x

def Reaches (g : SymbolGraph) (x y : TypeRef) : Prop :=
  ReflTransGen g.LeadsTo x.bare y.bare

/-- The second reference is reached from the first in one step or more. -/
def Inherits (g : SymbolGraph) (x y : TypeRef) : Prop :=
  TransGen g.LeadsTo x.bare y.bare

/-- The reference has no arguments, or as many as its definition has parameters. -/
def Fits (g : SymbolGraph) (x : TypeRef) : Prop :=
  ∀ t, g.resolve? x = some t → Hierarchy.arityFault? t x = none

theorem closing_bare (t : TypeSymbol) (x : TypeRef) :
    (Hierarchy.closing t x).bare = Hierarchy.closing t x.bare := by
  cases x with
  | named target args isValueType =>
    simp only [Hierarchy.closing, TypeRef.bare, TypeRef.bareAll_eq, TypeSymbol.owner]
    exact Substitution.forArguments_bare t.id args
  | param | array | pointer | byRef | nested => rfl

@[simp] theorem bases_bare (g : SymbolGraph) (x : TypeRef) : g.bases x.bare = g.bases x := by
  unfold bases
  rw [resolve?_bare]
  cases g.resolve? x with
  | none => rfl
  | some t => simp [Hierarchy.parents, Substitution.bare_apply, closing_bare, Function.comp_def]

theorem arityFault?_bare {t : TypeSymbol} :
    Hierarchy.arityFault? t x.bare = none ↔ Hierarchy.arityFault? t x = none := by
  cases x <;> simp [Hierarchy.arityFault?, TypeRef.bare, TypeRef.bareAll_eq]

@[simp] theorem fits_bare : g.Fits x.bare ↔ g.Fits x := by
  simp [Fits, arityFault?_bare]

theorem Reaches.refl (g : SymbolGraph) (x : TypeRef) : g.Reaches x x :=
  ReflTransGen.refl

theorem Reaches.of_same (h : x.bare = y.bare) : g.Reaches x y := by
  unfold Reaches
  rw [h]

theorem Reaches.trans (hxy : g.Reaches x y) (hyz : g.Reaches y z) : g.Reaches x z :=
  ReflTransGen.trans hxy hyz

theorem Reaches.tail (hxy : g.Reaches x y) (hyz : z ∈ g.bases y) (hz : z.bare = z) : g.Reaches x z := by
  unfold Reaches
  rw [hz]
  exact ReflTransGen.tail hxy (by rwa [LeadsTo, bases_bare])

theorem bare_of_mem_bases (h : y ∈ g.bases x) : y.bare = y := by
  unfold bases at h
  split at h
  · obtain ⟨p, -, rfl⟩ := List.mem_map.1 h
    simp
  · cases h

/-- What an interface of the definition becomes under the arguments of the reference is one step away. -/
theorem mem_bases {t : TypeSymbol} (h : g.resolve? x = some t) {i : TypeRef} (hi : i ∈ t.interfaces) :
    ((Hierarchy.closing t x).apply i).bare ∈ g.bases x := by
  rw [bases_of_resolve? h]
  exact List.mem_map_of_mem hi

/-- What is reached is the reference itself or reached from a reference one step away. -/
theorem Reaches.cases_head (h : g.Reaches x z) : x.bare = z.bare ∨ ∃ y ∈ g.bases x, g.Reaches y z := by
  rcases ReflTransGen.cases_head h with heq | ⟨y, hxy, hyz⟩
  · exact .inl heq
  · have hxy : y ∈ g.bases x := by rwa [LeadsTo, bases_bare] at hxy
    refine .inr ⟨y, hxy, ?_⟩
    rwa [Reaches, bare_of_mem_bases hxy]

theorem Inherits.of_mem_bases (hxy : y ∈ g.bases x) (hyz : g.Reaches y z) : g.Inherits x z := by
  refine TransGen.head' ?_ hyz
  rwa [LeadsTo, bases_bare, bare_of_mem_bases hxy]

theorem Inherits.reaches (h : g.Inherits x y) : g.Reaches x y :=
  TransGen.to_reflTransGen h

/-- The set of what is reached from a list without tokens is closed under steps as soon as the list is. -/
theorem mem_of_reaches {xs : List TypeRef} (hx : x.bare ∈ xs) (hclosed : ∀ y ∈ xs, ∀ z ∈ g.bases y, z ∈ xs)
    (h : g.Reaches x z) : z.bare ∈ xs :=
  ReflTransGen.head_induction_on (motive := fun y _ => y ∈ xs → z.bare ∈ xs) h id
    (fun hyz _ ih hy => ih (hclosed _ hy _ hyz)) hx

end SymbolGraph

/-! ## One reference after the other -/

namespace Walk

/-- The second walk is the first with references pushed on it; of these it had not come across the ones in `new`. -/
structure Extends (w : Walk) (rs new : List TypeRef) (w' : Walk) : Prop where
  visited : w'.visited = new ++ w.visited
  pending : w'.pending = new ++ w.pending
  found : w'.found = w.found
  subset : new ⊆ rs
  covers : ∀ r ∈ rs, r.bare ∈ w'.visited.map TypeRef.bare
  distinct : (w.visited.map TypeRef.bare).Nodup → (w'.visited.map TypeRef.bare).Nodup

theorem exists_extends_push (w : Walk) (r : TypeRef) : ∃ new, w.Extends [r] new (w.push r) := by
  have hsame : w.visited.any (·.same r) = true ↔ r.bare ∈ w.visited.map TypeRef.bare := TypeRef.any_same_iff
  unfold push
  by_cases hvisited : w.visited.any (·.same r) = true
  · rw [if_pos hvisited]
    refine ⟨[], rfl, rfl, rfl, List.nil_subset _, ?_, id⟩
    simpa using hsame.1 hvisited
  · rw [if_neg hvisited]
    refine ⟨[r], rfl, rfl, rfl, List.Subset.refl _, by simp, fun hdistinct => ?_⟩
    exact List.nodup_cons.2 ⟨fun hmem => hvisited (hsame.2 hmem), hdistinct⟩

theorem Extends.trans {w w' w'' : Walk} {rs rs' new new' : List TypeRef} (h : w.Extends rs new w')
    (h' : w'.Extends rs' new' w'') : w.Extends (rs ++ rs') (new' ++ new) w'' where
  visited := by rw [h'.visited, h.visited, List.append_assoc]
  pending := by rw [h'.pending, h.pending, List.append_assoc]
  found := h'.found.trans h.found
  subset := List.append_subset.2 ⟨List.Subset.trans h'.subset (List.subset_append_right _ _),
    List.Subset.trans h.subset (List.subset_append_left _ _)⟩
  covers := by
    intro r hr
    rcases List.mem_append.1 hr with hr | hr
    · rw [h'.visited, List.map_append]
      exact List.mem_append_right _ (h.covers r hr)
    · exact h'.covers r hr
  distinct := fun hdistinct => h'.distinct (h.distinct hdistinct)

theorem exists_extends_foldl_push (w : Walk) (rs : List TypeRef) : ∃ new, w.Extends rs new (rs.foldl push w) := by
  induction rs generalizing w with
  | nil => exact ⟨[], rfl, rfl, rfl, List.nil_subset _, by simp, id⟩
  | cons r rest ih =>
    obtain ⟨first, hfirst⟩ := w.exists_extends_push r
    obtain ⟨later, hlater⟩ := ih (w.push r)
    exact ⟨later ++ first, hfirst.trans hlater⟩

@[simp] theorem found_foldl_push (w : Walk) (rs : List TypeRef) : (rs.foldl push w).found = w.found := by
  obtain ⟨new, hextends⟩ := w.exists_extends_foldl_push rs
  exact hextends.found

/-- What holds of a walk that has looked at the references in `looked`: it has come across those and the pending ones,
each once, and across everything that they lead to. -/
structure Sound (g : SymbolGraph) (start : TypeRef) (looked : List TypeRef) (w : Walk) : Prop where
  parted : w.visited.Perm (looked ++ w.pending)
  distinct : (w.visited.map TypeRef.bare).Nodup
  found : w.found.closed = looked.filter fun r => !r.same start
  begun : start ∈ w.visited
  reached : ∀ x ∈ w.visited, g.Reaches start x
  fits : ∀ x ∈ looked, g.Fits x
  closed : ∀ x ∈ looked, ∀ y ∈ g.bases x, y ∈ w.visited.map TypeRef.bare

theorem sound_start (g : SymbolGraph) (r : TypeRef) : Sound g r [] (start r) where
  parted := List.Perm.refl _
  distinct := by simp [start]
  found := rfl
  begun := List.mem_singleton_self r
  reached := by
    intro x hx
    rw [List.mem_singleton.1 hx]
    exact .refl g r
  fits := by simp
  closed := by simp

end Walk

namespace Hierarchy

variable {h : Hierarchy} {start r x : TypeRef} {looked rest : List TypeRef} {w w' : Walk} {a : Ancestors} {n : Nat}
  {e : HierarchyError}

/-- What is found once a reference has been looked at. -/
def noting (g : SymbolGraph) (start r : TypeRef) (a : Ancestors) : Ancestors where
  closed := a.closed ++ [r].filter fun r => !r.same start
  unresolved := a.unresolved ++ [r].filter fun r => !r.same start && (g.resolve? r).isNone

/-- What is pushed when a reference is looked at. -/
def pushed (g : SymbolGraph) (r : TypeRef) : List TypeRef :=
  ((g.resolve? r).elim [] (parents · r)).reverse

theorem map_bare_pushed (g : SymbolGraph) (r : TypeRef) : (pushed g r).map TypeRef.bare = (g.bases r).reverse := by
  unfold pushed SymbolGraph.bases
  cases g.resolve? r <;> simp

theorem mem_bases_iff_pushed {g : SymbolGraph} : x ∈ g.bases r ↔ ∃ p ∈ pushed g r, p.bare = x := by
  rw [← List.mem_reverse, ← map_bare_pushed, List.mem_map]

/-- A look succeeds where the reference fits. It notes the reference and pushes what this leads to. -/
theorem look_eq_ok_iff : h.look start w r = .ok w' ↔ h.graph.Fits r ∧
    (pushed h.graph r).foldl Walk.push { w with found := noting h.graph start r w.found } = w' := by
  unfold look SymbolGraph.Fits pushed
  cases hresolve : h.graph.resolve? r with
  | none => cases hsame : r.same start <;> simp [noting, hresolve, hsame]
  | some t =>
    cases hfault : arityFault? t r with
    | some fault => simp [hfault]
    | none => cases hsame : r.same start <;> simp [noting, hresolve, hsame, hfault]

/-- A look fails where the reference does not fit, and says so. -/
theorem look_eq_error_iff :
    h.look start w r = .error e ↔ ∃ t, h.graph.resolve? r = some t ∧ arityFault? t r = some e := by
  unfold look
  cases hresolve : h.graph.resolve? r with
  | none => simp
  | some t => cases hfault : arityFault? t r <;> simp [hfault]

/-- Looking at the next reference keeps a walk sound. -/
theorem sound_of_look (hw : w.Sound h.graph start looked) (hpending : w.pending = r :: rest)
    (hlook : h.look start { w with pending := rest } r = .ok w') : w'.Sound h.graph start (looked ++ [r]) := by
  have hr : r ∈ w.visited := hw.parted.mem_iff.2 (by simp [hpending])
  have hparted : w.visited.Perm ((looked ++ [r]) ++ rest) := by simpa [hpending] using hw.parted
  obtain ⟨hfits, rfl⟩ := look_eq_ok_iff.1 hlook
  obtain ⟨new, hnew⟩ := Walk.exists_extends_foldl_push
    ⟨w.visited, rest, noting h.graph start r w.found⟩ (pushed h.graph r)
  refine ⟨?_, hnew.distinct hw.distinct, ?_, ?_, ?_, ?_, ?_⟩
  · rw [hnew.visited, hnew.pending, ← List.append_assoc]
    refine (hparted.append_left new).trans ?_
    rw [← List.append_assoc]
    exact List.perm_append_comm.append_right rest
  · rw [hnew.found, List.filter_append, ← hw.found]
    rfl
  · rw [hnew.visited]
    exact List.mem_append_right _ hw.begun
  · intro x hx
    rw [hnew.visited] at hx
    rcases List.mem_append.1 hx with hx | hx
    · have hbase : x.bare ∈ h.graph.bases r := mem_bases_iff_pushed.2 ⟨x, hnew.subset hx, rfl⟩
      exact ((hw.reached r hr).tail hbase (by simp)).trans (.of_same (by simp))
    · exact hw.reached x hx
  · intro x hx
    rcases List.mem_append.1 hx with hx | hx
    · exact hw.fits x hx
    · rwa [List.mem_singleton.1 hx]
  · intro x hx y hy
    rcases List.mem_append.1 hx with hx | hx
    · rw [hnew.visited, List.map_append]
      exact List.mem_append_right _ (hw.closed x hx y hy)
    · rw [List.mem_singleton.1 hx] at hy
      obtain ⟨p, hp, rfl⟩ := mem_bases_iff_pushed.1 hy
      exact hnew.covers p hp

theorem arityFault?_eq_some_iff {t : TypeSymbol} :
    arityFault? t x = some e ↔ ∃ target args isValueType, x = .named target args isValueType ∧ args ≠ [] ∧
      args.length ≠ t.arity ∧ e = .arityMismatch x t.arity args.length := by
  cases x with
  | named target args isValueType =>
    rw [arityFault?, Option.ite_none_left_eq_some, not_or, List.length_eq_zero_iff, Option.some_inj]
    constructor
    · rintro ⟨⟨hsome, harity⟩, rfl⟩
      exact ⟨target, args, isValueType, rfl, hsome, harity, rfl⟩
    · rintro ⟨_, _, _, hx, hsome, harity, rfl⟩
      cases hx
      exact ⟨⟨hsome, harity⟩, rfl⟩
  | param | array | pointer | byRef | nested => simp [arityFault?]

theorem ne_exhausted_of_arityFault? {t : TypeSymbol} (hfault : arityFault? t x = some e) (budget : Nat) :
    e ≠ .exhausted budget := by
  obtain ⟨_, _, _, _, _, _, rfl⟩ := arityFault?_eq_some_iff.1 hfault
  simp

/-! ## Whole walks -/

/-- So many looks lead from the first walk to the second. -/
inductive Looks (h : Hierarchy) (start : TypeRef) : Nat → Walk → Walk → Prop
  | refl (w : Walk) : Looks h start 0 w w
  | next {n : Nat} {r : TypeRef} {rest : List TypeRef} {w next w' : Walk} : w.pending = r :: rest →
      h.look start { w with pending := rest } r = .ok next → Looks h start n next w' → Looks h start (n + 1) w w'

/-- The answer of a run that has so many looks left and makes no other one. -/
inductive Ends (h : Hierarchy) (start : TypeRef) : Nat → Walk → Except HierarchyError Ancestors → Prop
  | done {n : Nat} {w : Walk} : w.pending = [] → Ends h start n w (.ok w.found)
  | exhausted {r : TypeRef} {rest : List TypeRef} {w : Walk} : w.pending = r :: rest →
      Ends h start 0 w (.error (.exhausted h.budget))
  | fault {n : Nat} {r : TypeRef} {rest : List TypeRef} {w : Walk} {e : HierarchyError} : w.pending = r :: rest →
      h.look start { w with pending := rest } r = .error e → Ends h start n w (.error e)

/-- A run of `n` looks at most: it is made of some of them, and ends where they lead to. -/
theorem run_ends (h : Hierarchy) (start : TypeRef) (n : Nat) (w : Walk) :
    ∃ m left w', m + left = n ∧ h.Looks start m w w' ∧ h.Ends start left w' (h.run start n w) := by
  induction n generalizing w with
  | zero =>
    refine ⟨0, 0, w, rfl, .refl w, ?_⟩
    cases hp : w.pending with
    | nil => simpa [run, hp] using Ends.done hp
    | cons r rest => simpa [run, hp] using Ends.exhausted hp
  | succ n ih =>
    cases hp : w.pending with
    | nil => exact ⟨0, n + 1, w, by omega, .refl w, by simpa [run, hp] using Ends.done hp⟩
    | cons r rest =>
      cases hl : h.look start { w with pending := rest } r with
      | error e => exact ⟨0, n + 1, w, by omega, .refl w, by simpa [run, hp, hl] using Ends.fault hp hl⟩
      | ok next =>
        obtain ⟨m, left, w', hn, hlooks, hends⟩ := ih next
        exact ⟨m + 1, left, w', by omega, .next hp hl hlooks, by simpa [run, hp, hl] using hends⟩

/-- Looks keep a walk sound, and each of them looks at one reference more. -/
theorem Looks.sound (hlooks : h.Looks start n w w') (hw : w.Sound h.graph start looked) :
    ∃ all : List TypeRef, w'.Sound h.graph start all ∧ all.length = looked.length + n := by
  induction hlooks generalizing looked with
  | refl w => exact ⟨looked, hw, rfl⟩
  | next hp hl _ ih =>
    obtain ⟨all, hall, hlength⟩ := ih (sound_of_look hw hp hl)
    refine ⟨all, hall, ?_⟩
    rw [hlength, List.length_append, List.length_singleton]
    omega

/-- The walk at which a whole walk ends is sound, and the budget is left that its looks have not used up. -/
theorem ancestors_ends (h : Hierarchy) (start : TypeRef) : ∃ (all : List TypeRef) (left : Nat) (w : Walk),
    all.length + left = h.budget ∧ w.Sound h.graph start all ∧ h.Ends start left w (h.ancestors start) := by
  obtain ⟨n, left, w, hleft, hlooks, hends⟩ := h.run_ends start h.budget (.start start)
  obtain ⟨all, hw, hlength⟩ := hlooks.sound (Walk.sound_start h.graph start)
  rw [List.length_nil, Nat.zero_add] at hlength
  exact ⟨all, left, w, by rw [hlength, hleft], hw, hends⟩

/-- A walk that comes to an end has looked once at each reference that can be reached, and all of them fit. -/
theorem ancestors_eq_ok (ha : h.ancestors start = .ok a) : ∃ all : List TypeRef,
    (all.map TypeRef.bare).Nodup ∧ all.length ≤ h.budget ∧ a.closed = all.filter (fun r => !r.same start) ∧
      (∀ x, h.graph.Reaches start x ↔ x.bare ∈ all.map TypeRef.bare) ∧
      ∀ x, h.graph.Reaches start x → h.graph.Fits x := by
  obtain ⟨all, left, w, hleft, hw, hends⟩ := h.ancestors_ends start
  rw [ha] at hends
  cases hends with | done hnone =>
  have hparted : w.visited.Perm all := by simpa [hnone] using hw.parted
  have hbare := hparted.map TypeRef.bare
  have hreach : ∀ x, h.graph.Reaches start x ↔ x.bare ∈ all.map TypeRef.bare := by
    intro x
    rw [← hbare.mem_iff]
    constructor
    · -- what has been looked at is closed under bases, so nothing that is reached lies outside
      refine SymbolGraph.mem_of_reaches (List.mem_map_of_mem hw.begun) ?_
      intro y hy z hz
      obtain ⟨v, hv, rfl⟩ := List.mem_map.1 hy
      exact hw.closed v (hparted.mem_iff.1 hv) z (by simpa using hz)
    · intro hx
      obtain ⟨v, hv, hvx⟩ := List.mem_map.1 hx
      exact (hw.reached v hv).trans (.of_same hvx)
  refine ⟨all, hbare.nodup_iff.1 hw.distinct, by omega, hw.found, hreach, ?_⟩
  intro x hx
  obtain ⟨v, hv, hvx⟩ := List.mem_map.1 ((hreach x).1 hx)
  rw [← SymbolGraph.fits_bare, ← hvx, SymbolGraph.fits_bare]
  exact hw.fits v hv

/-- A walk that stops early stops at a reference that can be reached. -/
theorem fault_of_ancestors_error (ha : h.ancestors start = .error e) (he : ∀ budget, e ≠ .exhausted budget) :
    ∃ x t, h.graph.Reaches start x ∧ h.graph.resolve? x = some t ∧ arityFault? t x = some e := by
  obtain ⟨all, left, w, -, hw, hends⟩ := h.ancestors_ends start
  rw [ha] at hends
  cases hends with
  | exhausted => exact absurd rfl (he h.budget)
  | @fault _ r rest _ _ hp hl =>
    obtain ⟨t, hresolve, hfault⟩ := look_eq_error_iff.1 hl
    exact ⟨r, t, hw.reached r (hw.parted.mem_iff.2 (by simp [hp])), hresolve, hfault⟩

/-- A walk that has still something to look at has looked at less than all that can be reached. -/
theorem ancestors_settled {all : List TypeRef} (hall : ∀ x, h.graph.Reaches start x → x.bare ∈ all)
    (hlength : all.length ≤ h.budget) : Settled (h.ancestors start) := by
  obtain ⟨looked, left, w, hleft, hw, hends⟩ := h.ancestors_ends start
  generalize h.ancestors start = answer at hends
  cases hends with
  | done => exact trivial
  | fault hp hl =>
    obtain ⟨t, -, hfault⟩ := look_eq_error_iff.1 hl
    obtain ⟨_, _, _, _, _, _, rfl⟩ := arityFault?_eq_some_iff.1 hfault
    exact trivial
  | exhausted hp =>
    -- with the pending reference the walk has come across more than there is
    have hsubset : w.visited.map TypeRef.bare ⊆ all := by
      intro y hy
      obtain ⟨x, hx, rfl⟩ := List.mem_map.1 hy
      exact hall x (hw.reached x hx)
    have hle := (hw.distinct.subperm hsubset).length_le
    have hvisited := hw.parted.length_eq
    simp only [List.length_map, hp, List.length_append, List.length_cons] at hle hvisited
    omega

/-- A walk comes to an end if everything it can reach fits and is not too much. -/
theorem exists_ancestors_eq_ok {all : List TypeRef} (hall : ∀ x, h.graph.Reaches start x → x.bare ∈ all)
    (hlength : all.length ≤ h.budget) (hfits : ∀ x, h.graph.Reaches start x → h.graph.Fits x) :
    ∃ a, h.ancestors start = .ok a := by
  have hsettled := ancestors_settled hall hlength
  cases ha : h.ancestors start with
  | ok a => exact ⟨a, rfl⟩
  | error e =>
    rw [ha] at hsettled
    obtain ⟨x, t, hx, hresolve, hfault⟩ := fault_of_ancestors_error ha fun budget => by
      rintro rfl
      exact hsettled
    rw [hfits x hx t hresolve] at hfault
    cases hfault

/-- An ancestor is a reference that is reached, other than the one that the walk starts from. -/
theorem contains_iff (ha : h.ancestors start = .ok a) :
    a.contains x = true ↔ h.graph.Reaches start x ∧ x.bare ≠ start.bare := by
  obtain ⟨all, -, -, hclosed, hreach, -⟩ := ancestors_eq_ok ha
  rw [hreach]
  simp only [Ancestors.contains, hclosed, List.any_filter, List.any_eq_true, Bool.and_eq_true, Bool.not_eq_true',
    TypeRef.same_iff, List.mem_map]
  constructor
  · rintro ⟨v, hv, hne, hvx⟩
    refine ⟨⟨v, hv, hvx⟩, ?_⟩
    rw [← hvx]
    simpa [TypeRef.same] using hne
  · rintro ⟨⟨v, hv, hvx⟩, hne⟩
    refine ⟨v, hv, ?_, hvx⟩
    rw [← hvx] at hne
    simpa [TypeRef.same] using hne

end Hierarchy

end Exonym
