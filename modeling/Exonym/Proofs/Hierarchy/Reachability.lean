import Exonym.Proofs.Hierarchy.Reach
import Exonym.Sample.Gallery
import Mathlib.Data.Set.Card

/-!
# A walk computes reachability

Reachability is said here without a walk: one step leads from a reference to an interface of its definition, closed by
the arguments of the reference if it has any. As long as only finitely many references can be reached, a walk comes to
an end, and from as many references on as can be reached its budget makes no difference. Then it has found what can be
reached in one step or more, circles and interfaces that are inherited twice included, or it names a reference among
them that does not fit its definition. Which of them it names depends on the order of the walk; that there is one does
not.

Main statements:

* `SymbolGraph.step_iff`, `SymbolGraph.misfit_iff`: the steps and the faults of a walk, said without one.
* `Hierarchy.ancestors_eq_of_le`: a walk that comes to an end does so with any larger budget.
* `Hierarchy.explored_of_finite`: what a walk computes.
-/

namespace Exonym

open Relation (ReflTransGen TransGen)

/-! ## Steps and faults -/

namespace SymbolGraph

/-- One step from a reference to an interface of its definition. References are told apart without tokens, so what is
led to has none. -/
inductive Step (g : SymbolGraph) : TypeRef → TypeRef → Prop
  /-- The arguments of the reference are put in for the parameters of the definition. -/
  | closed {target : TypeName} {args : List TypeRef} {isValueType : Bool} {t : TypeSymbol} {i : TypeRef} :
      args ≠ [] → g.resolve? (.named target args isValueType) = some t → i ∈ t.interfaces →
      Step g (.named target args isValueType) ((Substitution.forArguments t.owner args).apply i).bare
  /-- Without arguments the interface stays as it is listed. -/
  | listed {x : TypeRef} {t : TypeSymbol} {i : TypeRef} :
      (∀ target args isValueType, x = .named target args isValueType → args = []) → g.resolve? x = some t →
      i ∈ t.interfaces → Step g x i.bare

/-- The error says that the reference has arguments, but not as many as its definition has parameters. -/
inductive Misfit (g : SymbolGraph) : TypeRef → HierarchyError → Prop
  | intro {target : TypeName} {args : List TypeRef} {isValueType : Bool} {t : TypeSymbol} :
      g.resolve? (.named target args isValueType) = some t → args ≠ [] → args.length ≠ t.arity →
      Misfit g (.named target args isValueType) (.arityMismatch (.named target args isValueType) t.arity args.length)

variable {g : SymbolGraph} {x y : TypeRef} {e : HierarchyError}

theorem closing_of_no_args {t : TypeSymbol}
    (h : ∀ target args isValueType, x = .named target args isValueType → args = []) :
    Hierarchy.closing t x = .empty := by
  cases x with
  | named target args isValueType =>
    obtain rfl := h target args isValueType rfl
    rfl
  | param | array | pointer | byRef | nested => rfl

theorem step_iff : g.Step x y ↔ g.LeadsTo x y := by
  constructor
  · intro h
    cases h with
    | closed hargs hx hi => exact mem_bases hx hi
    | listed hargs hx hi =>
      have hbase := mem_bases hx hi
      rwa [closing_of_no_args hargs, Substitution.apply_empty] at hbase
  · intro h
    cases hx : g.resolve? x with
    | none => simp [LeadsTo, bases, hx] at h
    | some t =>
      rw [LeadsTo, bases_of_resolve? hx] at h
      obtain ⟨i, hi, rfl⟩ := List.mem_map.1 h
      -- without arguments nothing is put in for parameters
      by_cases hargs : ∀ target args isValueType, x = .named target args isValueType → args = []
      · rw [closing_of_no_args hargs, Substitution.apply_empty]
        exact .listed hargs hx hi
      · push Not at hargs
        obtain ⟨target, args, isValueType, rfl, hsome⟩ := hargs
        exact .closed hsome hx hi

theorem step_eq (g : SymbolGraph) : g.Step = g.LeadsTo := by
  funext x y
  exact propext step_iff

theorem misfit_iff : g.Misfit x e ↔ ∃ t, g.resolve? x = some t ∧ Hierarchy.arityFault? t x = some e := by
  constructor
  · rintro ⟨hx, hsome, harity⟩
    exact ⟨_, hx, Hierarchy.arityFault?_eq_some_iff.2 ⟨_, _, _, rfl, hsome, harity, rfl⟩⟩
  · rintro ⟨t, hx, hfault⟩
    obtain ⟨target, args, isValueType, rfl, hsome, harity, rfl⟩ := Hierarchy.arityFault?_eq_some_iff.1 hfault
    exact .intro hx hsome harity

theorem Fits.not_misfit (h : g.Fits x) : ¬g.Misfit x e := by
  intro hmisfit
  obtain ⟨t, hx, hfault⟩ := misfit_iff.1 hmisfit
  rw [h t hx] at hfault
  cases hfault

/-- What can be reached from a reference in any number of steps. -/
def reachable (g : SymbolGraph) (start : TypeRef) : Set TypeRef :=
  {x | ReflTransGen g.Step start.bare x}

/-- What a walk from the reference is to come to: a fault of something that can be reached, or, where there is none,
everything that can be reached in one step or more, once, and which of it the graph does not define. -/
def Explored (g : SymbolGraph) (start : TypeRef) : Except HierarchyError Ancestors → Prop
  | .error e => ∃ x : TypeRef, x.bare ∈ g.reachable start ∧ g.Misfit x e
  | .ok a => (∀ (x : TypeRef) (e : HierarchyError), x.bare ∈ g.reachable start → ¬g.Misfit x e) ∧
      (a.closed.map TypeRef.bare).Nodup ∧
      (∀ x : TypeRef, x.bare ∈ a.closed.map TypeRef.bare ↔ TransGen g.Step start.bare x.bare ∧ x.bare ≠ start.bare) ∧
      a.unresolved = a.closed.filter fun x => (g.resolve? x).isNone

theorem mem_reachable {start : TypeRef} : x.bare ∈ g.reachable start ↔ g.Reaches start x := by
  unfold Reaches
  rw [← step_eq]
  rfl

theorem mem_reachable_iff {start : TypeRef} :
    x.bare ∈ g.reachable start ↔ x.bare = start.bare ∨ TransGen g.Step start.bare x.bare :=
  Relation.reflTransGen_iff_eq_or_transGen

/-- Only finitely many references are reached where finitely many lead to nothing but each other. -/
theorem finite_reachable {start : TypeRef} {all : List TypeRef} (hstart : start.bare ∈ all)
    (hclosed : ∀ x ∈ all, ∀ y ∈ g.bases x, y ∈ all) : (g.reachable start).Finite := by
  refine (List.finite_toSet all).subset fun x (hx : ReflTransGen g.Step start.bare x) => ?_
  induction hx with
  | refl => exact hstart
  | tail _ hstep ih => exact hclosed _ ih _ (step_iff.1 hstep)

end SymbolGraph

/-! ## Walks -/

namespace Hierarchy

variable {h : Hierarchy} {start r : TypeRef} {rest : List TypeRef} {w w' : Walk} {a : Ancestors} {n : Nat}

/-- What has been found and is not defined is noted when it is found. -/
def Notes (g : SymbolGraph) (a : Ancestors) : Prop :=
  a.unresolved = a.closed.filter fun x => (g.resolve? x).isNone

theorem notes_noting {g : SymbolGraph} (ha : Notes g a) : Notes g (noting g start r a) := by
  unfold Notes noting at *
  rw [ha, List.filter_append, List.filter_filter]
  simp only [Bool.and_comm]

theorem Looks.notes (hlooks : h.Looks start n w w') (hw : Notes h.graph w.found) : Notes h.graph w'.found := by
  induction hlooks with
  | refl => exact hw
  | next hp hl _ ih =>
    obtain ⟨-, rfl⟩ := look_eq_ok_iff.1 hl
    refine ih ?_
    rw [Walk.found_foldl_push]
    exact notes_noting hw

theorem notes_of_ancestors (ha : h.ancestors start = .ok a) : Notes h.graph a := by
  obtain ⟨n, left, w, -, hlooks, hends⟩ := h.run_ends start h.budget (.start start)
  change h.Ends start left w (h.ancestors start) at hends
  rw [ha] at hends
  cases hends with | done =>
  exact hlooks.notes rfl

/-- The budget is only looked at when it is used up. -/
theorem run_budget {g : SymbolGraph} {b c : Nat} (hs : Settled ((⟨g, b⟩ : Hierarchy).run start n w)) :
    (⟨g, c⟩ : Hierarchy).run start n w = (⟨g, b⟩ : Hierarchy).run start n w := by
  induction n generalizing w with
  | zero =>
    cases hp : w.pending with
    | nil => simp [run, hp]
    | cons r rest => simp [run, hp, Settled] at hs
  | succ n ih =>
    cases hp : w.pending with
    | nil => simp [run, hp]
    | cons r rest =>
      have hsame : (⟨g, c⟩ : Hierarchy).look start { w with pending := rest } r =
        (⟨g, b⟩ : Hierarchy).look start { w with pending := rest } r := rfl
      simp only [run, hp, hsame] at hs ⊢
      cases hl : (⟨g, b⟩ : Hierarchy).look start { w with pending := rest } r with
      | error e => rfl
      | ok next =>
        simp only [hl] at hs ⊢
        exact ih hs

/-- A walk that comes to an end does so with any larger budget, and in the same way. -/
theorem ancestors_eq_of_le {g : SymbolGraph} {small large : Nat} (hle : small ≤ large)
    (hs : Settled ((⟨g, small⟩ : Hierarchy).ancestors start)) :
    (⟨g, large⟩ : Hierarchy).ancestors start = (⟨g, small⟩ : Hierarchy).ancestors start := by
  have hbudget : (⟨g, large⟩ : Hierarchy).run start small (.start start) = (⟨g, small⟩ : Hierarchy).ancestors start :=
    run_budget hs
  rw [← hbudget] at hs ⊢
  exact run_eq_of_le hle hs

/-- A walk that comes to an end has come to what it is to come to. -/
theorem explored_of_settled (hs : Settled (h.ancestors start)) : h.graph.Explored start (h.ancestors start) := by
  cases ha : h.ancestors start with
  | error e =>
    rw [ha] at hs
    obtain ⟨x, t, hx, hresolve, hfault⟩ := fault_of_ancestors_error ha fun budget he => by
      rw [he] at hs
      exact hs
    exact ⟨x, SymbolGraph.mem_reachable.2 hx, SymbolGraph.misfit_iff.2 ⟨t, hresolve, hfault⟩⟩
  | ok a =>
    obtain ⟨all, hdistinct, -, hclosed, hreach, hfits⟩ := ancestors_eq_ok ha
    refine ⟨fun x e hx => (hfits x (SymbolGraph.mem_reachable.1 hx)).not_misfit, ?_, fun x => ?_, notes_of_ancestors ha⟩
    · rw [hclosed]
      exact hdistinct.sublist (List.filter_sublist.map _)
    · constructor
      · intro hx
        obtain ⟨r, hr, hrx⟩ := List.mem_map.1 hx
        have hne : r.bare ≠ start.bare := by
          rw [hclosed] at hr
          simpa [TypeRef.same] using (List.mem_filter.1 hr).2
        have hreached : h.graph.Reaches start r :=
          (hreach r).2 (List.mem_map_of_mem (List.mem_of_mem_filter (hclosed ▸ hr)))
        rw [← hrx]
        exact ⟨(SymbolGraph.mem_reachable_iff.1 (SymbolGraph.mem_reachable.2 hreached)).resolve_left hne, hne⟩
      · rintro ⟨hsteps, hne⟩
        obtain ⟨r, hr, hrx⟩ := List.mem_map.1 ((hreach x).1 (SymbolGraph.mem_reachable.1 hsteps.to_reflTransGen))
        rw [← hrx] at hne ⊢
        rw [hclosed]
        exact List.mem_map_of_mem (List.mem_filter.2 ⟨hr, by simpa [TypeRef.same] using hne⟩)

/-- A walk comes to an end, and computes reachability, from as large a budget on as there are references to reach. -/
theorem explored_of_finite (g : SymbolGraph) (start : TypeRef) (hfinite : (g.reachable start).Finite) :
    ∃ answer, (∀ budget, (g.reachable start).ncard ≤ budget → (⟨g, budget⟩ : Hierarchy).ancestors start = answer) ∧
      g.Explored start answer := by
  have hlength : hfinite.toFinset.toList.length = (g.reachable start).ncard := by
    rw [Finset.length_toList, Set.ncard_eq_toFinset_card _ hfinite]
  have hsettled : Settled ((⟨g, (g.reachable start).ncard⟩ : Hierarchy).ancestors start) :=
    ancestors_settled (fun x hx => by simpa using SymbolGraph.mem_reachable.2 hx) hlength.le
  exact ⟨_, fun _ hle => ancestors_eq_of_le hle hsettled, explored_of_settled hsettled⟩

/-- Two generic interfaces that inherit from each other. The first one lists the second one twice, and one that is not
there. -/
def exchange : List TypeSymbol := [
  (Gallery.draft "App.IFirst`1" .interface |>.generic ["T"]
    |>.implements (Gallery.ofApp "ISecond" (Gallery.parameterOf "App.IFirst`1"))
    |>.implements (Gallery.app "App" "IMissing")
    |>.implements (Gallery.ofApp "ISecond" (Gallery.parameterOf "App.IFirst`1"))).type,
  (Gallery.draft "App.ISecond`1" .interface |>.generic ["U"]
    |>.implements (Gallery.ofApp "IFirst" (Gallery.parameterOf "App.ISecond`1"))).type]

theorem explored_exchange :
    (SymbolGraph.reachable ⟨exchange, []⟩ (Gallery.ofApp "IFirst" (Gallery.system "String"))).Finite ∧
      ∃ answer, (∀ budget,
        (SymbolGraph.reachable ⟨exchange, []⟩ (Gallery.ofApp "IFirst" (Gallery.system "String"))).ncard ≤ budget →
          (⟨⟨exchange, []⟩, budget⟩ : Hierarchy).ancestors (Gallery.ofApp "IFirst" (Gallery.system "String")) =
            answer) ∧
        SymbolGraph.Explored ⟨exchange, []⟩ (Gallery.ofApp "IFirst" (Gallery.system "String")) answer := by
  have hfinite :
      (SymbolGraph.reachable ⟨exchange, []⟩ (Gallery.ofApp "IFirst" (Gallery.system "String"))).Finite := by
    -- what is led to from any of these is one of them
    let all := [Gallery.ofApp "IFirst" (Gallery.system "String"), Gallery.ofApp "ISecond" (Gallery.system "String"),
      Gallery.app "App" "IMissing"]
    have hclosed : ∀ x ∈ all, ∀ y ∈ SymbolGraph.bases ⟨exchange, []⟩ x, y ∈ all := by decide +kernel
    exact SymbolGraph.finite_reachable (by decide +kernel) hclosed
  exact ⟨hfinite, explored_of_finite ⟨exchange, []⟩ (Gallery.ofApp "IFirst" (Gallery.system "String")) hfinite⟩

end Hierarchy

end Exonym
