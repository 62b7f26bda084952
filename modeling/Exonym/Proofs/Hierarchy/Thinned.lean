import Exonym.Proofs.Hierarchy.Analysis
import Exonym.Proofs.Hierarchy.Reduced
import Exonym.Proofs.TypeRef.Parameters

/-!
# Graphs with shorter interface lists

A graph is thinned where its types list fewer interfaces and the types that are added list none, which is what
interface analysis does. Nothing can be reached in a thinned graph that could not be reached before. A reference that
fitted before still fits, unless it names one of the types that were added.

Main statements:

* `SymbolGraph.thinned_of_analyzeInterfaces`: interface analysis thins a graph.
* `SymbolGraph.Thinned.reaches`: what is reached in a thinned graph was reached before.
* `SymbolGraph.Thinned.fits`: what fitted before.
-/

namespace Exonym

namespace SymbolGraph

/-- The second graph has the types of the first, where they may list fewer interfaces, and others that list none. -/
structure Thinned (g a : SymbolGraph) : Prop where
  kept : ∀ id t, g.find? id = some t →
    ∃ t', a.find? id = some t' ∧ t'.typeParameters = t.typeParameters ∧ t'.interfaces ⊆ t.interfaces
  added : ∀ id t, g.find? id = none → a.find? id = some t → t.interfaces = []

section Thinned

variable {g a b : SymbolGraph} {x z : TypeRef}

theorem Thinned.trans (hga : g.Thinned a) (hab : a.Thinned b) : g.Thinned b := by
  refine ⟨?_, ?_⟩
  · intro id t ht
    obtain ⟨u, hu, hparameters, hinterfaces⟩ := hga.kept id t ht
    obtain ⟨v, hv, hparameters', hinterfaces'⟩ := hab.kept id u hu
    exact ⟨v, hv, hparameters'.trans hparameters, List.Subset.trans hinterfaces' hinterfaces⟩
  · intro id v hnone hv
    cases hu : a.find? id with
    | none => exact hab.added id v hu hv
    | some u =>
      obtain ⟨v', hv', -, hinterfaces⟩ := hab.kept id u hu
      obtain rfl : v' = v := Option.some.inj (hv'.symm.trans hv)
      rw [hga.added id u hnone hu] at hinterfaces
      exact List.subset_nil.1 hinterfaces

/-- A reference points at the definition that it pointed at before, or at one that was added. -/
theorem Thinned.resolve? (h : g.Thinned a) {t' : TypeSymbol} (ht' : a.resolve? x = some t') :
    (∃ t, g.resolve? x = some t ∧ t'.id = t.id ∧ t'.arity = t.arity ∧ t'.interfaces ⊆ t.interfaces) ∨
      (g.resolve? x = none ∧ t'.interfaces = []) := by
  unfold SymbolGraph.resolve? at ht' ⊢
  obtain ⟨id, hid, hfind⟩ := Option.bind_eq_some_iff.1 ht'
  simp only [hid, Option.bind_some]
  cases ht : g.find? id with
  | none => exact .inr ⟨rfl, h.added id t' ht hfind⟩
  | some t =>
    obtain ⟨u, hu, hparameters, hinterfaces⟩ := h.kept id t ht
    obtain rfl : u = t' := Option.some.inj (hu.symm.trans hfind)
    refine .inl ⟨t, rfl, ?_, congrArg List.length hparameters, hinterfaces⟩
    rw [(find?_eq_some hu).1, (find?_eq_some ht).1]

/-- Closing depends on the identity of a definition only. -/
theorem closing_congr {t u : TypeSymbol} (h : t.id = u.id) (r : TypeRef) :
    Hierarchy.closing t r = Hierarchy.closing u r := by
  cases r <;> simp [Hierarchy.closing, TypeSymbol.owner, h]

theorem Thinned.bases_subset (h : g.Thinned a) (x : TypeRef) : a.bases x ⊆ g.bases x := by
  intro y hy
  cases hresolve : a.resolve? x with
  | none => simp [bases, hresolve] at hy
  | some t' =>
    rw [bases_of_resolve? hresolve] at hy
    obtain ⟨i, hi, rfl⟩ := List.mem_map.1 hy
    rcases h.resolve? hresolve with ⟨t, ht, hid, -, hinterfaces⟩ | ⟨-, hnone⟩
    · rw [closing_congr hid]
      exact mem_bases ht (hinterfaces hi)
    · simp [hnone] at hi

theorem Thinned.reaches (h : g.Thinned a) (hxz : a.Reaches x z) : g.Reaches x z := by
  have hsteps : a.LeadsTo ≤ g.LeadsTo := fun y _ hstep => h.bases_subset y hstep
  exact Relation.ReflTransGen.mono hsteps _ _ hxz

/-- A reference that fitted before fits still, unless it names a definition that was added. -/
theorem Thinned.fits (h : g.Thinned a) (hx : g.Fits x)
    (hnames : ∀ id ∈ x.names, g.find? id = none → a.find? id = none) : a.Fits x := by
  intro t' ht'
  rcases h.resolve? ht' with ⟨t, ht, -, harity, -⟩ | ⟨hnone, -⟩
  · have hfault := hx t ht
    cases x with
    | named target args isValueType => simpa [Hierarchy.arityFault?, harity] using hfault
    | param | array | pointer | byRef | nested => rfl
  · cases x with
    | named target args isValueType =>
      have hadded := hnames target.id (by simp [TypeRef.names]) hnone
      have hfind : a.find? target.id = some t' := ht'
      rw [hadded] at hfind
      cases hfind
    | param | array | pointer | byRef | nested => rfl

end Thinned

/-! ## Names -/

/-- What a reference leads to names nothing but what the reference names and what the lists of types name. -/
theorem names_of_reaches {g : SymbolGraph} {P : TypeId → Prop}
    (hlisted : ∀ t ∈ g.types, ∀ i ∈ t.interfaces, ∀ id ∈ i.names, P id) {x z : TypeRef} (hx : ∀ id ∈ x.names, P id)
    (h : g.Reaches x z) : ∀ id ∈ z.names, P id := by
  rw [← TypeRef.names_bare z]
  unfold Reaches at h
  generalize z.bare = y at h
  induction h with
  | refl => simpa [TypeRef.names_bare] using hx
  | @tail u v _ hstep ih =>
    cases hresolve : g.resolve? u with
    | none => simp [LeadsTo, bases, hresolve] at hstep
    | some t =>
      rw [LeadsTo, bases_of_resolve? hresolve] at hstep
      obtain ⟨i, hi, rfl⟩ := List.mem_map.1 hstep
      intro id hid
      rw [TypeRef.names_bare] at hid
      rcases Substitution.mem_names_applyWithin hid with hid | ⟨key, arg, hlookup, hnamed⟩
      · exact hlisted t (mem_types_of_resolve? hresolve) i hi id hid
      · refine ih id ?_
        cases u with
        | named target args isValueType =>
          rw [Hierarchy.closing, Substitution.lookup?_forArguments] at hlookup
          split at hlookup
          · have harg := List.mem_of_getElem? hlookup
            simp only [TypeRef.names, TypeRef.namesAll_eq, List.mem_cons, List.mem_flatMap]
            exact .inr ⟨arg, harg, hnamed⟩
          · cases hlookup
        | param | array | pointer | byRef | nested => cases hlookup

/-! ## Interface analysis -/

/-- Interface analysis reduces lists, and the bases that it adds list nothing. -/
theorem thinned_of_analyzeInterfaces {g a : SymbolGraph} {budget : Nat} {settings : InterfaceSettings}
    {notices : List InterfaceNotice} (h : g.analyzeInterfaces budget settings = .ok (a, notices)) (hg : g.Consistent)
    (hsettled : ∀ t ∈ g.types, settle t = t) : g.Thinned a := by
  refine ⟨?_, fun id t hnew ht => (interfaces_of_find?_eq_none h hg hsettled hnew ht).1⟩
  intro id t ht
  obtain ⟨plan, said, hplan, hfind⟩ := find?_of_analyzeInterfaces h hg hsettled ht
  refine ⟨_, hfind, ?_⟩
  rcases InterfaceAnalysis.planType_eq_ok hplan with ⟨-, rfl⟩ | ⟨-, -, -, rfl, -⟩ | ⟨r, -, hreduce, rfl⟩
  · exact ⟨rfl, List.Subset.refl _⟩
  · exact ⟨rfl, List.Subset.refl _⟩
  · exact ⟨rfl, (Hierarchy.reduce_sublist hreduce).subset⟩

end SymbolGraph

end Exonym
