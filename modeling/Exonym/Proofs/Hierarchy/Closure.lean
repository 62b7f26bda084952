import Exonym.Proofs.Hierarchy.Thinned
import Exonym.Sample.Gallery

/-!
# Interface analysis keeps what is inherited

All lists of a graph are reduced at once, each against the lists as they were. An interface that is dropped from a
list is inherited, in the definition, through one that is kept; it is still inherited when the parameters of the
definition are put in for, and when the other lists have been reduced as well. The first needs that definitions list
no parameters but their own, the second that nothing inherits itself: then what is reached can be gone through from
the far end.

Main statements:

* `SymbolGraph.reaches_apply`: what is inherited in a definition is inherited whatever is put in for its parameters.
* `SymbolGraph.reaches_of_analyzeInterfaces`: what was reached is reached in the graph with reduced lists.
* `SymbolGraph.closure_of_analyzeInterfaces`: a type inherits the same interfaces as before.
-/

namespace Exonym

/-- The references that a type lists and those that they inherit from. -/
def Hierarchy.closure (h : Hierarchy) (t : TypeSymbol) : Except HierarchyError (List TypeRef) := do
  let reached ← t.interfaces.mapM h.ancestors
  return t.interfaces ++ reached.flatMap (·.closed)

/-- Every parameter in the reference is one of the type's own. -/
def TypeSymbol.Owns (t : TypeSymbol) (r : TypeRef) : Prop :=
  ∀ k ∈ r.params, t.owner.same k.owner = true ∧ k.position.toNat < t.arity

namespace SymbolGraph

/-- Definitions list no parameters but their own. -/
def OwnParameters (g : SymbolGraph) : Prop :=
  ∀ t ∈ g.types, ∀ i ∈ t.interfaces, t.Owns i

instance (g : SymbolGraph) : Decidable g.OwnParameters :=
  inferInstanceAs (Decidable (∀ t ∈ g.types, ∀ i ∈ t.interfaces, ∀ k ∈ i.params,
    t.owner.same k.owner = true ∧ k.position.toNat < t.arity))

/-- No reference that a type lists or inherits inherits itself. -/
def Acyclic (g : SymbolGraph) : Prop :=
  ∀ t ∈ g.types, ∀ i ∈ t.interfaces, ∀ x, g.Reaches i x → ¬g.Inherits x x

/-- No reference that is listed mentions the identity of a base that may be synthesised. -/
def NoBaseNamed (g : SymbolGraph) : Prop :=
  ∀ t ∈ g.types, ∀ i ∈ t.interfaces, ∀ u ∈ g.types, Diamond.baseId u.id ∉ i.mentions

instance (g : SymbolGraph) : Decidable g.NoBaseNamed :=
  inferInstanceAs (Decidable (∀ t ∈ g.types, ∀ i ∈ t.interfaces, ∀ u ∈ g.types, Diamond.baseId u.id ∉ i.mentions))

end SymbolGraph

/-! ## Own parameters -/

namespace TypeSymbol

variable {t u : TypeSymbol} {r : TypeRef}

@[simp] theorem owns_bare : t.Owns r.bare ↔ t.Owns r := by
  simp [Owns, TypeRef.params_bare, ParamKey.bare, SymbolId.same]

/-- A reference whose parameters belong to two definitions has none. -/
theorem params_of_owns (ht : t.Owns r) (hu : u.Owns r) (hne : t.id ≠ u.id) : r.params = [] := by
  refine List.eq_nil_iff_forall_not_mem.2 fun k hk => hne ?_
  have htk := SymbolId.same_iff.1 (ht k hk).1
  have huk := SymbolId.same_iff.1 (hu k hk).1
  exact SymbolId.type.inj (htk.trans huk.symm)

end TypeSymbol

namespace SymbolGraph

variable {g : SymbolGraph} {D E : TypeSymbol} {x y k i : TypeRef} {s : Substitution}

/-! ## One step -/

/-- What an interface becomes has no parameters but those of the arguments, if there is one for each of its own. -/
theorem owns_apply_closing {target : TypeName} {args : List TypeRef} {isValueType : Bool} {t : TypeSymbol}
    (hput : ∀ k ∈ i.params, E.owner.same k.owner = true ∧ k.position.toNat < args.length)
    (ht : t.Owns (.named target args isValueType)) :
    t.Owns ((Hierarchy.closing E (.named target args isValueType)).apply i) := by
  intro k hk
  rcases Substitution.mem_params_applyWithin hk with ⟨hk, hnone⟩ | ⟨key, -, arg, hlookup, hk⟩
  · obtain ⟨howner, hposition⟩ := hput k hk
    simp [Hierarchy.closing, Substitution.lookup?_forArguments, howner, hposition] at hnone
  · refine ht k ?_
    rw [Hierarchy.closing, Substitution.lookup?_forArguments] at hlookup
    split at hlookup
    · simp only [TypeRef.params, TypeRef.paramsAll_eq, List.mem_flatMap]
      exact ⟨arg, List.mem_of_getElem? hlookup, hk⟩
    · cases hlookup

/-- A step from a reference with arguments can be made with the arguments closed; what it leads to has no parameters
but those of the arguments. A step from an open reference is the same whatever is put in for parameters. -/
theorem step_apply (hx : g.resolve? x = some E) (hfits : g.Fits x) (hown : E.Owns i) :
    ((∀ s : Substitution, (Hierarchy.closing E (s.apply x)).apply i = s.apply ((Hierarchy.closing E x).apply i)) ∧
      ∀ t : TypeSymbol, t.Owns x → t.Owns ((Hierarchy.closing E x).apply i)) ∨
    ((∀ s : Substitution, Hierarchy.closing E (s.apply x) = .empty) ∧ Hierarchy.closing E x = .empty) := by
  cases x with
  | named target args isValueType =>
    have hlength : args.length = 0 ∨ args.length = E.arity := by
      have hfault := hfits E hx
      simpa [Hierarchy.arityFault?, or_iff_not_imp_left] using hfault
    -- with its number of arguments the reference closes the list; with none, where some are due, it leaves it open
    by_cases harity : args.length = E.arity
    · have hput : ∀ k ∈ i.params, E.owner.same k.owner = true ∧ k.position.toNat < args.length := by
        intro k hk
        rw [harity]
        exact hown k hk
      refine .inl ⟨fun s => ?_, fun t ht => owns_apply_closing hput ht⟩
      have hargs : s.apply (.named target args isValueType) = .named target (args.map s.apply) isValueType := by
        simp [Substitution.apply, Substitution.applyWithin, Substitution.applyAll_eq]
      rw [hargs]
      exact Substitution.applyWithin_forArguments_map s [] hput
    · obtain rfl : args = [] := List.length_eq_zero_iff.1 (hlength.resolve_right harity)
      exact .inr ⟨fun s => rfl, rfl⟩
  | nested declaring name => exact .inr ⟨fun s => rfl, rfl⟩
  | param | array | pointer | byRef => cases hx

theorem resolve?_apply (s : Substitution) (hx : g.resolve? x = some E) : g.resolve? (s.apply x) = some E := by
  obtain ⟨id, hid, hfind⟩ := Option.bind_eq_some_iff.1 hx
  simp [resolve?, Substitution.apply, Substitution.id?_applyWithin hid, hfind]

/-! ## Paths -/

/-- How far a path from `k`, which `D` lists, can be followed after closing. Up to the first open reference every
reference on it is closed like `k`. After that the parameters are those of the definition of the last open reference,
and nothing is put in for them. -/
def Followed (g : SymbolGraph) (D : TypeSymbol) (s : Substitution) (k x : TypeRef) : Prop :=
  (D.Owns x ∧ g.Reaches (s.apply k) (s.apply x)) ∨
    ∃ e E, g.Reaches k e ∧ g.resolve? e = some E ∧ Hierarchy.closing E e = .empty ∧ E.Owns x ∧ g.Reaches (s.apply k) x

theorem Followed.step (hown : g.OwnParameters) (h : g.Followed D s k x) (hkx : g.Reaches k x) (hfits : g.Fits x)
    (hxy : y ∈ g.bases x) : g.Followed D s k y := by
  cases hx : g.resolve? x with
  | none => simp [bases, hx] at hxy
  | some E =>
    have hbase := hxy
    rw [bases_of_resolve? hx] at hbase
    obtain ⟨i, hi, rfl⟩ := List.mem_map.1 hbase
    have hE := hown E (mem_types_of_resolve? hx) i hi
    have hclosed := mem_bases (resolve?_apply s hx) hi
    rcases step_apply hx hfits hE with ⟨hcommute, howns⟩ | ⟨hopen, hempty⟩
    · -- what is put in for the parameters of the start goes through the closed step
      rcases h with ⟨hDx, hreach⟩ | ⟨e, F, hke, he, hclosing, hFx, hreach⟩
      · refine .inl ⟨by simpa using howns D hDx, ?_⟩
        rw [hcommute] at hclosed
        refine (hreach.tail hclosed (by simp)).trans (.of_same ?_)
        rw [TypeRef.bare_bare, Substitution.bare_apply_bare]
      · exact .inr ⟨e, F, hke, he, hclosing, by simpa using howns F hFx, hreach.tail hxy (by simp)⟩
    · have hsame : (Hierarchy.closing E x).apply i = i := by rw [hempty, Substitution.apply_empty]
      rw [hsame] at hxy ⊢
      refine .inr ⟨x, E, hkx, hx, hempty, by simpa using hE, ?_⟩
      rcases h with ⟨-, hreach⟩ | ⟨-, -, -, -, -, -, hreach⟩
      · rw [hopen, Substitution.apply_empty] at hclosed
        exact hreach.tail hclosed (by simp)
      · exact hreach.tail hxy (by simp)

theorem followed_of_reaches (hown : g.OwnParameters) (hk : D.Owns k) (hfits : ∀ x, g.Reaches k x → g.Fits x)
    (h : g.Reaches k x) (s : Substitution) : g.Followed D s k x.bare := by
  unfold Reaches at h
  generalize x.bare = z at h
  induction h with
  | refl => exact .inl ⟨by simpa using hk, .of_same (Substitution.bare_apply_bare s k).symm⟩
  | @tail u v hku huv ih =>
    have hu : u.bare = u := by
      rcases Relation.ReflTransGen.cases_tail hku with rfl | ⟨w, -, hwu⟩
      · simp
      · exact bare_of_mem_bases hwu
    have hku : g.Reaches k u := by
      unfold Reaches
      rwa [hu]
    exact ih.step hown hku (hfits u hku) huv

/-- What a listed interface inherits from another listed one is inherited whatever is put in for the parameters of
the definition. A path between the two that goes through an open reference ends with parameters of that reference's
definition, so that the second has none; and that definition is another one, as the first would inherit itself. -/
theorem reaches_apply (hg : g.Consistent) (hown : g.OwnParameters) (hacyclic : g.Acyclic) (hD : D ∈ g.types)
    (hk : k ∈ D.interfaces) (hi : i ∈ D.interfaces) (hfits : ∀ x, g.Reaches k x → g.Fits x) (h : g.Reaches k i)
    (s : Substitution) : g.Reaches (s.apply k) (s.apply i) := by
  have hsame : g.Reaches (s.apply i.bare) (s.apply i) := .of_same (Substitution.bare_apply_bare s i)
  rcases followed_of_reaches hown (hown D hD k hk) hfits h s with ⟨-, hreach⟩ | ⟨e, E, hke, he, hclosing, hEi, hreach⟩
  · exact hreach.trans hsame
  · have hDi := hown D hD i hi
    have hne : D.id ≠ E.id := by
      intro hid
      obtain rfl := hg.eq_of_id hD (mem_types_of_resolve? he) hid
      have hek := mem_bases he hk
      rw [hclosing, Substitution.apply_empty] at hek
      refine hacyclic D hD k hk e hke (.of_mem_bases hek ?_)
      exact (Reaches.of_same (by simp)).trans hke
    have hnone := TypeSymbol.params_of_owns (by simpa using hDi) hEi hne
    have hfixed : s.apply i.bare = i.bare := Substitution.applyWithin_of_params s [] hnone
    rw [hfixed] at hsame
    exact hreach.trans hsame

/-! ## The graph with reduced lists -/

section Analyzed

variable {a : SymbolGraph} {budget : Nat} {settings : InterfaceSettings} {notices : List InterfaceNotice}
  {z : TypeRef} {all : List TypeRef}

/-- What a definition lists is reached, whatever is put in for its parameters, from what is left of the list. -/
theorem exists_kept_of_planType (hg : g.Consistent) (hown : g.OwnParameters) (hacyclic : g.Acyclic)
    (hD : D ∈ g.types) {plan : Option InterfacePlan} {said : List InterfaceNotice}
    (hplan : InterfaceAnalysis.planType ⟨g, budget⟩ settings D = .ok (plan, said)) (hi : i ∈ D.interfaces)
    (s : Substitution) :
    ∃ k ∈ (InterfaceAnalysis.afterPlan D plan).interfaces, k ∈ D.interfaces ∧ g.Reaches (s.apply k) (s.apply i) := by
  rcases InterfaceAnalysis.planType_eq_ok hplan with ⟨-, rfl⟩ | ⟨-, -, -, rfl, -⟩ | ⟨r, -, hreduce, rfl⟩
  · exact ⟨i, hi, hi, .refl g _⟩
  · exact ⟨i, hi, hi, .refl g _⟩
  · obtain ⟨k, hk, hki⟩ := Hierarchy.reduce_covers hreduce i hi
    have hkD := (Hierarchy.reduce_sublist hreduce).subset hk
    have hfits := Hierarchy.fits_of_reduce hreduce hkD
    exact ⟨k, hk, hkD, reaches_apply hg hown hacyclic hD hkD hi hfits hki s⟩

/-- One step away from a reference that does not inherit itself, less can be reached: not the reference any more. -/
theorem exists_fewer_of_mem_bases (hall : ∀ z, g.Reaches x z → z.bare ∈ all) (hloop : ¬g.Inherits x x)
    (hy : y ∈ g.bases x) : ∃ fewer : List TypeRef, fewer.length < all.length ∧ ∀ z, g.Reaches y z → z.bare ∈ fewer := by
  refine ⟨all.filter (· ≠ x.bare), ?_, fun z hyz => List.mem_filter.2 ⟨?_, ?_⟩⟩
  · exact List.length_filter_lt_length_iff_exists.2 ⟨x.bare, hall x (.refl g x), by simp⟩
  · exact hall z (Inherits.of_mem_bases hy hyz).reaches
  · rw [decide_eq_true_iff]
    intro hzx
    exact hloop (.of_mem_bases hy (hyz.trans (.of_same hzx)))

/-- Where nothing inherits itself, what was reached before is reached with reduced lists. The induction is on the
number of references that can be reached: after one step the reference itself cannot be reached any more. -/
theorem reaches_of_analyzeInterfaces (h : g.analyzeInterfaces budget settings = .ok (a, notices)) (hg : g.Consistent)
    (hsettled : ∀ t ∈ g.types, settle t = t) (hown : g.OwnParameters) (hacyclic : g.Acyclic)
    (hall : ∀ y, g.Reaches x y → y.bare ∈ all) (hloop : ∀ y, g.Reaches x y → ¬g.Inherits y y)
    (hxz : g.Reaches x z) : a.Reaches x z := by
  induction hn : all.length using Nat.strongRecOn generalizing x z all with
  | ind n ih =>
    subst hn
    rcases hxz.cases_head with hsame | ⟨y, hy, hyz⟩
    · exact .of_same hsame
    cases hx : g.resolve? x with
    | none => simp [bases, hx] at hy
    | some D =>
      obtain ⟨id, hid, hfind⟩ := Option.bind_eq_some_iff.1 hx
      obtain ⟨plan, said, hplan, hfind'⟩ := find?_of_analyzeInterfaces h hg hsettled hfind
      have hx' : a.resolve? x = some (InterfaceAnalysis.afterPlan D plan) := by simp [resolve?, hid, hfind']
      -- the step may be to an interface that has been dropped, so it is made to one that this is reached from
      rw [bases_of_resolve? hx] at hy
      obtain ⟨i, hi, rfl⟩ := List.mem_map.1 hy
      obtain ⟨k, hk, hkD, hki⟩ := exists_kept_of_planType hg hown hacyclic (mem_types_of_resolve? hx) hplan hi
        (Hierarchy.closing D x)
      have hbase := mem_bases hx hkD
      have hkz : g.Reaches ((Hierarchy.closing D x).apply k).bare z :=
        (Reaches.of_same (by simp)).trans (hki.trans ((Reaches.of_same (by simp)).trans hyz))
      obtain ⟨fewer, hless, hfewer⟩ := exists_fewer_of_mem_bases hall (hloop x (.refl g x)) hbase
      have hlater := ih _ hless hfewer (fun v hkv => hloop v (Inherits.of_mem_bases hbase hkv).reaches) hkz rfl
      have hbase' := mem_bases hx' hk
      rw [closing_congr (InterfaceAnalysis.afterPlan_id D plan)] at hbase'
      exact (Inherits.of_mem_bases hbase' hlater).reaches

end Analyzed

end SymbolGraph

namespace SymbolGraph

variable {g : SymbolGraph}

/-! ## Definitions that list each other -/

/-- The first definition lists an interface that points at the second. -/
def Lists (g : SymbolGraph) (d e : TypeId) : Prop :=
  ∃ t ∈ g.types, t.id = d ∧ ∃ i ∈ t.interfaces, ∃ u, g.resolve? i = some u ∧ u.id = e

/-- Every definition lists only interfaces of lower rank. -/
def Ranked (g : SymbolGraph) (rank : TypeId → Nat) : Prop :=
  ∀ t ∈ g.types, ∀ i ∈ t.interfaces, (g.resolve? i).all (fun u => rank u.id < rank t.id) = true

instance (g : SymbolGraph) (rank : TypeId → Nat) : Decidable (g.Ranked rank) :=
  inferInstanceAs (Decidable (∀ t ∈ g.types, ∀ i ∈ t.interfaces,
    (g.resolve? i).all (fun u => rank u.id < rank t.id) = true))

theorem not_lists_of_ranked {rank : TypeId → Nat} (h : g.Ranked rank) (d : TypeId) :
    ¬Relation.TransGen g.Lists d d := by
  have hstep : ∀ d e, g.Lists d e → rank e < rank d := by
    rintro d e ⟨t, ht, rfl, i, hi, u, hu, rfl⟩
    have hrank := h t ht i hi
    rw [hu] at hrank
    simpa using hrank
  have hpath : ∀ d e, Relation.TransGen g.Lists d e → rank e < rank d := by
    intro d e hde
    induction hde with
    | single hde => exact hstep _ _ hde
    | tail _ hstep' ih => exact Nat.lt_trans (hstep _ _ hstep') ih
  exact fun hloop => Nat.lt_irrefl _ (hpath d d hloop)

/-- Closing does not change what a reference points at, so the definitions along a path list each other. -/
theorem lists_of_inherits (hpoints : ∀ t ∈ g.types, ∀ i ∈ t.interfaces, i.id?.isSome = true) {x z : TypeRef}
    {D E : TypeSymbol} (h : g.Inherits x z) (hx : g.resolve? x = some D) (hz : g.resolve? z = some E) :
    Relation.TransGen g.Lists D.id E.id := by
  have hstep : ∀ {u v : TypeRef} {D E : TypeSymbol}, g.LeadsTo u v → g.resolve? u = some D → g.resolve? v = some E →
      g.Lists D.id E.id := by
    intro u v D E huv hu hv
    rw [LeadsTo, bases_of_resolve? hu] at huv
    obtain ⟨i, hi, rfl⟩ := List.mem_map.1 huv
    have hD := mem_types_of_resolve? hu
    obtain ⟨id, hid⟩ := Option.isSome_iff_exists.1 (hpoints D hD i hi)
    refine ⟨D, hD, rfl, i, hi, E, ?_, rfl⟩
    rw [resolve?_bare] at hv
    simpa [resolve?, Substitution.apply, Substitution.id?_applyWithin hid, hid] using hv
  unfold Inherits at h
  rw [← resolve?_bare] at hx hz
  -- paths run over bare references, so the induction is on the path to the bare end
  generalize z.bare = w at h hz
  induction h generalizing E with
  | single hxw => exact .single (hstep hxw hx hz)
  | @tail u v _ huv ih =>
    cases hu : g.resolve? u with
    | none => simp [LeadsTo, bases, hu] at huv
    | some F => exact .tail (ih hu) (hstep huv hu hz)

/-- Nothing inherits itself where no definition is listed in a circle and no parameter is listed as an interface. -/
theorem acyclic_of_lists (hpoints : ∀ t ∈ g.types, ∀ i ∈ t.interfaces, i.id?.isSome = true)
    (hlists : ∀ d, ¬Relation.TransGen g.Lists d d) : g.Acyclic := by
  intro t ht i hi x _ hxx
  obtain ⟨y, hxy, -⟩ := Relation.TransGen.head'_iff.1 hxx
  cases hx : g.resolve? x with
  | none => simp [LeadsTo, bases, hx] at hxy
  | some D => exact hlists D.id (lists_of_inherits hpoints hxx hx hx)

end SymbolGraph

/-! ## Closures -/

namespace Hierarchy

variable {h : Hierarchy} {t : TypeSymbol} {all : List TypeRef}

theorem closure_eq_ok_iff : (∃ all, h.closure t = .ok all) ↔ ∀ i ∈ t.interfaces, ∃ a, h.ancestors i = .ok a := by
  constructor
  · rintro ⟨all, hall⟩ i hi
    obtain ⟨reached, hreached, -⟩ := bind_eq_ok hall
    exact ⟨_, (ancestors_of_mapM hreached).1 i hi⟩
  · intro hwalks
    unfold closure
    rw [mapM_ancestors hwalks]
    exact ⟨_, rfl⟩

/-- In the closure of a type is what is reached from an interface that it lists. -/
theorem any_closure (hall : h.closure t = .ok all) (r : TypeRef) :
    all.any (·.same r) = true ↔ ∃ i ∈ t.interfaces, h.graph.Reaches i r := by
  have hwalks := closure_eq_ok_iff.1 ⟨all, hall⟩
  unfold closure at hall
  rw [mapM_ancestors hwalks] at hall
  obtain rfl : t.interfaces ++ (t.interfaces.map h.found).flatMap (·.closed) = all := Except.ok.inj hall
  have hfound : ∀ i ∈ t.interfaces, (h.found i).contains r = true ↔ h.graph.Reaches i r ∧ r.bare ≠ i.bare := by
    intro i hi
    obtain ⟨a, ha⟩ := hwalks i hi
    refine contains_iff ?_
    simp [found, ha, Except.toOption]
  have hany : (t.interfaces ++ (t.interfaces.map h.found).flatMap (·.closed)).any (·.same r) = true ↔
      ∃ i ∈ t.interfaces, i.same r = true ∨ (h.found i).contains r = true := by
    simp only [List.any_append, List.any_flatMap, List.any_map, Bool.or_eq_true, List.any_eq_true, Function.comp_apply,
      Ancestors.contains]
    grind
  rw [hany]
  refine exists_congr fun i => and_congr_right fun hi => ?_
  rw [hfound i hi, TypeRef.same_iff]
  constructor
  · rintro (hsame | ⟨hreach, -⟩)
    · exact .of_same hsame
    · exact hreach
  · intro hreach
    by_cases hsame : i.bare = r.bare
    · exact .inl hsame
    · exact .inr ⟨hreach, Ne.symm hsame⟩

end Hierarchy

namespace SymbolGraph

variable {g a : SymbolGraph} {budget : Nat} {settings : InterfaceSettings} {notices : List InterfaceNotice}
  {t : TypeSymbol} {k : TypeRef} {all : List TypeRef}

/-- A walk that came to an end does so with reduced lists too: it reaches no more than before, and no base is named. -/
theorem exists_ancestors_of_analyzeInterfaces (h : g.analyzeInterfaces budget settings = .ok (a, notices))
    (hg : g.Consistent) (hsettled : ∀ t ∈ g.types, settle t = t) (hnames : g.NoBaseNamed) (ht : t ∈ g.types)
    (hk : k ∈ t.interfaces) {x : Ancestors} (hx : (⟨g, budget⟩ : Hierarchy).ancestors k = .ok x) :
    ∃ x', (⟨a, budget⟩ : Hierarchy).ancestors k = .ok x' := by
  have hthinned := thinned_of_analyzeInterfaces h hg hsettled
  obtain ⟨reached, -, hlength, -, hreached, hfits⟩ := Hierarchy.ancestors_eq_ok hx
  have hmem : ∀ y, a.Reaches k y → y.bare ∈ reached.map TypeRef.bare :=
    fun y hy => (hreached y).1 (hthinned.reaches hy)
  have hlisted : ∀ u ∈ g.types, ∀ i ∈ u.interfaces, ∀ id ∈ i.names, ∀ v ∈ g.types, id ≠ Diamond.baseId v.id := by
    rintro u hu i hi id hid v hv rfl
    exact hnames u hu i hi v hv (TypeRef.names_subset_mentions i hid)
  refine Hierarchy.exists_ancestors_eq_ok hmem (by simpa using hlength) ?_
  intro y hy
  have hky := hthinned.reaches hy
  -- what fitted before does so still, for no reference on the way names a base that was made
  refine hthinned.fits (hfits y hky) ?_
  intro id hid hnone
  cases hadded : a.find? id with
  | none => rfl
  | some u =>
    obtain ⟨-, v, hv, hbase⟩ := interfaces_of_find?_eq_none h hg hsettled hnone hadded
    exact absurd hbase (names_of_reaches hlisted (hlisted t ht k hk) hky id hid v hv)

/-- A type inherits the same interfaces in the graph with reduced lists as in the graph that was built. -/
theorem closure_of_analyzeInterfaces {types : List TypeSymbol} {aliases : List Alias}
    (hbuild : build types aliases = .ok g) (hown : g.OwnParameters) (hacyclic : g.Acyclic) (hnames : g.NoBaseNamed)
    (h : g.analyzeInterfaces budget settings = .ok (a, notices)) (ht : t ∈ g.types)
    (hall : (⟨g, budget⟩ : Hierarchy).closure t = .ok all) :
    ∃ t' all', a.find? t.id = some t' ∧ (⟨a, budget⟩ : Hierarchy).closure t' = .ok all' ∧
      ∀ r, all'.any (·.same r) = all.any (·.same r) := by
  have hg := consistent_of_build hbuild
  have hsettled := settle_of_mem_build hbuild
  have hthinned := thinned_of_analyzeInterfaces h hg hsettled
  have hwalks := Hierarchy.closure_eq_ok_iff.1 ⟨all, hall⟩
  obtain ⟨plan, said, hplan, hfind⟩ := find?_of_analyzeInterfaces h hg hsettled (hg.find?_eq ht)
  -- The reduced list is part of the list, and everything listed is reached from it.
  have hreduced : (InterfaceAnalysis.afterPlan t plan).interfaces ⊆ t.interfaces ∧
      ∀ i ∈ t.interfaces, ∃ k ∈ (InterfaceAnalysis.afterPlan t plan).interfaces, g.Reaches k i := by
    rcases InterfaceAnalysis.planType_eq_ok hplan with ⟨-, rfl⟩ | ⟨-, -, -, rfl, -⟩ | ⟨r, -, hreduce, rfl⟩
    · exact ⟨List.Subset.refl _, fun i hi => ⟨i, hi, .refl g i⟩⟩
    · exact ⟨List.Subset.refl _, fun i hi => ⟨i, hi, .refl g i⟩⟩
    · exact ⟨(Hierarchy.reduce_sublist hreduce).subset, Hierarchy.reduce_covers hreduce⟩
  obtain ⟨hsubset, hcovers⟩ := hreduced
  have hwalks' : ∀ k ∈ (InterfaceAnalysis.afterPlan t plan).interfaces,
      ∃ x', (⟨a, budget⟩ : Hierarchy).ancestors k = .ok x' := by
    intro k hk
    obtain ⟨x, hx⟩ := hwalks k (hsubset hk)
    exact exists_ancestors_of_analyzeInterfaces h hg hsettled hnames ht (hsubset hk) hx
  obtain ⟨all', hall'⟩ := Hierarchy.closure_eq_ok_iff.2 hwalks'
  refine ⟨_, all', hfind, hall', ?_⟩
  intro r
  rw [Bool.eq_iff_iff, Hierarchy.any_closure hall', Hierarchy.any_closure hall]
  constructor
  · rintro ⟨k, hk, hkr⟩
    exact ⟨k, hsubset hk, hthinned.reaches hkr⟩
  · rintro ⟨i, hi, hir⟩
    obtain ⟨k, hk, hki⟩ := hcovers i hi
    obtain ⟨x, hx⟩ := hwalks k (hsubset hk)
    obtain ⟨reached, -, -, -, hreached, -⟩ := Hierarchy.ancestors_eq_ok hx
    have hkr := hki.trans hir
    exact ⟨k, hk, reaches_of_analyzeInterfaces h hg hsettled hown hacyclic (fun y hy => (hreached y).1 hy)
      (hacyclic t ht k (hsubset hk)) hkr⟩

/-- Collections that are sequences, lists that are collections and are said to be sequences as well, and a class that
lists a sequence next to a list. -/
def collections : List TypeSymbol := [
  (Gallery.draft "App.ISequence`1" .interface |>.generic ["T"]).type,
  (Gallery.draft "App.ICollection`1" .interface |>.generic ["T"]
    |>.implements (Gallery.ofApp "ISequence" (Gallery.parameterOf "App.ICollection`1"))).type,
  (Gallery.draft "App.IList`1" .interface |>.generic ["T"]
    |>.implements (Gallery.ofApp "ICollection" (Gallery.parameterOf "App.IList`1"))
    |>.implements (Gallery.ofApp "ISequence" (Gallery.parameterOf "App.IList`1"))).type,
  (Gallery.draft "App.Names" .classType
    |>.implements (Gallery.ofApp "ISequence" (Gallery.system "String"))
    |>.implements (Gallery.system "IFormattable")
    |>.implements (Gallery.ofApp "IList" (Gallery.system "String"))).type]

theorem closure_of_analyzeInterfaces_of_collections :
    ∃ g a notices t all t' all', build collections [] = .ok g ∧ g.OwnParameters ∧ g.Acyclic ∧ g.NoBaseNamed ∧
      g.analyzeInterfaces 10 ⟨true⟩ = .ok (a, notices) ∧ t ∈ g.types ∧
      (⟨g, 10⟩ : Hierarchy).closure t = .ok all ∧ a.find? t.id = some t' ∧
      (⟨a, 10⟩ : Hierarchy).closure t' = .ok all' ∧ (∀ r, all'.any (·.same r) = all.any (·.same r)) ∧
      t.interfaces.length = 3 ∧ t'.interfaces.length = 2 := by
  have hrun : (build collections []).toOption.any (fun g =>
      g.OwnParameters && g.NoBaseNamed && g.Ranked (fun id => (collections.map (·.id)).idxOf id) &&
      (g.types.all fun t => t.interfaces.all fun i => i.id?.isSome) &&
      (g.find? ⟨"app", "App.Names"⟩).any fun t => t.interfaces.length = 3 &&
        ((⟨g, 10⟩ : Hierarchy).closure t).toOption.any fun _ =>
          (g.analyzeInterfaces 10 ⟨true⟩).toOption.any fun analyzed =>
            (analyzed.1.find? t.id).any fun t' => t'.interfaces.length = 2) = true := by
    simp only [extend, build, sortTypes, settle_eq, sortAliases, analyzeInterfaces, mergeSort_eq_sortTo]
    decide +kernel
  obtain ⟨g, hbuild, hrun⟩ := exists_of_any hrun
  simp only [Bool.and_eq_true, decide_eq_true_eq, List.all_eq_true] at hrun
  obtain ⟨⟨⟨⟨hown, hnames⟩, hranked⟩, hpoints⟩, hrun⟩ := hrun
  obtain ⟨t, hfind, hrun⟩ := (Option.any_eq_true _ _).1 hrun
  obtain ⟨hlisted, hrun⟩ := (Bool.and_eq_true_iff).1 hrun
  obtain ⟨all, hall, hrun⟩ := exists_of_any hrun
  obtain ⟨⟨a, notices⟩, h, hrun⟩ := exists_of_any hrun
  obtain ⟨t', hfind', hkept⟩ := (Option.any_eq_true _ _).1 hrun
  have hacyclic := acyclic_of_lists hpoints (not_lists_of_ranked hranked)
  have ht := (find?_eq_some hfind).2
  obtain ⟨u, all', hu, hall', hsame⟩ := closure_of_analyzeInterfaces hbuild hown hacyclic hnames h ht hall
  obtain rfl : u = t' := Option.some.inj (hu.symm.trans hfind')
  exact ⟨g, a, notices, t, all, u, all', hbuild, hown, hacyclic, hnames, h, ht, hall, hu, hall', hsame,
    of_decide_eq_true hlisted, of_decide_eq_true hkept⟩

/-- An interface that lists its own parameter, and one that is put in for it. -/
def throughParameter : List TypeSymbol := [
  (Gallery.draft "App.IBase" .interface).type,
  (Gallery.draft "App.IWrap`1" .interface |>.generic ["T"] |>.implements (Gallery.parameterOf "App.IWrap`1")).type,
  (Gallery.draft "App.INode" .interface
    |>.implements (Gallery.ofApp "IWrap" (Gallery.app "App" "INode"))
    |>.implements (Gallery.app "App" "IBase")).type]

/-- That definitions do not list each other in a circle is not enough: a reference may inherit itself through a
parameter that is listed as an interface, and then what it passes on is dropped on account of itself. -/
theorem closure_lost_of_throughParameter :
    ∃ g a notices t all t' all', build throughParameter [] = .ok g ∧ g.OwnParameters ∧
      (∀ d, ¬Relation.TransGen g.Lists d d) ∧ g.NoBaseNamed ∧ g.analyzeInterfaces 10 ⟨true⟩ = .ok (a, notices) ∧
      t ∈ g.types ∧ (⟨g, 10⟩ : Hierarchy).closure t = .ok all ∧ a.find? t.id = some t' ∧
      (⟨a, 10⟩ : Hierarchy).closure t' = .ok all' ∧
      all.any (·.same (Gallery.app "App" "IBase")) = true ∧ all'.any (·.same (Gallery.app "App" "IBase")) = false := by
  have hrun : (build throughParameter []).toOption.any (fun g =>
      g.OwnParameters && g.NoBaseNamed && g.Ranked (fun id => (throughParameter.map (·.id)).idxOf id) &&
      (g.find? ⟨"app", "App.INode"⟩).any fun t =>
        ((⟨g, 10⟩ : Hierarchy).closure t).toOption.any fun all =>
          (g.analyzeInterfaces 10 ⟨true⟩).toOption.any fun analyzed =>
            (analyzed.1.find? t.id).any fun t' =>
              ((⟨analyzed.1, 10⟩ : Hierarchy).closure t').toOption.any fun all' =>
                all.any (·.same (Gallery.app "App" "IBase")) &&
                  !all'.any (·.same (Gallery.app "App" "IBase"))) = true := by
    simp only [extend, build, sortTypes, settle_eq, sortAliases, analyzeInterfaces, mergeSort_eq_sortTo]
    decide +kernel
  obtain ⟨g, hbuild, hrun⟩ := exists_of_any hrun
  simp only [Bool.and_eq_true, decide_eq_true_eq] at hrun
  obtain ⟨⟨⟨hown, hnames⟩, hranked⟩, hrun⟩ := hrun
  obtain ⟨t, hfind, hrun⟩ := (Option.any_eq_true _ _).1 hrun
  obtain ⟨all, hall, hrun⟩ := exists_of_any hrun
  obtain ⟨⟨a, notices⟩, h, hrun⟩ := exists_of_any hrun
  obtain ⟨t', hfind', hrun⟩ := (Option.any_eq_true _ _).1 hrun
  obtain ⟨all', hall', hrun⟩ := exists_of_any hrun
  obtain ⟨hbefore, hafter⟩ := Bool.and_eq_true_iff.1 hrun
  exact ⟨g, a, notices, t, all, t', all', hbuild, hown, not_lists_of_ranked hranked, hnames, h,
    (find?_eq_some hfind).2, hall, hfind', hall', hbefore, by simpa using hafter⟩

end SymbolGraph

end Exonym
