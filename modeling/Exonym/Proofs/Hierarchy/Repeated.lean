import Exonym.Proofs.Hierarchy.Thinned

/-!
# Analysing interfaces again

A graph that comes out of interface analysis lists what is left after reduction, and the bases that were to be made
are there. When its interfaces are analysed again, lists that were reduced are kept, since no more can be reached than
before, and no further base is made, since the identity of each is taken. Only a type that was skipped, because
something that its list led to did not fit, may fare differently: what did not fit may be out of reach now.

Main statements:

* `SymbolGraph.leaves_of_analyzeInterfaces`: types that were not skipped are left as they are.
* `SymbolGraph.analyzeInterfaces_of_leaves`: a graph all of whose types are left as they are is kept.
* `SymbolGraph.leaves_of_headings`: a graph is kept only in this way.
-/

namespace Exonym

namespace TypeSymbol

/-- What a definition says before its members. -/
def heading (t : TypeSymbol) : TypeId × TypeKind × List TypeParameter × List TypeRef :=
  (t.id, t.kind, t.typeParameters, t.interfaces)

theorem heading_inj {t u : TypeSymbol} (h : t.heading = u.heading) :
    t.id = u.id ∧ t.kind = u.kind ∧ t.typeParameters = u.typeParameters ∧ t.interfaces = u.interfaces := by
  simpa [heading] using h

/-- The type without the note of its base. -/
def withoutBase (t : TypeSymbol) : TypeSymbol :=
  { t with diamondBase := none }

end TypeSymbol

namespace InterfaceAnalysis

/-- Interface analysis passes the type over: something that its list leads to does not fit. -/
def Skipped (h : Hierarchy) (t : TypeSymbol) : Prop :=
  ∃ cause, h.reduce t = .error cause

/-- Interface analysis leaves the type as it is: its list is kept and no base is made for it. -/
def Leaves (h : Hierarchy) (settings : InterfaceSettings) (t : TypeSymbol) : Prop :=
  ∃ plan said, planType h settings t = .ok (plan, said) ∧ (afterPlan t plan).interfaces = t.interfaces ∧
    plan.bind (·.diamond) = none

instance (h : Hierarchy) (settings : InterfaceSettings) (t : TypeSymbol) : Decidable (Leaves h settings t) :=
  decidable_of_iff ((planType h settings t).toOption.any (fun p =>
      (afterPlan t p.1).interfaces = t.interfaces && (p.1.bind (·.diamond)).isNone) = true) <| by
    cases hplan : planType h settings t with
    | error e => simp [Leaves, hplan, Except.toOption]
    | ok p => simp [Leaves, hplan, Except.toOption, Prod.ext_iff]

theorem withoutBase_afterPlan {t : TypeSymbol} {plan : Option InterfacePlan}
    (h : (afterPlan t plan).interfaces = t.interfaces) : (afterPlan t plan).withoutBase = t.withoutBase := by
  cases plan with
  | none => rfl
  | some p =>
    have hkept : p.kept = t.interfaces := h
    simp [afterPlan, InterfacePlan.applyTo, TypeSymbol.withoutBase, hkept]

/-- No base is made under an identity that is taken. -/
theorem diamondOf_eq_none {g : SymbolGraph} {settings : InterfaceSettings} {t : TypeSymbol} {r : Reduction}
    (h : (r.isDiamond && !t.isInterface && settings.synthesizeDiamonds) = true →
      g.contains (Diamond.baseId t.id) = true) : (diamondOf g settings t r).1 = none := by
  unfold diamondOf
  split
  · rename_i hdiamond
    simp only [if_pos (h hdiamond)]
  · rfl

end InterfaceAnalysis

namespace SymbolGraph

open InterfaceAnalysis

/-- The headings of the definitions, in order. -/
def headings (g : SymbolGraph) : List (TypeId × TypeKind × List TypeParameter × List TypeRef) :=
  g.types.map TypeSymbol.heading

/-- The graph without the notes of bases. -/
def withoutBases (g : SymbolGraph) : SymbolGraph :=
  g.mapTypes TypeSymbol.withoutBase

@[simp] theorem headings_withoutBases (g : SymbolGraph) : g.withoutBases.headings = g.headings := by
  simp [headings, withoutBases, TypeSymbol.heading, TypeSymbol.withoutBase, Function.comp_def]

/-- Nothing but headings matters to what can be reached. -/
theorem thinned_of_headings {a b : SymbolGraph} (h : a.headings = b.headings) : a.Thinned b := by
  have hfind : ∀ id, (a.find? id = none ∧ b.find? id = none) ∨
      ∃ t u, a.find? id = some t ∧ b.find? id = some u ∧ t.heading = u.heading := fun id =>
    find?_of_forall₂ (map_eq_map_iff.1 h) fun t u htu => by rw [(TypeSymbol.heading_inj htu).1]
  refine ⟨?_, ?_⟩
  · intro id t ht
    rcases hfind id with ⟨hnone, -⟩ | ⟨t', u, ht', hu, hheading⟩
    · rw [hnone] at ht
      cases ht
    · obtain rfl : t' = t := Option.some.inj (ht'.symm.trans ht)
      obtain ⟨-, -, hparameters, hinterfaces⟩ := TypeSymbol.heading_inj hheading
      exact ⟨u, hu, hparameters.symm, hinterfaces ▸ List.Subset.refl _⟩
  · intro id u hnone hu
    rcases hfind id with ⟨-, hnone'⟩ | ⟨t, -, ht, -⟩
    · rw [hnone'] at hu
      cases hu
    · rw [ht] at hnone
      cases hnone

/-! ## Lists that were reduced -/

section Thinned

variable {g b : SymbolGraph} {budget : Nat} {t : TypeSymbol} {r : Reduction}

/-- What is left of a list can be walked within the same budget when no more can be reached. -/
theorem Thinned.settled_of_reduce (hthinned : g.Thinned b) (hreduce : (⟨g, budget⟩ : Hierarchy).reduce t = .ok r)
    {i : TypeRef} (hi : i ∈ r.kept) : Hierarchy.Settled ((⟨b, budget⟩ : Hierarchy).ancestors i) := by
  have hlisted := (Hierarchy.reduce_sublist hreduce).subset hi
  obtain ⟨c, x, hci, hx⟩ := Hierarchy.exists_ancestors_of_reduce hreduce hlisted
  obtain ⟨all, -, hlength, -, hreached, -⟩ := Hierarchy.ancestors_eq_ok hx
  have hfound : ∀ y, b.Reaches i y → y.bare ∈ all.map TypeRef.bare :=
    fun y hy => (hreached y).1 ((Reaches.of_same hci).trans (hthinned.reaches hy))
  exact Hierarchy.ancestors_settled hfound (by simpa using hlength)

theorem Thinned.irredundant_of_reduce (hthinned : g.Thinned b) (hreduce : (⟨g, budget⟩ : Hierarchy).reduce t = .ok r) :
    r.kept.Pairwise fun x y => ¬b.Reaches x y ∧ ¬b.Reaches y x :=
  (Hierarchy.reduce_irredundant hreduce).imp fun hxy =>
    ⟨fun hreach => hxy.1 (hthinned.reaches hreach), fun hreach => hxy.2 (hthinned.reaches hreach)⟩

end Thinned

/-! ## Types that are left as they are -/

section Analyzed

variable {g a b : SymbolGraph} {budget : Nat} {settings : InterfaceSettings} {notices : List InterfaceNotice}

/-- A base that was to be made is there afterwards, whether it was made or its identity was taken. -/
theorem contains_of_isDiamond (h : g.analyzeInterfaces budget settings = .ok (a, notices))
    (hsettled : ∀ t ∈ g.types, settle t = t) (hsame : a.headings = b.headings) {u : TypeSymbol} (hu : u ∈ g.types)
    {r : Reduction} {said : List InterfaceNotice}
    (hplan : planType ⟨g, budget⟩ settings u = .ok (some ⟨r.kept, (diamondOf g settings u r).1⟩, said))
    (hdiamond : (r.isDiamond && !u.isInterface && settings.synthesizeDiamonds) = true) :
    b.contains (Diamond.baseId u.id) = true := by
  have hthere : ∃ t ∈ a.types, t.id = Diamond.baseId u.id := by
    unfold diamondOf at hplan
    rw [if_pos hdiamond] at hplan
    -- a type that has the identity stays in the graph, and otherwise the base is made
    by_cases htaken : g.contains (Diamond.baseId u.id) = true
    · obtain ⟨t, ht, hid⟩ := List.any_eq_true.1 htaken
      obtain ⟨planned, hplanned, -, -⟩ := analyzeInterfaces_eq_ok_iff.1 h
      obtain ⟨p, -, hp⟩ := exists_of_mem_left (mapM_eq_ok_iff.1 hplanned) ht
      refine ⟨_, (mem_types_of_analyzeInterfaces h hsettled).2 ⟨t, ht, p, hp, .inl rfl⟩, ?_⟩
      rw [afterPlan_id]
      simpa using hid
    · rw [if_neg htaken] at hplan
      refine ⟨_, (mem_types_of_analyzeInterfaces h hsettled).2 ⟨u, hu, _, hplan, .inr ⟨_, rfl, rfl⟩⟩, rfl⟩
  obtain ⟨t, ht, hid⟩ := hthere
  obtain ⟨t', ht', hheading⟩ := exists_of_mem_left (map_eq_map_iff.1 hsame) ht
  exact List.any_eq_true.2 ⟨t', ht', by simp [← (TypeSymbol.heading_inj hheading).1, hid]⟩

/-- The list of a type is reduced again to what it is. -/
theorem leaves_of_reduce (h : g.analyzeInterfaces budget settings = .ok (a, notices)) (hg : g.Consistent)
    (hsettled : ∀ t ∈ g.types, settle t = t) (hsame : a.headings = b.headings) {u t : TypeSymbol} (hu : u ∈ g.types)
    {r : Reduction} {said : List InterfaceNotice} (hreduce : (⟨g, budget⟩ : Hierarchy).reduce u = .ok r)
    (hplan : planType ⟨g, budget⟩ settings u = .ok (some ⟨r.kept, (diamondOf g settings u r).1⟩, said))
    (hid : t.id = u.id) (hkind : t.kind = u.kind) (hkept : t.interfaces = r.kept) :
    Leaves ⟨b, budget⟩ settings t := by
  have hthinned := (thinned_of_analyzeInterfaces h hg hsettled).trans (thinned_of_headings hsame)
  have hwalks : ∀ i ∈ t.interfaces, Hierarchy.Settled ((⟨b, budget⟩ : Hierarchy).ancestors i) := by
    rw [hkept]
    exact fun i hi => hthinned.settled_of_reduce hreduce hi
  -- of two that were kept neither is reached from the other, and in the new graph even less is reached
  have hirredundant : t.interfaces.Pairwise fun x y => ¬b.Reaches x y ∧ ¬b.Reaches y x := by
    rw [hkept]
    exact hthinned.irredundant_of_reduce hreduce
  unfold Leaves planType
  split
  · exact ⟨none, [], rfl, rfl, rfl⟩
  · split
    · rename_i spent hspent
      exact absurd hspent (Hierarchy.reduce_settled hwalks spent)
    · exact ⟨none, _, rfl, rfl, rfl⟩
    · rename_i r' hreduce'
      have hagain : r'.kept = t.interfaces := Hierarchy.kept_of_reduce hreduce' hirredundant
      have hnone : (diamondOf b settings t r').1 = none := by
        refine diamondOf_eq_none fun hdiamond => ?_
        rw [hid]
        refine contains_of_isDiamond h hsettled hsame hu hplan ?_
        simpa only [Reduction.isDiamond, TypeSymbol.isInterface, hagain, hkept, hkind] using hdiamond
      exact ⟨_, _, rfl, hagain, hnone⟩

/-- A type that was not skipped is left as it is when interfaces are analysed again. -/
theorem leaves_of_analyzeInterfaces (h : g.analyzeInterfaces budget settings = .ok (a, notices)) (hg : g.Consistent)
    (hsettled : ∀ t ∈ g.types, settle t = t) (hsame : a.headings = b.headings) {t : TypeSymbol} (ht : t ∈ b.types)
    (hskipped : ∀ u ∈ g.types, u.id = t.id → ¬Skipped ⟨g, budget⟩ u) :
    Leaves ⟨b, budget⟩ settings t := by
  obtain ⟨t', ht', hheading⟩ := exists_of_mem_right (map_eq_map_iff.1 hsame) ht
  obtain ⟨hid, hkind, -, hinterfaces⟩ := TypeSymbol.heading_inj hheading.symm
  have hnothing : t.interfaces = [] → Leaves ⟨b, budget⟩ settings t := by
    intro hnone
    exact ⟨none, [], by simp [planType, hnone], rfl, rfl⟩
  obtain ⟨u, hu, ⟨plan, said⟩, hplan, rfl | ⟨d, hd, rfl⟩⟩ := (mem_types_of_analyzeInterfaces h hsettled).1 ht'
  · rcases planType_eq_ok hplan with ⟨hnone, rfl⟩ | ⟨cause, hreduce, -⟩ | ⟨r, -, hreduce, rfl⟩
    · exact hnothing (hinterfaces.trans hnone)
    · exact absurd ⟨cause, hreduce⟩ (hskipped u hu (hid.trans (afterPlan_id u _)).symm)
    · exact leaves_of_reduce h hg hsettled hsame hu hreduce hplan (hid.trans (afterPlan_id u _)) hkind hinterfaces
  · obtain ⟨kept, rfl⟩ := diamond_of_planType hplan hd
    exact hnothing hinterfaces

/-! ## Graphs that are kept -/

/-- A graph all of whose types are left as they are comes out as it went in. -/
theorem analyzeInterfaces_of_leaves (h : ∀ t ∈ b.types, Leaves ⟨b, budget⟩ settings t) :
    ∃ c notices, b.analyzeInterfaces budget settings = .ok (c, notices) ∧ c.withoutBases = b.withoutBases := by
  obtain ⟨planned, hplanned⟩ := exists_mapM_eq_ok fun t ht => by
    obtain ⟨plan, said, hplan, -⟩ := h t ht
    exact ⟨_, hplan⟩
  have hdiamonds : diamondsOf (planned.map (·.1)) = [] := by
    refine List.eq_nil_iff_forall_not_mem.2 fun d hd => ?_
    obtain ⟨t, ht, p, hp, hd⟩ := (mem_diamondsOf hplanned).1 hd
    obtain ⟨plan, said, hplan, -, hnone⟩ := h t ht
    obtain rfl : p = (plan, said) := Except.ok.inj (hp.symm.trans hplan)
    rw [hnone] at hd
    cases hd
  have hextend : extendBy (reduceBy b (planned.map (·.1))) (diamondsOf (planned.map (·.1))) =
      .ok (reduceBy b (planned.map (·.1))) := extendBy_eq_ok_iff.2 (.inl ⟨hdiamonds, rfl⟩)
  refine ⟨_, _, analyzeInterfaces_eq_ok_iff.2 ⟨planned, hplanned, hextend, rfl⟩, ?_⟩
  have htypes : b.types.map TypeSymbol.withoutBase =
      (reduceBy b (planned.map (·.1))).types.map TypeSymbol.withoutBase := by
    refine map_eq_of_forall₂ (forall₂_imp_of_mem (forall₂_reduceBy (mapM_eq_ok_iff.1 hplanned)) ?_) fun _ _ h => h
    rintro t ht u - ⟨p, hp, rfl⟩
    obtain ⟨plan, said, hplan, hkept, -⟩ := h t ht
    obtain rfl : p = (plan, said) := Except.ok.inj (hp.symm.trans hplan)
    exact (withoutBase_afterPlan hkept).symm
  unfold withoutBases mapTypes
  rw [← htypes]
  rfl

/-- A graph comes out as it went in only if all its types are left as they are. -/
theorem leaves_of_headings {c : SymbolGraph} (h : b.analyzeInterfaces budget settings = .ok (c, notices))
    (hsame : c.headings = b.headings) {t : TypeSymbol} (ht : t ∈ b.types) : Leaves ⟨b, budget⟩ settings t := by
  obtain ⟨planned, hplanned, hc, -⟩ := analyzeInterfaces_eq_ok_iff.1 h
  have hreduced := forall₂_reduceBy (mapM_eq_ok_iff.1 hplanned)
  have hlength : c.types.length = b.types.length := by simpa [headings] using congrArg List.length hsame
  rcases extendBy_eq_ok_iff.1 hc with ⟨hnone, rfl⟩ | ⟨hsome, hext⟩
  · obtain ⟨u, -, ⟨p, hp, rfl⟩, hheading⟩ :=
      exists_of_mem_left (forall₂_and hreduced (map_eq_map_iff.1 hsame.symm)) ht
    refine ⟨p.1, p.2, hp, (TypeSymbol.heading_inj hheading).2.2.2.symm, ?_⟩
    rw [Option.eq_none_iff_forall_ne_some]
    intro d hd
    have hmem := (mem_diamondsOf hplanned).2 ⟨t, ht, p, hp, hd⟩
    rw [hnone] at hmem
    cases hmem
  · -- Each base that is made is one more type.
    have hmore : c.types.length = b.types.length + (diamondsOf (planned.map (·.1))).length := by
      obtain ⟨-, rfl⟩ := build_eq_ok_iff.1 hext
      simp [sortTypes, hreduced.length_eq]
    have hpositive := List.length_pos_iff.2 hsome
    omega

end Analyzed

end SymbolGraph

end Exonym
