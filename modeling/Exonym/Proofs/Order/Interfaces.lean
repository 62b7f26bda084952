import Exonym.Proofs.Hierarchy.Analysis
import Exonym.Proofs.Order.Reordered

/-!
# Interface analysis does not see how members are listed

Walking an interface hierarchy looks at identities, parameters and interface lists only. So every type of a graph that is
alike gets the same plan, and the bases of its diamonds are alike again.

Main statements:

* `Hierarchy.reduce_eq`: the reduced list of a type.
* `SymbolGraph.exists_analyzeInterfaces_of_alike`: graphs that are alike stay so, and the same is said about them.
-/

namespace Exonym

variable {g g' : SymbolGraph}

theorem SymbolGraph.Alike.resolve? {R : View → View → Prop} (h : g.Alike R g') (r : TypeRef) :
    (g.resolve? r = none ∧ g'.resolve? r = none) ∨
      ∃ t t', g.resolve? r = some t ∧ g'.resolve? r = some t' ∧ t.Alike R t' := by
  unfold SymbolGraph.resolve?
  cases r.id? with
  | none => exact .inl ⟨rfl, rfl⟩
  | some id => exact h.find? id

namespace Hierarchy

variable {R : View → View → Prop} {budget : Nat}

theorem arityFault?_eq {t t' : TypeSymbol} (h : t.Alike R t') (r : TypeRef) : arityFault? t' r = arityFault? t r :=
  h.agree (arityFault? · r) fun _ _ => by cases r <;> rfl

theorem parents_eq {t t' : TypeSymbol} (h : t.Alike R t') (r : TypeRef) : parents t' r = parents t r :=
  h.agree (parents · r) fun _ _ => by cases r <;> rfl

theorem checkArity_eq (h : g.Alike R g') (r : TypeRef) :
    checkArity ⟨g', budget⟩ r = checkArity ⟨g, budget⟩ r := by
  unfold checkArity
  rcases h.resolve? r with ⟨hnone, hnone'⟩ | ⟨t, t', ht, ht', halike⟩
  · simp only [hnone, hnone']
  · simp only [ht, ht', Option.bind_some, arityFault?_eq halike]

theorem look_eq (h : g.Alike R g') (start : TypeRef) (w : Walk) (r : TypeRef) :
    look ⟨g', budget⟩ start w r = look ⟨g, budget⟩ start w r := by
  unfold look
  rcases h.resolve? r with ⟨hnone, hnone'⟩ | ⟨t, t', ht, ht', halike⟩
  · simp only [hnone, hnone']
  · simp only [ht, ht', arityFault?_eq halike, parents_eq halike]

/-- A walk takes the same steps in both graphs. -/
theorem run_eq (h : g.Alike R g') (start : TypeRef) (left : Nat) (w : Walk) :
    run ⟨g', budget⟩ start left w = run ⟨g, budget⟩ start left w := by
  induction left generalizing w with
  | zero => rfl
  | succ left ih =>
    unfold run
    cases w.pending with
    | nil => rfl
    | cons r rest =>
      simp only [look_eq h]
      cases look ⟨g, budget⟩ start { w with pending := rest } r with
      | error e => rfl
      | ok w' => exact ih w'

theorem reduce_eq (h : g.Alike R g') {t t' : TypeSymbol} (ht : t.Alike R t') :
    reduce ⟨g', budget⟩ t' = reduce ⟨g, budget⟩ t := by
  have hinterfaces : t'.interfaces = t.interfaces := ht.agree TypeSymbol.interfaces fun _ _ => rfl
  have hcheck : checkArity ⟨g', budget⟩ = checkArity ⟨g, budget⟩ := funext (checkArity_eq h)
  have hancestors : ancestors ⟨g', budget⟩ = ancestors ⟨g, budget⟩ := funext fun r => run_eq h r _ _
  have hresolve : ∀ r, (g'.resolve? r).isNone = (g.resolve? r).isNone := by
    intro r
    rcases h.resolve? r with ⟨hnone, hnone'⟩ | ⟨u, u', hu, hu', -⟩
    · simp [hnone, hnone']
    · simp [hu, hu']
  unfold reduce
  rw [hinterfaces, hcheck, hancestors]
  simp only [hresolve]

end Hierarchy

/-- Diamonds whose bases list their members in different orders. -/
structure Diamond.Alike (d d' : Diamond) : Prop where
  base : d.base.Alike Eq d'.base
  intersection : d'.intersection = d.intersection

structure InterfacePlan.Alike (p p' : InterfacePlan) : Prop where
  kept : p'.kept = p.kept
  diamond : Option.Rel Diamond.Alike p.diamond p'.diamond

theorem Diamond.alike_synthesize {t t' : TypeSymbol} (h : t.Alike Eq t') (kept : List TypeRef) :
    (synthesize t kept).Alike (synthesize t' kept) := by
  have howner : t'.owner = t.owner := h.agree TypeSymbol.owner fun _ _ => rfl
  refine ⟨⟨?_, .nil, ?_⟩, ?_⟩
  · unfold synthesize baseMembers
    rw [h.id_eq, howner]
    refine ⟨?_, ?_, .nil, ?_, .nil⟩
    · exact (h.members.methods.filter _).map _
    · exact ((h.members.properties.filter _).map _).append ((h.members.fields.filter _).map _)
    · exact (h.members.events.filter _).map _
  · rw [h.rest]
    rfl
  · rw [h.rest]
    rfl

namespace InterfaceAnalysis

variable {t t' : TypeSymbol} {budget : Nat} {settings : InterfaceSettings}

theorem diamondOf_alike (settings : InterfaceSettings) (hg : g.Alike Eq g') (h : t.Alike Eq t') (r : Reduction) :
    Option.Rel Diamond.Alike (diamondOf g settings t r).1 (diamondOf g' settings t' r).1 ∧
      (diamondOf g' settings t' r).2 = (diamondOf g settings t r).2 := by
  have hkind : t'.isInterface = t.isInterface := h.agree TypeSymbol.isInterface fun _ _ => rfl
  unfold diamondOf
  simp only [hkind, h.id_eq, hg.contains_eq]
  by_cases hdiamond : (r.isDiamond && !t.isInterface && settings.synthesizeDiamonds) = true
  · by_cases htaken : g.contains (Diamond.baseId t.id) = true
    · rw [if_pos hdiamond, if_pos hdiamond, if_pos htaken, if_pos htaken]
      exact ⟨.none, rfl⟩
    · rw [if_pos hdiamond, if_pos hdiamond, if_neg htaken, if_neg htaken]
      exact ⟨.some (Diamond.alike_synthesize h r.kept), rfl⟩
  · rw [if_neg hdiamond, if_neg hdiamond]
    exact ⟨.none, rfl⟩

theorem planType_alike (hg : g.Alike Eq g') (h : t.Alike Eq t') {p : Option InterfacePlan × List InterfaceNotice}
    (hp : planType ⟨g, budget⟩ settings t = .ok p) :
    ∃ p', planType ⟨g', budget⟩ settings t' = .ok p' ∧ Option.Rel InterfacePlan.Alike p.1 p'.1 ∧ p'.2 = p.2 := by
  have hinterfaces : t'.interfaces = t.interfaces := h.agree TypeSymbol.interfaces fun _ _ => rfl
  unfold planType at hp ⊢
  rw [hinterfaces, Hierarchy.reduce_eq hg h, h.id_eq]
  by_cases hempty : t.interfaces.isEmpty = true
  · rw [if_pos hempty] at hp ⊢
    obtain rfl := Except.ok.inj hp
    exact ⟨_, rfl, .none, rfl⟩
  · rw [if_neg hempty] at hp ⊢
    cases hr : Hierarchy.reduce ⟨g, budget⟩ t with
    | error e =>
      cases e with
      | exhausted n => simp [hr] at hp
      | arityMismatch reference expected found =>
        simp only [hr] at hp ⊢
        obtain rfl := Except.ok.inj hp
        exact ⟨_, rfl, .none, rfl⟩
    | ok r =>
      obtain ⟨hdiamond, hsaid⟩ := diamondOf_alike settings hg h r
      simp only [hr] at hp ⊢
      obtain rfl := Except.ok.inj hp
      exact ⟨_, rfl, .some ⟨rfl, hdiamond⟩, by rw [hsaid]⟩

theorem afterPlan_alike (h : t.Alike Eq t') {p p' : Option InterfacePlan} (hp : Option.Rel InterfacePlan.Alike p p') :
    (afterPlan t p).Alike Eq (afterPlan t' p') := by
  cases hp with
  | none => exact h
  | @some p p' halike =>
    have hbase : p'.diamond.map (·.base.id) = p.diamond.map (·.base.id) := by
      have hdiamond := halike.diamond
      generalize p.diamond = d, p'.diamond = d' at hdiamond
      cases hdiamond with
      | none => rfl
      | some hd => simp [hd.base.id_eq]
    refine ⟨h.members, h.views, ?_⟩
    unfold afterPlan InterfacePlan.applyTo
    simp only [halike.kept, hbase]
    rw [h.rest]

/-- What is planned for two graphs that are alike, put into effect. -/
theorem reduceBy_alike (hg : g.Alike Eq g') {plans plans' : List (Option InterfacePlan)}
    (h : List.Forall₂ (Option.Rel InterfacePlan.Alike) plans plans') :
    (reduceBy g plans).Alike Eq (reduceBy g' plans') := by
  refine ⟨?_, hg.aliases⟩
  unfold reduceBy
  have htypes := hg.types
  generalize g.types = types, g'.types = types' at htypes
  induction htypes generalizing plans plans' with
  | nil => simp
  | cons ht _ ih =>
    cases h with
    | nil => simp
    | cons hp hplans => exact .cons (afterPlan_alike ht hp) (ih hplans)

theorem diamondsOf_alike {plans plans' : List (Option InterfacePlan)}
    (h : List.Forall₂ (Option.Rel InterfacePlan.Alike) plans plans') :
    List.Forall₂ Diamond.Alike (diamondsOf plans) (diamondsOf plans') := by
  unfold diamondsOf
  refine List.rel_filterMap ?_ h
  intro p p' hp
  cases hp with
  | none => exact .none
  | some halike => exact halike.diamond

theorem exists_extendBy_of_alike {a : SymbolGraph} (hg : g.Alike Eq g') {diamonds diamonds' : List Diamond}
    (hd : List.Forall₂ Diamond.Alike diamonds diamonds') (h : extendBy g diamonds = .ok a) :
    ∃ a', extendBy g' diamonds' = .ok a' ∧ a.Alike Eq a' := by
  rcases SymbolGraph.extendBy_eq_ok_iff.1 h with ⟨rfl, rfl⟩ | ⟨hne, hext⟩
  · cases hd
    exact ⟨g', rfl, hg⟩
  · have hlisted : ListedAnew (g.types ++ diamonds.map (·.base)) (g'.types ++ diamonds'.map (·.base)) := by
      refine ⟨_, List.Perm.refl _, List.rel_append hg.types ?_⟩
      rw [List.forall₂_map_left_iff, List.forall₂_map_right_iff]
      exact hd.imp fun _ _ h => h.base
    have haliases : g'.aliases ++ diamonds'.map (·.intersection) = g.aliases ++ diamonds.map (·.intersection) := by
      rw [hg.aliases, map_eq_of_forall₂ hd.flip fun _ _ h => Diamond.Alike.intersection h]
    obtain ⟨a', hbuild, halike⟩ := SymbolGraph.exists_build_of_listedAnew hlisted hext
    refine ⟨a', SymbolGraph.extendBy_eq_ok_iff.2 (.inr ⟨?_, ?_⟩), halike⟩
    · rintro rfl
      cases hd
      exact hne rfl
    · rw [SymbolGraph.extend, haliases, hbuild]

end InterfaceAnalysis

/-- Interface analysis succeeds on a graph that is alike, says the same, and its result is alike. -/
theorem SymbolGraph.exists_analyzeInterfaces_of_alike {a : SymbolGraph} {budget : Nat} {settings : InterfaceSettings}
    {notices : List InterfaceNotice} (hg : g.Alike Eq g')
    (h : g.analyzeInterfaces budget settings = .ok (a, notices)) :
    ∃ a', g'.analyzeInterfaces budget settings = .ok (a', notices) ∧ a.Alike Eq a' := by
  obtain ⟨planned, hplanned, ha, rfl⟩ := analyzeInterfaces_eq_ok_iff.1 h
  obtain ⟨planned', hplanned', hall⟩ := exists_mapM_of_forall₂ hg.types
    (fun _ _ _ ht hp => InterfaceAnalysis.planType_alike hg ht hp) hplanned
  have hplans : List.Forall₂ (Option.Rel InterfacePlan.Alike) (planned.map (·.1)) (planned'.map (·.1)) := by
    rw [List.forall₂_map_left_iff, List.forall₂_map_right_iff]
    exact hall.imp fun _ _ h => h.1
  have hsaid : planned'.map (·.2) = planned.map (·.2) := map_eq_of_forall₂ hall.flip fun _ _ h => h.2
  obtain ⟨a', ha', halike⟩ := InterfaceAnalysis.exists_extendBy_of_alike
    (InterfaceAnalysis.reduceBy_alike hg hplans) (InterfaceAnalysis.diamondsOf_alike hplans) ha
  refine ⟨a', analyzeInterfaces_eq_ok_iff.2 ⟨planned', hplanned', ha', ?_⟩, halike⟩
  rw [List.flatMap_def, List.flatMap_def, hsaid]

end Exonym
