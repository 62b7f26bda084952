import Exonym.Proofs.Graph.Canonical
import Exonym.Sample.Gallery

/-!
# What interface analysis adds to a graph

Analysis adds a base interface and an alias for every type that keeps several interfaces, and this works out for every
graph that was built. The identity of a base tells which type it was made for: the text that is put into a full name can
be found again, in front of the arity mark or at the end, and a name with a mark and digits ends in another character
than one without. The members of a base have the names and signatures of members of one type, so they are as distinct as
those. Nothing else of the graph is touched, but for the lists that are reduced.

Main statements:

* `Diamond.baseId_injective`: bases of different types have different identities.
* `Diamond.ownsMembers_synthesize`, `Diamond.settle_synthesize`: what is made fits into a graph as it is.
* `SymbolGraph.buildable_extended`: a graph goes together with the bases and aliases that analysis makes.
* `SymbolGraph.exists_analyzeInterfaces`: analysis succeeds, and what comes out is what went in and what was made.
-/

namespace Exonym

/-! ## Identities of bases -/

namespace Diamond

/-- The full name of a base, made from that of its type. -/
def baseChars (name : List Char) : List Char :=
  match Cut.last? arityMark name with
  | some (head, arity) =>
    if arity.all Char.isDigit then head ++ "_Base".toList ++ arityMark :: arity else name ++ "_Base".toList
  | none => name ++ "_Base".toList

theorem toList_fullName_baseId (id : TypeId) : (baseId id).fullName.toList = baseChars id.fullName.toList := by
  unfold baseId baseChars Cut.textLast?
  cases Cut.last? arityMark id.fullName.toList with
  | none => simp
  | some parts =>
    obtain ⟨head, arity⟩ := parts
    simp only [Option.map_some, String.toList_ofList]
    split <;> simp

/-- Where the arity mark and its digits stand behind the text of the base, or this text stands last. -/
theorem baseChars_cases (name : List Char) :
    (∃ head arity, name = head ++ arityMark :: arity ∧ arityMark ∉ arity ∧ (∀ c ∈ arity, c.isDigit = true) ∧
      baseChars name = (head ++ "_Base".toList) ++ arityMark :: arity) ∨ baseChars name = name ++ "_Base".toList := by
  unfold baseChars
  cases hcut : Cut.last? arityMark name with
  | none => exact .inr rfl
  | some parts =>
    obtain ⟨head, arity⟩ := parts
    obtain ⟨hname, hmark⟩ := Cut.last?_eq_some_iff.1 hcut
    by_cases hdigits : arity.all Char.isDigit = true
    · exact .inl ⟨head, arity, hname, hmark, List.all_eq_true.1 hdigits, if_pos hdigits⟩
    · exact .inr (if_neg hdigits)

/-- A mark with digits behind it does not end in the last letter of the text that is put in. -/
theorem ne_append_base {before name arity : List Char} (hdigits : ∀ c ∈ arity, c.isDigit = true) :
    before ++ arityMark :: arity ≠ name ++ "_Base".toList := by
  intro h
  have hlast := congrArg List.getLast? h
  have hright : (name ++ "_Base".toList).getLast? = some 'e' := by
    rw [List.getLast?_append_of_ne_nil] <;> simp
  rw [hright, List.getLast?_append_of_ne_nil _ (by simp)] at hlast
  rcases List.mem_cons.1 (List.mem_of_getLast? hlast) with hmark | hdigit
  · exact absurd hmark (by decide)
  · exact absurd (hdigits 'e' hdigit) (by decide)

theorem baseChars_injective : Function.Injective baseChars := by
  intro a b h
  obtain ⟨head, arity, rfl, hmark, hdigits, ha⟩ | ha := baseChars_cases a <;>
    obtain ⟨head', arity', rfl, hmark', hdigits', hb⟩ | hb := baseChars_cases b <;> rw [ha, hb] at h
  · -- either name is cut at its last mark
    have hcut := Cut.last?_eq_some_iff.2 ⟨h, hmark'⟩
    rw [Cut.last?_eq_some_iff.2 ⟨rfl, hmark⟩, Option.some.injEq, Prod.mk.injEq] at hcut
    obtain ⟨hhead, rfl⟩ := hcut
    rw [List.append_cancel_right hhead]
  · exact absurd h (ne_append_base hdigits)
  · exact absurd h.symm (ne_append_base hdigits')
  · exact List.append_cancel_right h

theorem baseId_injective : Function.Injective baseId := by
  rintro ⟨module, name⟩ ⟨module', name'⟩ h
  have hmodule : module = module' := congrArg TypeId.module h
  have hname : baseChars name.toList = baseChars name'.toList := by
    rw [← toList_fullName_baseId ⟨module, name⟩, h, toList_fullName_baseId]
  rw [hmodule, String.toList_inj.1 (baseChars_injective hname)]

/-! ## What is made -/

/-- Members of one type are told apart by what they keep on another one. -/
theorem same_rebased {a b : MemberId} (h : a.declaringTypeId = b.declaringTypeId) (owner : TypeId) :
    (a.rebased owner).same (b.rebased owner) = a.same b := by
  obtain ⟨hmodule, hdeclaring⟩ := TypeId.mk.inj h
  rw [Bool.eq_iff_iff, MemberId.same_iff, MemberId.same_iff]
  cases a; cases b
  simp only at hmodule hdeclaring
  simp [MemberId.rebased, MemberId.of, MemberId.bare, hmodule, hdeclaring]

/-- The members of a base are those that it takes over, under identities of its own. -/
theorem memberIds_synthesize (t : TypeSymbol) (kept : List TypeRef) :
    (synthesize t kept).base.memberIds =
      (t.members.infos.filter fun x => x.1 ≠ .constructor && carries x.2).map fun x => x.2.id.rebased (baseId t.id) := by
  simp [TypeSymbol.memberIds, synthesize, baseMembers, Members.infos, List.filter_map, Function.comp_def, baseMethod,
    baseProperty, propertyOfField, baseEvent, rehomeInfo]

theorem ownsMembers_synthesize {t : TypeSymbol} (ho : t.OwnsMembers) (kept : List TypeRef) :
    (synthesize t kept).base.OwnsMembers := by
  refine ⟨fun id hid => ?_, ?_⟩
  · rw [memberIds_synthesize] at hid
    obtain ⟨x, -, rfl⟩ := List.mem_map.1 hid
    rfl
  · have howned : ∀ x ∈ t.members.infos, x.2.id.declaringTypeId = t.id :=
      fun x hx => ho.owned x.2.id (List.mem_map_of_mem hx)
    rw [memberIds_synthesize, List.pairwise_map]
    refine ((List.pairwise_map.1 ho.distinct).filter _).imp_of_mem fun {x y} hx hy hxy => ?_
    have hx := howned x (List.mem_of_mem_filter hx)
    have hy := howned y (List.mem_of_mem_filter hy)
    rw [same_rebased (hx.trans hy.symm), hxy]

/-- A base has no static members and no nested types, so there is nothing to settle. -/
theorem settle_synthesize (t : TypeSymbol) (kept : List TypeRef) :
    SymbolGraph.settle (synthesize t kept).base = (synthesize t kept).base := by
  refine SymbolGraph.settle_eq_self_iff.2 ⟨fun x hx => ?_, List.mergeSort_nil⟩
  obtain ⟨y, -, hcarries, hxy⟩ := mem_infos_synthesize hx
  have hinstance : x.2.isStatic = false := by
    rw [hxy]
    simp only [carries, Bool.and_eq_true, Bool.not_eq_true'] at hcarries
    exact hcarries.1.1.2
  refine SymbolGraph.settleInfo_eq_self_iff.2 ⟨fun hall => ?_, fun hstatic => ?_⟩
  · cases show false = true from hall
  · rw [hinstance] at hstatic
    cases hstatic

/-- The base and the alias are those made for the type, with the interfaces that it lists now. -/
structure MadeFor (t : TypeSymbol) (d : Diamond) : Prop where
  noted : t.diamondBase = some d.base.id
  named : d.base.id = baseId t.id
  kind : d.base.kind = .interface
  origin : d.base.origin = .synthesized t.id
  target : d.intersection.target = t.id
  base : d.intersection.base = d.base.id
  members : d.intersection.members.Perm t.interfaces

end Diamond

namespace InterfaceAnalysis

/-- The type is the other one with its list reduced, if that can be done, and with a base noted, and is the same in
everything else. -/
structure Relisted (h : Hierarchy) (t u : TypeSymbol) : Prop where
  rest : u = { t with interfaces := u.interfaces, diamondBase := u.diamondBase }
  reduced : ∀ r, h.reduce t = .ok r → u.interfaces = r.kept
  skipped : ∀ cause, h.reduce t = .error cause → u = t

variable {h : Hierarchy} {settings : InterfaceSettings} {t : TypeSymbol} {plan : Option InterfacePlan}
  {said : List InterfaceNotice}

/-- A type that lists nothing keeps nothing. -/
theorem reduce_of_nil (hnone : t.interfaces = []) : h.reduce t = .ok ⟨[], [], []⟩ := by
  unfold Hierarchy.reduce
  rw [hnone]
  rfl

/-- There is a plan for every type whose walks come to an end. -/
theorem exists_planType_eq_ok (hwalks : ∀ budget, h.reduce t ≠ .error (.exhausted budget)) :
    ∃ planned, planType h settings t = .ok planned := by
  unfold planType
  split
  · exact ⟨_, rfl⟩
  · split
    · rename_i budget hreduce
      exact absurd hreduce (hwalks budget)
    · exact ⟨_, rfl⟩
    · exact ⟨_, rfl⟩

theorem relisted_of_planType (hplan : planType h settings t = .ok (plan, said)) :
    Relisted h t (afterPlan t plan) := by
  rcases planType_eq_ok hplan with ⟨hnone, rfl⟩ | ⟨cause, hreduce, -, rfl, -⟩ | ⟨r, -, hreduce, rfl⟩
  · refine ⟨rfl, fun r hr => ?_, fun cause hcause => rfl⟩
    obtain rfl := Except.ok.inj ((reduce_of_nil hnone).symm.trans hr)
    exact hnone
  · refine ⟨rfl, fun r hr => ?_, fun _ _ => rfl⟩
    rw [hreduce] at hr
    cases hr
  · refine ⟨rfl, fun r' hr => ?_, fun cause hcause => ?_⟩
    · rw [hreduce] at hr
      rw [← Except.ok.inj hr]
      rfl
    · rw [hreduce] at hcause
      cases hcause

/-- A base is planned under an identity that the graph does not have yet. -/
theorem madeFor_of_planType (hplan : planType h settings t = .ok (plan, said)) {d : Diamond}
    (hd : plan.bind (·.diamond) = some d) :
    d.MadeFor (afterPlan t plan) ∧ h.graph.contains (Diamond.baseId t.id) = false := by
  obtain ⟨-, rfl⟩ | ⟨-, -, -, rfl, -⟩ | ⟨r, -, -, rfl⟩ := planType_eq_ok hplan
  · cases hd
  · cases hd
  · have hdiamond : (diamondOf h.graph settings t r).1 = some d := hd
    have hmade : h.graph.contains (Diamond.baseId t.id) = false ∧ d = .synthesize t r.kept := by
      unfold diamondOf at hdiamond
      grind
    obtain ⟨hnew, rfl⟩ := hmade
    refine ⟨⟨?_, rfl, rfl, rfl, rfl, rfl, List.mergeSort_perm r.kept _⟩, hnew⟩
    show (diamondOf h.graph settings t r).1.map (·.base.id) = _
    rw [hdiamond]
    rfl

/-- A type that came without a base has one afterwards exactly when a diamond is planned for it. -/
theorem diamondBase_afterPlan (plan : Option InterfacePlan) (hbare : t.diamondBase = none) :
    (afterPlan t plan).diamondBase = (plan.bind (·.diamond)).map (·.base.id) := by
  cases plan with
  | none => exact hbare
  | some p => rfl

/-- The diamonds are made for the types that have a base, one for each and in their order. -/
theorem forall₂_madeFor {types : List TypeSymbol} {planned : List (Option InterfacePlan × List InterfaceNotice)}
    (hplanned : List.Forall₂ (fun t p => planType h settings t = .ok p) types planned)
    (hbare : ∀ t ∈ types, t.diamondBase = none) :
    List.Forall₂ (fun t d => Diamond.MadeFor t d)
      ((List.zipWith afterPlan types (planned.map (·.1))).filter (·.diamondBase.isSome))
      (diamondsOf (planned.map (·.1))) := by
  induction hplanned with
  | nil => exact .nil
  | @cons t p types planned hp _ ih =>
    have ih := ih fun u hu => hbare u (List.mem_cons_of_mem _ hu)
    have hbase := diamondBase_afterPlan p.1 (hbare t List.mem_cons_self)
    rw [List.map_cons, List.zipWith_cons_cons]
    -- a type has a base after its plan just if the plan has a diamond
    cases hd : p.1.bind (·.diamond) with
    | none =>
      rw [hd] at hbase
      have hnone : diamondsOf (p.1 :: planned.map (·.1)) = diamondsOf (planned.map (·.1)) := by
        simp only [diamondsOf, List.filterMap_cons, hd]
      rw [hnone, List.filter_cons_of_neg (by simp [hbase])]
      exact ih
    | some d =>
      rw [hd] at hbase
      have hsome : diamondsOf (p.1 :: planned.map (·.1)) = d :: diamondsOf (planned.map (·.1)) := by
        simp only [diamondsOf, List.filterMap_cons, hd]
      rw [hsome, List.filter_cons_of_pos (by simp [hbase])]
      exact .cons (madeFor_of_planType hp hd).1 ih

end InterfaceAnalysis

/-! ## The graph that is extended -/

namespace SymbolGraph

open InterfaceAnalysis

section Analyzed

variable {g : SymbolGraph} {budget : Nat} {settings : InterfaceSettings}
  {planned : List (Option InterfacePlan × List InterfaceNotice)}

/-- A planned diamond is made for a type of the graph, and its base is new there. -/
theorem exists_synthesize_of_mem (hplanned : g.types.mapM (planType ⟨g, budget⟩ settings) = .ok planned) {d : Diamond}
    (hd : d ∈ diamondsOf (planned.map (·.1))) :
    ∃ t ∈ g.types, (∃ kept, d = .synthesize t kept) ∧ ∀ u ∈ g.types, u.id ≠ d.base.id := by
  obtain ⟨t, ht, p, hp, hdiamond⟩ := (mem_diamondsOf hplanned).1 hd
  obtain ⟨kept, rfl⟩ := diamond_of_planType hp hdiamond
  refine ⟨t, ht, ⟨kept, rfl⟩, fun u hu hid => ?_⟩
  have hnew : g.types.any (·.id = Diamond.baseId t.id) = false := (madeFor_of_planType hp hdiamond).2
  rw [List.any_eq_false] at hnew
  exact hnew u hu (by simpa using hid)

/-- The bases are apart, since the types they are made for are. -/
theorem nodup_bases (hg : g.Canonical) (hbare : ∀ t ∈ g.types, t.diamondBase = none)
    (hplanned : g.types.mapM (planType ⟨g, budget⟩ settings) = .ok planned) :
    ((diamondsOf (planned.map (·.1))).map (·.base.id)).Nodup := by
  have hmade := forall₂_madeFor (mapM_eq_ok_iff.1 hplanned) hbare
  have hids : ((reduceBy g (planned.map (·.1))).types.map (·.id)).Nodup :=
    List.pairwise_map.2 (hg.reduceBy hplanned).buildable.distinct
  have hpart := List.filter_sublist (p := fun t : TypeSymbol => t.diamondBase.isSome)
    (l := (reduceBy g (planned.map (·.1))).types)
  have hnodup := (hids.sublist (hpart.map TypeSymbol.id)).map Diamond.baseId_injective
  rw [List.map_map] at hnodup
  rwa [← map_eq_of_forall₂ hmade fun t d hd => hd.named.symm]

/-- What analysis makes goes together with what is there. -/
theorem buildable_extended (hg : g.Canonical) (hbare : ∀ t ∈ g.types, t.diamondBase = none)
    (hplanned : g.types.mapM (planType ⟨g, budget⟩ settings) = .ok planned) :
    Buildable ((reduceBy g (planned.map (·.1))).types ++ (diamondsOf (planned.map (·.1))).map (·.base))
      (g.aliases ++ (diamondsOf (planned.map (·.1))).map (·.intersection)) := by
  -- what is made refers to types that were there, and these are there still
  have hthere : ∀ t ∈ g.types, ∃ u ∈ (reduceBy g (planned.map (·.1))).types, u.id = t.id := by
    intro t ht
    obtain ⟨u, hu, p, -, rfl⟩ := exists_of_mem_left (forall₂_reduceBy (mapM_eq_ok_iff.1 hplanned)) ht
    exact ⟨_, hu, afterPlan_id t p.1⟩
  refine (hg.reduceBy hplanned).buildable.append ?_ ?_ ?_ ?_ ?_ ?_
  · rw [List.pairwise_map]
    exact List.pairwise_map.1 (nodup_bases hg hbare hplanned)
  · intro u hu v hv
    obtain ⟨d, hd, rfl⟩ := List.mem_map.1 hv
    obtain ⟨t, ht, p, -, rfl⟩ := (mem_reduceBy hplanned).1 hu
    obtain ⟨-, -, -, hnew⟩ := exists_synthesize_of_mem hplanned hd
    rw [afterPlan_id]
    exact hnew t ht
  · intro v hv
    obtain ⟨d, hd, rfl⟩ := List.mem_map.1 hv
    obtain ⟨t, ht, ⟨kept, rfl⟩, -⟩ := exists_synthesize_of_mem hplanned hd
    exact Diamond.ownsMembers_synthesize (hg.buildable.members t ht) kept
  · intro v hv id hid
    obtain ⟨d, hd, rfl⟩ := List.mem_map.1 hv
    obtain ⟨t, ht, ⟨kept, rfl⟩, -⟩ := exists_synthesize_of_mem hplanned hd
    obtain ⟨declaring, hdeclaring, rfl⟩ := hg.buildable.declaring t ht id hid
    exact hthere declaring hdeclaring
  · intro v hv
    obtain ⟨d, hd, rfl⟩ := List.mem_map.1 hv
    obtain ⟨t, -, ⟨kept, rfl⟩, -⟩ := exists_synthesize_of_mem hplanned hd
    rfl
  · intro a ha
    obtain ⟨d, hd, rfl⟩ := List.mem_map.1 ha
    obtain ⟨t, ht, ⟨kept, rfl⟩, -⟩ := exists_synthesize_of_mem hplanned hd
    exact hthere t ht

/-- Where everything is settled, building only sorts. -/
theorem perm_of_build {types : List TypeSymbol} {aliases : List Alias} {a : SymbolGraph}
    (h : build types aliases = .ok a) (hsettled : ∀ t ∈ types, settle t = t) :
    a.types.Perm types ∧ a.aliases.Perm aliases := by
  obtain ⟨-, rfl⟩ := build_eq_ok_iff.1 h
  refine ⟨?_, List.mergeSort_perm aliases _⟩
  have hmap : types.map settle = types := (List.map_congr_left hsettled).trans (List.map_id types)
  have hperm := (sortTypes_perm types).map settle
  rwa [hmap] at hperm

/-- Adding diamonds works out, and only adds them. -/
theorem exists_extendBy (hg : g.Canonical) (hbare : ∀ t ∈ g.types, t.diamondBase = none)
    (hplanned : g.types.mapM (planType ⟨g, budget⟩ settings) = .ok planned) :
    ∃ a, extendBy (reduceBy g (planned.map (·.1))) (diamondsOf (planned.map (·.1))) = .ok a ∧
      a.types.Perm ((reduceBy g (planned.map (·.1))).types ++ (diamondsOf (planned.map (·.1))).map (·.base)) ∧
      a.aliases.Perm (g.aliases ++ (diamondsOf (planned.map (·.1))).map (·.intersection)) := by
  by_cases hnone : diamondsOf (planned.map (·.1)) = []
  · refine ⟨_, extendBy_eq_ok_iff.2 (.inl ⟨hnone, rfl⟩), ?_⟩
    rw [hnone, List.map_nil, List.map_nil, List.append_nil, List.append_nil]
    exact ⟨.refl _, .refl _⟩
  · obtain ⟨a, ha⟩ := exists_build_iff_buildable.2 (buildable_extended hg hbare hplanned)
    refine ⟨a, extendBy_eq_ok_iff.2 (.inr ⟨hnone, ha⟩), perm_of_build ha fun u hu => ?_⟩
    rcases List.mem_append.1 hu with hu | hu
    · exact (hg.reduceBy hplanned).settled u hu
    · obtain ⟨d, hd, rfl⟩ := List.mem_map.1 hu
      obtain ⟨t, -, ⟨kept, rfl⟩, -⟩ := exists_synthesize_of_mem hplanned hd
      exact Diamond.settle_synthesize t kept

end Analyzed

/-- Analysis of a graph that was built works out as long as the walks come to an end. What comes out is what went in,
with lists reduced and bases noted, and one base and one alias for each base that is noted. -/
theorem exists_analyzeInterfaces {types : List TypeSymbol} {aliases : List Alias} {g : SymbolGraph}
    (hbuild : build types aliases = .ok g) (hbare : ∀ t ∈ types, t.diamondBase = none) (budget : Nat)
    (settings : InterfaceSettings)
    (hwalks : ∀ t ∈ g.types, ∀ b, (⟨g, budget⟩ : Hierarchy).reduce t ≠ .error (.exhausted b)) :
    ∃ a notices reduced diamonds, g.analyzeInterfaces budget settings = .ok (a, notices) ∧
      List.Forall₂ (Relisted ⟨g, budget⟩) g.types reduced ∧
      List.Forall₂ Diamond.MadeFor (reduced.filter (·.diamondBase.isSome)) diamonds ∧
      a.types.Perm (reduced ++ diamonds.map (·.base)) ∧
      a.aliases.Perm (g.aliases ++ diamonds.map (·.intersection)) ∧ (a.types.map (·.id)).Nodup := by
  have hg := canonical_of_build hbuild
  have hbare' : ∀ t ∈ g.types, t.diamondBase = none := by
    intro t ht
    obtain ⟨u, hu, rfl⟩ := (mem_types_of_build hbuild).1 ht
    exact hbare u hu
  obtain ⟨planned, hplanned⟩ : ∃ planned, g.types.mapM (planType ⟨g, budget⟩ settings) = .ok planned :=
    exists_mapM_eq_ok fun t ht => exists_planType_eq_ok (hwalks t ht)
  obtain ⟨a, ha, htypes, haliases⟩ := exists_extendBy hg hbare' hplanned
  have hanalyzed := analyzeInterfaces_eq_ok_iff.2 ⟨planned, hplanned, ha, rfl⟩
  refine ⟨a, _, _, _, hanalyzed, ?_, forall₂_madeFor (mapM_eq_ok_iff.1 hplanned) hbare', htypes, haliases,
    List.pairwise_map.2 (hg.analyzeInterfaces hanalyzed).buildable.distinct⟩
  refine (forall₂_reduceBy (mapM_eq_ok_iff.1 hplanned)).imp ?_
  rintro t u ⟨p, hp, rfl⟩
  exact relisted_of_planType hp

/-- Two interfaces, and a generic class and a type in it that have both. -/
def chest : List TypeSymbol :=
  let locked (d : TypeDraft) : TypeDraft :=
    d.implements (Gallery.app "App" "ILock") |>.implements (Gallery.app "App" "IHinge")
  [(Gallery.draft "App.ILock" .interface).type,
    (Gallery.draft "App.IHinge" .interface).type,
    (locked (Gallery.draft "App.Chest`1" .classType |>.generic ["T"])).type,
    { (locked (Gallery.draft "App.Chest`1+Lid" .classType)).type with declaringType := some ⟨"app", "App.Chest`1"⟩ }]

/-- The bases of the chest and of the lid in it get their texts in different places. -/
theorem exists_analyzeInterfaces_of_chest :
    ∃ g a notices, build chest [] = .ok g ∧ g.analyzeInterfaces 10 ⟨true⟩ = .ok (a, notices) ∧
      a.types.map (·.id.fullName) =
        ["App.Chest_Base`1", "App.Chest`1", "App.Chest`1+Lid", "App.Chest`1+Lid_Base", "App.IHinge", "App.ILock"] ∧
      ∃ reduced diamonds, List.Forall₂ (Relisted ⟨g, 10⟩) g.types reduced ∧
        List.Forall₂ Diamond.MadeFor (reduced.filter (·.diamondBase.isSome)) diamonds ∧
        a.types.Perm (reduced ++ diamonds.map (·.base)) := by
  have hrun : (build chest []).toOption.any (fun g =>
      g.types.all (fun t => ((⟨g, 10⟩ : Hierarchy).reduce t).toOption.isSome) &&
        (g.analyzeInterfaces 10 ⟨true⟩).toOption.any fun p => p.1.types.map (·.id.fullName) =
          ["App.Chest_Base`1", "App.Chest`1", "App.Chest`1+Lid", "App.Chest`1+Lid_Base", "App.IHinge",
            "App.ILock"]) = true := by
    simp only [build, sortTypes, settle_eq, sortAliases, analyzeInterfaces, extend,
      mergeSort_eq_sortTo]
    decide +kernel
  obtain ⟨g, hbuild, hrun⟩ := exists_of_any hrun
  obtain ⟨hreduces, hrun⟩ := Bool.and_eq_true_iff.1 hrun
  have hwalks : ∀ t ∈ g.types, ∀ b, (⟨g, 10⟩ : Hierarchy).reduce t ≠ .error (.exhausted b) := by
    intro t ht b herror
    have hreduced := List.all_eq_true.1 hreduces t ht
    rw [herror] at hreduced
    cases hreduced
  obtain ⟨a, notices, reduced, diamonds, ha, hreduced, hmade, htypes, -, -⟩ :=
    exists_analyzeInterfaces hbuild (by decide) 10 ⟨true⟩ hwalks
  rw [ha] at hrun
  exact ⟨g, a, notices, hbuild, ha, of_decide_eq_true hrun, reduced, diamonds, hreduced, hmade, htypes⟩

end SymbolGraph

end Exonym
