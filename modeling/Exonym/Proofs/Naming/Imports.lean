import Exonym.Proofs.Naming.Plan
import Exonym.Sample.Gallery

/-!
# Imports

A namespace imports the types of others that the declarations of its own types refer to: what they are built on, and
what their members are made of. A declaration says more than that. It puts constraints on its type parameters and on
those of its methods, and its views refer to interfaces; none of these lead to an import. So the imports of a graph
are complete exactly when what a namespace mentions there it also mentions in the other places.

Main statements:

* `TypeRef.mem_mentions_iff`: which definitions a reference mentions.
* `NamingStep.mem_references_iff`: which references of a declaration are looked at.
* `SymbolGraph.imported_iff`: which types a namespace imports.
* `SymbolGraph.importsComplete_iff`: when a namespace imports all that it mentions.
-/

namespace Exonym

/-! ## What a reference mentions -/

/-- The definition occurs in the reference: it is pointed at, or it occurs in an argument, in the type around a nested
one, or in what an array, a pointer or a by-reference occurrence is made of. -/
inductive TypeRef.Mentions (id : TypeId) : TypeRef → Prop
  | target {target : TypeName} {args : List TypeRef} {isValueType : Bool} : target.id = id →
      Mentions id (.named target args isValueType)
  | argument {target : TypeName} {args : List TypeRef} {isValueType : Bool} {r : TypeRef} : r ∈ args →
      Mentions id r → Mentions id (.named target args isValueType)
  | nested {declaring : TypeRef} {name : String} : (TypeRef.nested declaring name).id? = some id →
      Mentions id (.nested declaring name)
  | declaring {declaring : TypeRef} {name : String} : Mentions id declaring → Mentions id (.nested declaring name)
  | element {element : TypeRef} {rank : UInt32} : Mentions id element → Mentions id (.array element rank)
  | pointee {pointee : TypeRef} {depth : UInt32} : Mentions id pointee → Mentions id (.pointer pointee depth)
  | referenced {referenced : TypeRef} : Mentions id referenced → Mentions id (.byRef referenced)

namespace TypeRef

mutual

theorem mentions_of_mem {id : TypeId} : ∀ {r : TypeRef}, id ∈ r.mentions → Mentions id r
  | .named target args _, h => by
    rcases List.mem_cons.1 h with h | h
    · exact .target h.symm
    · obtain ⟨r, hr, hid⟩ := mentionsAll_of_mem h
      exact .argument hr hid
  | .nested declaring name, h => by
    rcases List.mem_append.1 h with h | h
    · exact .nested (by simpa using h)
    · exact .declaring (mentions_of_mem h)
  | .array element _, h => .element (mentions_of_mem h)
  | .pointer pointee _, h => .pointee (mentions_of_mem h)
  | .byRef referenced, h => .referenced (mentions_of_mem h)
  | .param .., h => by simp [mentions] at h

theorem mentionsAll_of_mem {id : TypeId} : ∀ {rs : List TypeRef}, id ∈ mentionsAll rs → ∃ r ∈ rs, Mentions id r
  | [], h => by simp [mentionsAll] at h
  | r :: rest, h => by
    rcases List.mem_append.1 h with h | h
    · exact ⟨r, List.mem_cons_self, mentions_of_mem h⟩
    · obtain ⟨s, hs, hid⟩ := mentionsAll_of_mem h
      exact ⟨s, List.mem_cons_of_mem _ hs, hid⟩

end

/-- The walk over a reference finds the definitions that it mentions, and no others. -/
theorem mem_mentions_iff {id : TypeId} {r : TypeRef} : id ∈ r.mentions ↔ Mentions id r := by
  refine ⟨mentions_of_mem, fun h => ?_⟩
  induction h with
  | target h => simp [mentions, h]
  | argument hr _ ih =>
    rw [mentions, mentionsAll_eq]
    exact List.mem_cons_of_mem _ (List.mem_flatMap.2 ⟨_, hr, ih⟩)
  | nested h => simp [mentions, h]
  | declaring _ ih => exact List.mem_append_right _ ih
  | element _ ih => exact ih
  | pointee _ ih => exact ih
  | referenced _ ih => exact ih

end TypeRef

/-! ## What a declaration refers to -/

namespace TypeSymbol

/-- The references that say what a type is built on and what its members are made of. -/
inductive InSignature (t : TypeSymbol) : TypeRef → Prop
  | base {r : TypeRef} : t.baseType = some r → InSignature t r
  | interface {r : TypeRef} : r ∈ t.interfaces → InSignature t r
  | returned {m : Method} : m ∈ t.members.methods → InSignature t m.returnType
  | parameter {m : Method} {p : Parameter} : m ∈ t.members.methods → p ∈ m.parameters → InSignature t p.type
  | property {x : Property} : x ∈ t.members.properties → InSignature t x.type
  | index {x : Property} {p : Parameter} : x ∈ t.members.properties → p ∈ x.indexParameters → InSignature t p.type
  | field {x : Field} : x ∈ t.members.fields → InSignature t x.type
  | event {x : Event} : x ∈ t.members.events → InSignature t x.handlerType
  | constructor {x : Constructor} {p : Parameter} : x ∈ t.members.constructors → p ∈ x.parameters →
      InSignature t p.type

/-- The other references of a declaration. -/
inductive InMargin (t : TypeSymbol) : TypeRef → Prop
  | constraint {p : TypeParameter} {r : TypeRef} : p ∈ t.typeParameters → r ∈ p.constraints → InMargin t r
  | methodConstraint {m : Method} {p : TypeParameter} {r : TypeRef} : m ∈ t.members.methods →
      p ∈ m.typeParameters → r ∈ p.constraints → InMargin t r
  | view {v : View} : v ∈ t.views → InMargin t v.interface

/-- What the type is built on, or a member of it, mentions the definition. -/
def SignaturesMention (t : TypeSymbol) (id : TypeId) : Prop :=
  ∃ r, t.InSignature r ∧ r.Mentions id

/-- A constraint or a view of the type mentions the definition. -/
def MarginMentions (t : TypeSymbol) (id : TypeId) : Prop :=
  ∃ r, t.InMargin r ∧ r.Mentions id

/-- The references in constraints and views, listed. -/
def margin (t : TypeSymbol) : List TypeRef :=
  t.typeParameters.flatMap (·.constraints) ++ t.members.methods.flatMap (·.typeParameters.flatMap (·.constraints)) ++
    t.views.map (·.interface)

theorem mem_margin_iff {t : TypeSymbol} {r : TypeRef} : r ∈ t.margin ↔ t.InMargin r := by
  simp only [margin, List.mem_append, List.mem_flatMap, List.mem_map]
  constructor
  · rintro ((⟨p, hp, hr⟩ | ⟨m, hm, p, hp, hr⟩) | ⟨v, hv, rfl⟩)
    · exact .constraint hp hr
    · exact .methodConstraint hm hp hr
    · exact .view hv
  · intro h
    cases h with
    | constraint hp hr => exact .inl (.inl ⟨_, hp, hr⟩)
    | methodConstraint hm hp hr => exact .inl (.inr ⟨_, hm, _, hp, hr⟩)
    | view hv => exact .inr ⟨_, hv, rfl⟩

instance (t : TypeSymbol) (id : TypeId) : Decidable (t.MarginMentions id) :=
  decidable_of_iff (id ∈ t.margin.flatMap TypeRef.mentions) (by
    simp only [List.mem_flatMap, mem_margin_iff, TypeRef.mem_mentions_iff]
    rfl)

/-- The declaration of the type mentions the definition. -/
def DeclarationMentions (t : TypeSymbol) (id : TypeId) : Prop :=
  t.SignaturesMention id ∨ t.MarginMentions id

end TypeSymbol

namespace NamingStep

theorem mem_references_iff {t : TypeSymbol} {r : TypeRef} : r ∈ references t ↔ t.InSignature r := by
  simp only [references, List.mem_append, List.mem_flatMap, List.mem_cons, List.mem_map, Option.mem_toList]
  constructor
  · rintro ((((((h | h) | ⟨m, hm, rfl | ⟨p, hp, rfl⟩⟩) | ⟨x, hx, rfl | ⟨p, hp, rfl⟩⟩) | ⟨x, hx, rfl⟩) |
      ⟨x, hx, rfl⟩) | ⟨x, hx, p, hp, rfl⟩)
    · exact .base h
    · exact .interface h
    · exact .returned hm
    · exact .parameter hm hp
    · exact .property hx
    · exact .index hx hp
    · exact .field hx
    · exact .event hx
    · exact .constructor hx hp
  · intro h
    cases h with
    | base h => exact .inl (.inl (.inl (.inl (.inl (.inl h)))))
    | interface h => exact .inl (.inl (.inl (.inl (.inl (.inr h)))))
    | returned hm => exact .inl (.inl (.inl (.inl (.inr ⟨_, hm, .inl rfl⟩))))
    | parameter hm hp => exact .inl (.inl (.inl (.inl (.inr ⟨_, hm, .inr ⟨_, hp, rfl⟩⟩))))
    | property hx => exact .inl (.inl (.inl (.inr ⟨_, hx, .inl rfl⟩)))
    | index hx hp => exact .inl (.inl (.inl (.inr ⟨_, hx, .inr ⟨_, hp, rfl⟩⟩)))
    | field hx => exact .inl (.inl (.inr ⟨_, hx, rfl⟩))
    | event hx => exact .inl (.inr ⟨_, hx, rfl⟩)
    | constructor hx hp => exact .inr ⟨_, hx, _, hp, rfl⟩

theorem mem_flatMap_references_iff {t : TypeSymbol} {id : TypeId} :
    id ∈ (references t).flatMap TypeRef.mentions ↔ t.SignaturesMention id := by
  simp only [List.mem_flatMap, mem_references_iff, TypeRef.mem_mentions_iff]
  rfl

instance (t : TypeSymbol) (id : TypeId) : Decidable (t.SignaturesMention id) :=
  decidable_of_iff _ mem_flatMap_references_iff

/-! ## What a namespace imports -/

theorem contains_iff {g : SymbolGraph} {id : TypeId} : g.contains id = true ↔ ∃ u ∈ g.types, u.id = id := by
  simp [SymbolGraph.contains]

/-- Types of the graph that live elsewhere and that the types of the namespace refer to in their signatures. -/
theorem mem_foreignTypes_iff {g : SymbolGraph} (hg : g.Consistent) {name : String} {id : TypeId} :
    id ∈ foreignTypes g (g.namespaceNamed name) ↔ id.namespace ≠ name ∧ (∃ u ∈ g.types, u.id = id) ∧
      ∃ t ∈ g.types, t.namespace = name ∧ t.SignaturesMention id := by
  have htypes : ∀ t, t ∈ (g.namespaceNamed name).types.filterMap g.find? ↔ t ∈ g.types ∧ t.namespace = name := by
    intro t
    simp only [SymbolGraph.namespaceNamed, List.mem_filterMap, List.mem_map, List.mem_filter, decide_eq_true_eq]
    constructor
    · rintro ⟨id, ⟨u, ⟨hu, hname⟩, rfl⟩, hfind⟩
      obtain rfl : u = t := Option.some.inj ((hg.find?_eq hu).symm.trans hfind)
      exact ⟨hu, hname⟩
    · rintro ⟨ht, hname⟩
      exact ⟨t.id, ⟨t, ⟨ht, hname⟩, rfl⟩, hg.find?_eq ht⟩
  simp only [foreignTypes, List.mem_mergeSort, List.mem_eraseDups, List.mem_filter, List.mem_flatMap (l := List.filterMap _ _),
    htypes, mem_flatMap_references_iff, Bool.and_eq_true, decide_eq_true_eq, contains_iff]
  constructor
  · rintro ⟨⟨t, ⟨ht, hname⟩, hid⟩, hne, hu⟩
    exact ⟨hne, hu, t, ht, hname, hid⟩
  · rintro ⟨hne, hu, t, ht, hname, hid⟩
    exact ⟨⟨t, ⟨ht, hname⟩, hid⟩, hne, hu⟩

/-- The steps of a namespace name its own types, and those of others that it refers to. -/
theorem subject_of_mem_ofImports {g : SymbolGraph} {ns : Namespace} {s : NamingStep} (h : s ∈ ofImports g ns) :
    ∃ id, s.subject = .type id ∧ (id ∈ ns.types ∨ id ∈ foreignTypes g ns) := by
  obtain ⟨id, reason, rfl, hlisted⟩ := eq_of_mem_ofImports h
  exact ⟨id, rfl, hlisted⟩

theorem exists_mem_ofImports {g : SymbolGraph} {ns : Namespace} {id : TypeId} (h : id ∈ foreignTypes g ns) :
    ∃ s ∈ ofImports g ns, s.subject = .type id := by
  unfold ofImports
  split
  · rename_i hnone
    simp [hnone] at h
  · exact ⟨_, List.mem_append_right _ (List.mem_map_of_mem h), rfl⟩

/-- Only the steps of a namespace are for the scope of its imports. -/
theorem mem_ofImports_of_scope {g : SymbolGraph} {s : NamingStep} (hs : s ∈ plan g) {name : String}
    (hscope : s.scope = .imports name) : name ∈ g.namespaceNames ∧ s ∈ ofImports g (g.namespaceNamed name) := by
  cases mem_plan_iff.1 hs with
  | type ht hmem =>
    obtain ⟨-, ⟨_, h⟩, -⟩ := of_mem_ofType hmem
    rw [h] at hscope
    cases hscope
  | surface ht hx hp =>
    rw [scope_ofMember] at hscope
    cases hscope
  | accessor ht hv => cases hscope
  | viewed ht hv hm hf => cases hscope
  | «import» hns hmem =>
    obtain ⟨other, hother, rfl⟩ := List.mem_map.1 hns
    rw [(of_mem_ofImports hmem).1] at hscope
    obtain rfl : other = name := Scope.imports.inj hscope
    exact ⟨hother, hmem⟩

end NamingStep

namespace SymbolGraph

/-- The type has a name in the scope of the imports of the namespace. -/
def Imported (l : Ledger) (name : String) (id : TypeId) : Prop :=
  (l.decision? (.type id) (.imports name)).isSome

instance (l : Ledger) (name : String) (id : TypeId) : Decidable (Imported l name id) :=
  inferInstanceAs (Decidable (Option.isSome _ = true))

/-- A namespace imports the types of the graph that live elsewhere and that the signatures in it mention, and no
others of these. -/
theorem imported_iff {g : SymbolGraph} (hg : g.Consistent) {settings : NameSettings}
    (hrun : (g.reserveNames (.empty settings)).failure = none) {name : String} {u : TypeSymbol} (hu : u ∈ g.types)
    (hname : u.namespace ≠ name) :
    Imported (g.reserveNames (.empty settings)).ledger name u.id ↔
      ∃ t ∈ g.types, t.namespace = name ∧ t.SignaturesMention u.id := by
  constructor
  · intro himported
    obtain ⟨d, hd⟩ := Option.isSome_iff_exists.1 himported
    obtain ⟨hmem, hscope, hid⟩ := Ledger.mem_of_decision? hd
    -- a name in the imports of a namespace comes from a step for one of its own types or for a foreign one
    obtain ⟨s, hs, hsubject, hsscope, -⟩ := NamingRun.origin_of_run hmem
    rw [hsubject] at hid
    rw [hscope] at hsscope
    obtain ⟨id, hstep, hlisted⟩ := NamingStep.subject_of_mem_ofImports
      (NamingStep.mem_ofImports_of_scope hs hsscope.symm).2
    rw [hstep, SymbolId.same_type, decide_eq_true_eq] at hid
    subst hid
    rcases hlisted with hlocal | hforeign
    · obtain ⟨v, hv, hvid⟩ := List.mem_map.1 hlocal
      obtain ⟨hv, hvname⟩ := List.mem_filter.1 hv
      obtain rfl := hg.eq_of_id hv hu hvid
      exact absurd (of_decide_eq_true hvname) hname
    · exact ((NamingStep.mem_foreignTypes_iff hg).1 hforeign).2.2
  · rintro ⟨t, ht, rfl, hmention⟩
    have hforeign : u.id ∈ NamingStep.foreignTypes g (g.namespaceNamed t.namespace) :=
      (NamingStep.mem_foreignTypes_iff hg).2 ⟨hname, ⟨u, hu, rfl⟩, t, ht, rfl, hmention⟩
    obtain ⟨s, hs, hsubject⟩ := NamingStep.exists_mem_ofImports hforeign
    have hns : g.namespaceNamed t.namespace ∈ g.namespaces :=
      List.mem_map_of_mem (mem_namespaceNames.2 ⟨t, ht, rfl⟩)
    obtain ⟨d, hd, hscope, hid⟩ := NamingRun.decided_of_run hrun s (NamingStep.mem_plan_iff.2 (.import hns hs))
    rw [(NamingStep.of_mem_ofImports hs).1] at hscope
    rw [hsubject] at hid
    refine Option.isSome_iff_exists.2 ⟨d, ?_⟩
    change Ledger.decision? _ _ (.imports (g.namespaceNamed t.namespace).name) = _
    rw [← hscope]
    exact (coherent_reserveNames g settings).decision?_eq hd hid

/-- Every type of another namespace that the declaration of a type mentions is imported by the namespace of the
type. -/
def ImportsComplete (g : SymbolGraph) (l : Ledger) : Prop :=
  ∀ t ∈ g.types, ∀ u ∈ g.types, u.namespace ≠ t.namespace → t.DeclarationMentions u.id →
    Imported l t.namespace u.id

/-- What a namespace mentions of the types of others in constraints and views, it mentions in signatures as well. -/
def MarginsCovered (g : SymbolGraph) : Prop :=
  ∀ t ∈ g.types, ∀ u ∈ g.types, u.namespace ≠ t.namespace → t.MarginMentions u.id →
    ∃ s ∈ g.types, s.namespace = t.namespace ∧ s.SignaturesMention u.id

instance (g : SymbolGraph) : Decidable g.MarginsCovered :=
  inferInstanceAs (Decidable (∀ _ ∈ _, ∀ _ ∈ _, _))

theorem importsComplete_iff_of_consistent {g : SymbolGraph} (hg : g.Consistent) {settings : NameSettings}
    (hrun : (g.reserveNames (.empty settings)).failure = none) :
    g.ImportsComplete (g.reserveNames (.empty settings)).ledger ↔ g.MarginsCovered := by
  constructor
  · intro hcomplete t ht u hu hne hmargin
    exact (imported_iff hg hrun hu hne).1 (hcomplete t ht u hu hne (.inr hmargin))
  · intro hcovered t ht u hu hne hmention
    rw [imported_iff hg hrun hu hne]
    rcases hmention with hsignature | hmargin
    · exact ⟨t, ht, rfl, hsignature⟩
    · exact hcovered t ht u hu hne hmargin

/-- When names were found for everything in a graph with planned views, its imports are complete exactly when
constraints and views mention nothing of other namespaces that the signatures do not. -/
theorem importsComplete_iff {types : List TypeSymbol} {aliases : List Alias} {g a : SymbolGraph}
    {settings : NameSettings} (hbuild : build types aliases = .ok g) (ha : g.Analyzed a)
    (hrun : (a.planViews.1.reserveNames (.empty settings)).failure = none) :
    a.planViews.1.ImportsComplete (a.planViews.1.reserveNames (.empty settings)).ledger ↔
      a.planViews.1.MarginsCovered := by
  refine importsComplete_iff_of_consistent ?_ hrun
  exact (ha.consistent (consistent_of_build hbuild)).mapTypes (fun t => ViewPlan.applyTo_id _ t)
    fun t => TypeSymbol.memberIds_applyTo _ t

/-- A generic type whose parameter has to be an interface of another namespace, and which has a property of it. -/
def frames : List TypeSymbol := [
  (Gallery.draft "Lib.IShape" .interface).type,
  { (Gallery.draft "App.Frame`1" .classType |>.property "Shape" (Gallery.app "Lib" "IShape") id).type with
    typeParameters := [⟨"T", 0, [Gallery.app "Lib" "IShape"]⟩] }]

theorem importsComplete_of_frames :
    ∃ g, build frames [] = .ok g ∧ (g.planViews.1.reserveNames (.empty .default)).failure = none ∧
      g.planViews.1.MarginsCovered ∧
      g.planViews.1.ImportsComplete (g.planViews.1.reserveNames (.empty .default)).ledger := by
  have hrun : (build frames []).toOption.any (fun g =>
      (g.planViews.1.reserveNames (.empty .default)).failure.isNone && g.planViews.1.MarginsCovered) = true := by
    simp only [build, sortTypes, settle_eq, sortAliases, planViews, TypeSymbol.planViews, sortMembers, reserveNames,
      NamingStep.plan, NamingStep.ofMembers, NamingStep.surfaceMembers, mergeSort_eq_sortTo]
    decide +kernel
  obtain ⟨g, hbuild, hrun⟩ := exists_of_any hrun
  simp only [Bool.and_eq_true, decide_eq_true_eq, Option.isNone_iff_eq_none] at hrun
  exact ⟨g, hbuild, hrun.1, hrun.2, (importsComplete_iff hbuild .refl hrun.1).2 hrun.2⟩

/-- A generic type that mentions three interfaces of another namespace, each in one place only: as what its parameter
has to be, as what that of a method has to be, and as the interface that a method implements explicitly. -/
def crossing : List TypeSymbol :=
  let paint : Method := ⟨.declared (.of "app" "App.Box`1" "Paint" "()") 1, [⟨"U", 0, [Gallery.app "Lib" "IColor"]⟩],
    [], Gallery.system "Void", false, false⟩
  let box := Gallery.draft "App.Box`1" .classType
    |>.explicitMethod (Gallery.app "Lib" "IView") "Show" (Gallery.system "Void")
    |>.declare fun m => { m with methods := m.methods ++ [paint] }
  [(Gallery.draft "Lib.IShape" .interface).type, (Gallery.draft "Lib.IColor" .interface).type,
    (Gallery.draft "Lib.IView" .interface).type,
    { box.type with typeParameters := [⟨"T", 0, [Gallery.app "Lib" "IShape"]⟩] }]

/-- None of the three is imported. -/
theorem not_imported_of_crossing :
    ∃ g, build crossing [] = .ok g ∧ (g.planViews.1.reserveNames (.empty .default)).failure = none ∧
      ∃ t ∈ g.planViews.1.types, t.namespace = "App" ∧
        ∀ name ∈ ["Lib.IShape", "Lib.IColor", "Lib.IView"], ∃ u ∈ g.planViews.1.types, u.id = ⟨"app", name⟩ ∧
          u.namespace = "Lib" ∧ t.DeclarationMentions u.id ∧
          ¬Imported (g.planViews.1.reserveNames (.empty .default)).ledger "App" u.id := by
  have hrun : (build crossing []).toOption.any (fun g =>
      (g.planViews.1.reserveNames (.empty .default)).failure.isNone &&
        decide (∃ t ∈ g.planViews.1.types, t.namespace = "App" ∧
          ∀ name ∈ ["Lib.IShape", "Lib.IColor", "Lib.IView"], ∃ u ∈ g.planViews.1.types, u.id = ⟨"app", name⟩ ∧
            u.namespace = "Lib" ∧ t.MarginMentions u.id ∧
            ¬Imported (g.planViews.1.reserveNames (.empty .default)).ledger "App" u.id)) = true := by
    simp only [build, sortTypes, settle_eq, sortAliases, planViews, TypeSymbol.planViews, sortMembers, reserveNames,
      NamingStep.plan, NamingStep.ofMembers, NamingStep.surfaceMembers, mergeSort_eq_sortTo]
    decide +kernel
  obtain ⟨g, hbuild, hrun⟩ := exists_of_any hrun
  simp only [Bool.and_eq_true, decide_eq_true_eq, Option.isNone_iff_eq_none] at hrun
  obtain ⟨hnamed, t, ht, hname, hall⟩ := hrun
  refine ⟨g, hbuild, hnamed, t, ht, hname, fun name hmem => ?_⟩
  obtain ⟨u, hu, hid, hlib, hmargin, himported⟩ := hall name hmem
  exact ⟨u, hu, hid, hlib, .inr hmargin, himported⟩

end SymbolGraph

end Exonym
