import Exonym.Proofs.Hierarchy.Synthesized
import Exonym.Proofs.TypeRef.Owners

/-!
# A base says what its type says

The members of a base are those that its type offers itself on its surface, in their order. What they refer to is what
the type refers to, with generic parameters moved to the base, and to the method on the base: when the parameters are
moved back, the references are those of the type again. And everything is moved: no parameter in the base belongs to
the type, and none in a method of the base to the method that it was made from, however deep in constraints it stands.

Main statements:

* `Diamond.same_homing_rehoming`, `Diamond.same_homingOf_rehomingOf`: moving to the base and back.
* `Diamond.references_members`: a base refers to what its type parameters and its members refer to.
* `Diamond.faithful_synthesize`: a base is faithful to its type.
-/

namespace Exonym

/-! ## The references in a declaration -/

namespace Method

def references (x : Method) : List TypeRef :=
  x.info.explicitInterface.toList ++ x.typeParameters.flatMap (·.constraints) ++ x.parameters.map (·.type) ++
    [x.returnType]

end Method

namespace Property

def references (x : Property) : List TypeRef :=
  x.info.explicitInterface.toList ++ x.type :: x.indexParameters.map (·.type)

end Property

namespace Field

def references (x : Field) : List TypeRef :=
  x.info.explicitInterface.toList ++ [x.type]

end Field

namespace Event

def references (x : Event) : List TypeRef :=
  x.info.explicitInterface.toList ++ [x.handlerType]

end Event

namespace Constructor

def references (x : Constructor) : List TypeRef :=
  x.info.explicitInterface.toList ++ x.parameters.map (·.type)

end Constructor

def Members.references (m : Members) : List TypeRef :=
  m.methods.flatMap Method.references ++ m.properties.flatMap Property.references ++
    m.fields.flatMap Field.references ++ m.events.flatMap Event.references ++
    m.constructors.flatMap Constructor.references

namespace TypeSymbol

/-- All references in the declaration of a type and of its members, and the interfaces of its views. -/
def references (t : TypeSymbol) : List TypeRef :=
  t.typeParameters.flatMap (·.constraints) ++ t.baseType.toList ++ t.interfaces ++ t.members.references ++
    t.views.map (·.interface)

/-- Whom the parameters that occur in the declaration of a type belong to. -/
def owners (t : TypeSymbol) : List SymbolId :=
  t.references.flatMap TypeRef.owners

end TypeSymbol

namespace MemberInfo

/-- The type declares the member itself, for all to use on its instances. -/
def Offered (info : MemberInfo) : Prop :=
  info.accessibility = .public ∧ info.provenance = .declared ∧ info.explicitInterface = none ∧
    info.isStatic = false ∧ info.placement = .classSurface

instance (info : MemberInfo) : Decidable info.Offered :=
  inferInstanceAs (Decidable (_ ∧ _))

end MemberInfo

namespace Diamond

theorem carries_eq (info : MemberInfo) : carries info = decide info.Offered := by
  rw [Bool.eq_iff_iff, decide_eq_true_iff]
  simp only [carries, MemberInfo.Offered, MemberInfo.isExplicit, Accessibility.isPublic, Bool.and_eq_true,
    decide_eq_true_eq, Bool.not_eq_true', Option.isSome_eq_false_iff, Option.isNone_iff_eq_none]
  grind

/-! ## Moving parameters to a base and back -/

theorem baseId_ne (id : TypeId) : baseId id ≠ id := by
  intro h
  have hlength : (baseChars id.fullName.toList).length = id.fullName.toList.length := by
    rw [← toList_fullName_baseId, h]
  obtain ⟨head, arity, hname, -, -, hbase⟩ | hbase := baseChars_cases id.fullName.toList
  · rw [hbase, hname] at hlength
    simp at hlength
    omega
  · rw [hbase] at hlength
    simp at hlength

/-- From a type to its base. -/
def rehoming (t : TypeSymbol) : Rehoming :=
  Rehoming.empty.insert t.owner (.type (baseId t.id))

/-- From the base of a type back to the type. -/
def homing (t : TypeSymbol) : Rehoming :=
  Rehoming.empty.insert (.type (baseId t.id)) t.owner

/-- From a method to the one in the base. -/
def rehomingOf (t : TypeSymbol) (id : MemberId) : Rehoming :=
  (rehoming t).insert (.member id) (.member (id.rebased (baseId t.id)))

/-- From the method in the base back to the one it was made from. -/
def homingOf (t : TypeSymbol) (id : MemberId) : Rehoming :=
  (homing t).insert (.member (id.rebased (baseId t.id))) (.member id)

variable {t : TypeSymbol} {o : SymbolId} {id : MemberId} {r : TypeRef}

theorem owner_homing_rehoming (ho : o.home ≠ baseId t.id) :
    ((homing t).owner ((rehoming t).owner o)).same o = true :=
  Rehoming.owner_insert_insert (by simp) (SymbolId.same_eq_false_of_home (Ne.symm ho))

theorem owner_homingOf_rehomingOf (ho : o.home ≠ baseId t.id) :
    ((homingOf t id).owner ((rehomingOf t id).owner o)).same o = true := by
  refine Rehoming.owner_insert_insert (owner_homing_rehoming ho) ?_
  rw [rehoming, Rehoming.owner_insert]
  split
  · rfl
  · exact SymbolId.same_eq_false_of_home (Ne.symm ho)

theorem same_homing_rehoming (hr : ∀ o ∈ r.owners, o.home ≠ baseId t.id) :
    ((homing t).apply ((rehoming t).apply r)).same r = true :=
  Rehoming.same_apply_apply fun o ho => owner_homing_rehoming (hr o ho)

theorem same_homingOf_rehomingOf (hr : ∀ o ∈ r.owners, o.home ≠ baseId t.id) :
    ((homingOf t id).apply ((rehomingOf t id).apply r)).same r = true :=
  Rehoming.same_apply_apply fun o ho => owner_homingOf_rehomingOf (hr o ho)

theorem rehoming_leaves (t : TypeSymbol) : (rehoming t).Leaves t.owner :=
  Rehoming.leaves_insert_self (SymbolId.same_eq_false_of_home (baseId_ne t.id)) fun _ ho => ho

theorem rehomingOf_leaves (t : TypeSymbol) (id : MemberId) : (rehomingOf t id).Leaves t.owner :=
  (rehoming_leaves t).insert (SymbolId.same_eq_false_of_home (baseId_ne t.id))

theorem rehomingOf_leaves_member (hid : id.declaringTypeId = t.id) : (rehomingOf t id).Leaves (.member id) := by
  refine Rehoming.leaves_insert_self (SymbolId.same_eq_false_of_home ?_) fun o ho => ?_
  · change baseId t.id ≠ id.declaringTypeId
    rw [hid]
    exact baseId_ne t.id
  · rw [rehoming, Rehoming.owner_insert]
    split
    · rfl
    · exact ho

/-! ## What is made of members -/

/-- The reference is that of the type when its parameters are moved back. -/
def Restores (back : Rehoming) (original made : TypeRef) : Prop :=
  (back.apply made).same original = true

structure RestoresTypeParameter (back : Rehoming) (original made : TypeParameter) : Prop where
  name : made.name = original.name
  position : made.position = original.position
  constraints : List.Forall₂ (Restores back) original.constraints made.constraints

structure RestoresParameter (back : Rehoming) (original made : Parameter) : Prop where
  name : made.name = original.name
  passing : made.passing = original.passing
  isOptional : made.isOptional = original.isOptional
  type : Restores back original.type made.type

structure KeepsName (original made : MemberInfo) : Prop where
  name : made.name = original.name
  idName : made.id.name = original.id.name
  signature : made.id.signature = original.id.signature

/-- A method of the base, in which nothing belongs to the method that it was made from. -/
structure RestoresMethod (t : TypeSymbol) (original made : Method) : Prop where
  info : KeepsName original.info made.info
  id : made.info.id = original.info.id.rebased (baseId t.id)
  typeParameters : List.Forall₂ (RestoresTypeParameter (homingOf t original.info.id)) original.typeParameters
    made.typeParameters
  parameters : List.Forall₂ (RestoresParameter (homingOf t original.info.id)) original.parameters made.parameters
  returnType : Restores (homingOf t original.info.id) original.returnType made.returnType
  moved : ∀ o ∈ made.references.flatMap TypeRef.owners, o.same (.member original.info.id) = false

structure RestoresProperty (back : Rehoming) (original made : Property) : Prop where
  info : KeepsName original.info made.info
  type : Restores back original.type made.type
  indexParameters : List.Forall₂ (RestoresParameter back) original.indexParameters made.indexParameters
  hasGetter : made.hasGetter = original.hasGetter
  hasSetter : made.hasSetter = original.hasSetter

/-- A property that was made from a field. -/
structure RestoresField (back : Rehoming) (original : Field) (made : Property) : Prop where
  info : KeepsName original.info made.info
  type : Restores back original.type made.type
  indexParameters : made.indexParameters = []

structure RestoresEvent (back : Rehoming) (original made : Event) : Prop where
  info : KeepsName original.info made.info
  handlerType : Restores back original.handlerType made.handlerType

/-- The base carries what the type offers, in order, and no parameter in it belongs to the type. -/
structure Faithful (t base : TypeSymbol) : Prop where
  typeParameters : List.Forall₂ (RestoresTypeParameter (homing t)) t.typeParameters base.typeParameters
  methods : List.Forall₂ (RestoresMethod t) (t.members.methods.filter (·.info.Offered)) base.members.methods
  properties : ∃ properties fields, base.members.properties = properties ++ fields ∧
    List.Forall₂ (RestoresProperty (homing t)) (t.members.properties.filter (·.info.Offered)) properties ∧
    List.Forall₂ (RestoresField (homing t)) (t.members.fields.filter (·.info.Offered)) fields
  events : List.Forall₂ (RestoresEvent (homing t)) (t.members.events.filter (·.info.Offered)) base.members.events
  fields : base.members.fields = []
  constructors : base.members.constructors = []
  moved : ∀ o ∈ base.owners, o.same t.owner = false

section Lists

variable {m back : Rehoming}

theorem restores_applyAll {rs : List TypeRef} (h : ∀ r ∈ rs, Restores back r (m.apply r)) :
    List.Forall₂ (Restores back) rs (m.applyAll rs) := by
  rw [Rehoming.applyAll_eq, List.forall₂_map_right_iff, List.forall₂_same]
  exact h

theorem restores_typeParameters {ps : List TypeParameter}
    (h : ∀ r ∈ ps.flatMap (·.constraints), Restores back r (m.apply r)) :
    List.Forall₂ (RestoresTypeParameter back) ps (rehomeTypeParameters m ps) := by
  rw [rehomeTypeParameters, List.forall₂_map_right_iff, List.forall₂_same]
  exact fun p hp => ⟨rfl, rfl, restores_applyAll fun r hr => h r (List.mem_flatMap_of_mem hp hr)⟩

theorem restores_parameters {ps : List Parameter} (h : ∀ r ∈ ps.map (·.type), Restores back r (m.apply r)) :
    List.Forall₂ (RestoresParameter back) ps (rehomeParameters m ps) := by
  rw [rehomeParameters, List.forall₂_map_right_iff, List.forall₂_same]
  exact fun p hp => ⟨rfl, rfl, rfl, h _ (List.mem_map_of_mem hp)⟩

theorem constraints_rehomeTypeParameters (m : Rehoming) (ps : List TypeParameter) :
    (rehomeTypeParameters m ps).flatMap (·.constraints) = (ps.flatMap (·.constraints)).map m.apply := by
  simp [rehomeTypeParameters, List.flatMap_map, List.map_flatMap, Rehoming.applyAll_eq]

theorem types_rehomeParameters (m : Rehoming) (ps : List Parameter) :
    (rehomeParameters m ps).map (·.type) = (ps.map (·.type)).map m.apply := by
  simp [rehomeParameters, Function.comp_def]

/-- The members of one kind in a base, each of them made from one that the type offers. -/
theorem forall₂_map_filter {α β : Type} {R : α → β → Prop} {f : α → β} {info : α → MemberInfo} {xs : List α}
    (h : ∀ x ∈ xs, (info x).Offered → R x (f x)) :
    List.Forall₂ R (xs.filter fun x => (info x).Offered) ((xs.filter fun x => carries (info x)).map f) := by
  simp only [carries_eq]
  rw [List.forall₂_map_right_iff, List.forall₂_same]
  intro x hx
  obtain ⟨hx, hoffered⟩ := List.mem_filter.1 hx
  exact h x hx (of_decide_eq_true hoffered)

theorem mem_map_filter {α β : Type} {f : α → β} {info : α → MemberInfo} {xs : List α} {y : β} :
    y ∈ (xs.filter fun x => carries (info x)).map f ↔ ∃ x ∈ xs, (info x).Offered ∧ f x = y := by
  simp [carries_eq, and_assoc]

end Lists

/-! ## The references in a base -/

theorem references_baseMethod {x : Method} (hx : x.info.Offered) :
    (baseMethod (baseId t.id) (rehoming t) x).references = x.references.map (rehomingOf t x.info.id).apply := by
  have hown := hx.2.2.1
  simp [Method.references, baseMethod, rehomeInfo, hown, constraints_rehomeTypeParameters, types_rehomeParameters,
    rehomingOf]

theorem references_baseProperty {x : Property} (hx : x.info.Offered) :
    (baseProperty (baseId t.id) (rehoming t) x).references = x.references.map (rehoming t).apply := by
  have hown := hx.2.2.1
  simp [Property.references, baseProperty, rehomeInfo, hown, types_rehomeParameters]

theorem references_propertyOfField {x : Field} (hx : x.info.Offered) :
    (propertyOfField (baseId t.id) (rehoming t) x).references = x.references.map (rehoming t).apply := by
  have hown := hx.2.2.1
  simp [Property.references, Field.references, propertyOfField, rehomeInfo, hown]

theorem references_baseEvent {x : Event} (hx : x.info.Offered) :
    (baseEvent (baseId t.id) (rehoming t) x).references = x.references.map (rehoming t).apply := by
  have hown := hx.2.2.1
  simp [Event.references, baseEvent, rehomeInfo, hown]

theorem references_members (kept : List TypeRef) : (synthesize t kept).base.references =
    (synthesize t kept).base.typeParameters.flatMap (·.constraints) ++ (synthesize t kept).base.members.references := by
  simp [TypeSymbol.references, synthesize, TypeSymbol.ofKind]

/-- Every reference in a base is one of the type, moved. -/
theorem exists_apply_of_mem_references {kept : List TypeRef} (hr : r ∈ (synthesize t kept).base.references) :
    ∃ (m : Rehoming) (original : TypeRef), m.Leaves t.owner ∧ m.apply original = r := by
  have hrehoming : ∀ {rs : List TypeRef}, r ∈ rs.map (rehoming t).apply →
      ∃ (m : Rehoming) (original : TypeRef), m.Leaves t.owner ∧ m.apply original = r := by
    intro rs hr
    obtain ⟨original, -, rfl⟩ := List.mem_map.1 hr
    exact ⟨rehoming t, original, rehoming_leaves t, rfl⟩
  rw [references_members] at hr
  rcases List.mem_append.1 hr with hr | hr
  · exact hrehoming (constraints_rehomeTypeParameters (rehoming t) t.typeParameters ▸ hr)
  · simp only [Members.references, List.mem_append, List.mem_flatMap, or_assoc] at hr
    rcases hr with ⟨y, hy, hr⟩ | ⟨y, hy, hr⟩ | ⟨y, hy, -⟩ | ⟨y, hy, hr⟩ | ⟨y, hy, -⟩
    · obtain ⟨x, -, hoffered, rfl⟩ := mem_map_filter.1 hy
      have hr : r ∈ (baseMethod (baseId t.id) (rehoming t) x).references := hr
      rw [references_baseMethod hoffered] at hr
      obtain ⟨original, -, rfl⟩ := List.mem_map.1 hr
      exact ⟨_, original, rehomingOf_leaves t x.info.id, rfl⟩
    · rcases List.mem_append.1 hy with hy | hy
      · obtain ⟨x, -, hoffered, rfl⟩ := mem_map_filter.1 hy
        exact hrehoming (references_baseProperty hoffered ▸ hr)
      · obtain ⟨x, -, hoffered, rfl⟩ := mem_map_filter.1 hy
        exact hrehoming (references_propertyOfField hoffered ▸ hr)
    · cases hy
    · obtain ⟨x, -, hoffered, rfl⟩ := mem_map_filter.1 hy
      exact hrehoming (references_baseEvent hoffered ▸ hr)
    · cases hy

/-! ## Members of a base and of its type -/

/-- No parameter in the references belongs to the base of the type, or to a member of it. -/
def Spared (t : TypeSymbol) (rs : List TypeRef) : Prop :=
  ∀ r ∈ rs, ∀ o ∈ r.owners, o.home ≠ baseId t.id

theorem restoresMethod {x : Method} (hx : x.info.Offered) (hid : x.info.id.declaringTypeId = t.id)
    (hspared : Spared t x.references) : RestoresMethod t x (baseMethod (baseId t.id) (rehoming t) x) where
  info := ⟨rfl, rfl, rfl⟩
  id := rfl
  typeParameters := restores_typeParameters fun r hr =>
    same_homingOf_rehomingOf (hspared r (by simp [Method.references]; grind))
  parameters := restores_parameters fun r hr =>
    same_homingOf_rehomingOf (hspared r (by simp [Method.references]; grind))
  returnType := same_homingOf_rehomingOf (hspared _ (by simp [Method.references]))
  moved := by
    intro o ho
    rw [references_baseMethod hx] at ho
    obtain ⟨r, hr, ho⟩ := List.mem_flatMap.1 ho
    obtain ⟨original, -, rfl⟩ := List.mem_map.1 hr
    exact (rehomingOf_leaves_member hid).owners_apply original o ho

theorem restoresProperty {x : Property} (hspared : Spared t x.references) :
    RestoresProperty (homing t) x (baseProperty (baseId t.id) (rehoming t) x) where
  info := ⟨rfl, rfl, rfl⟩
  type := same_homing_rehoming (hspared _ (by simp [Property.references]))
  indexParameters := restores_parameters fun r hr =>
    same_homing_rehoming (hspared r (by simp [Property.references]; grind))
  hasGetter := rfl
  hasSetter := rfl

theorem restoresField {x : Field} (hspared : Spared t x.references) :
    RestoresField (homing t) x (propertyOfField (baseId t.id) (rehoming t) x) where
  info := ⟨rfl, rfl, rfl⟩
  type := same_homing_rehoming (hspared _ (by simp [Field.references]))
  indexParameters := rfl

theorem restoresEvent {x : Event} (hspared : Spared t x.references) :
    RestoresEvent (homing t) x (baseEvent (baseId t.id) (rehoming t) x) where
  info := ⟨rfl, rfl, rfl⟩
  handlerType := same_homing_rehoming (hspared _ (by simp [Event.references]))

theorem Spared.members (h : Spared t t.references) :
    (∀ x ∈ t.members.methods, Spared t x.references) ∧ (∀ x ∈ t.members.properties, Spared t x.references) ∧
      (∀ x ∈ t.members.fields, Spared t x.references) ∧ ∀ x ∈ t.members.events, Spared t x.references := by
  refine ⟨?_, ?_, ?_, ?_⟩ <;> refine fun x hx r hr => h r ?_ <;>
    simp only [TypeSymbol.references, Members.references, List.mem_append, List.mem_flatMap] <;> grind

theorem faithful_of_ownsMembers (ho : t.OwnsMembers) (hspared : Spared t t.references) (kept : List TypeRef) :
    Faithful t (synthesize t kept).base where
  typeParameters := restores_typeParameters fun r hr =>
    same_homing_rehoming (hspared r (by simp only [TypeSymbol.references, List.mem_append]; grind))
  methods := by
    refine forall₂_map_filter fun x hx hoffered => restoresMethod hoffered (ho.owned _ ?_) (hspared.members.1 x hx)
    simp only [TypeSymbol.memberIds, Members.infos, List.map_append, List.map_map, List.mem_append]
    grind
  properties := ⟨_, _, rfl, forall₂_map_filter fun x hx _ => restoresProperty (hspared.members.2.1 x hx),
    forall₂_map_filter fun x hx _ => restoresField (hspared.members.2.2.1 x hx)⟩
  events := forall₂_map_filter fun x hx _ => restoresEvent (hspared.members.2.2.2 x hx)
  fields := rfl
  constructors := rfl
  moved := by
    intro o ho
    obtain ⟨r, hr, ho⟩ := List.mem_flatMap.1 ho
    obtain ⟨m, original, hm, rfl⟩ := exists_apply_of_mem_references hr
    exact hm.owners_apply original o ho

/-- The base of a type of a graph that was built is faithful, unless the type refers to parameters of the base. -/
theorem faithful_synthesize {types : List TypeSymbol} {aliases : List Alias} {g : SymbolGraph}
    (hbuild : SymbolGraph.build types aliases = .ok g) (ht : t ∈ g.types)
    (hspared : ∀ o ∈ t.owners, o.home ≠ baseId t.id) (kept : List TypeRef) : Faithful t (synthesize t kept).base :=
  faithful_of_ownsMembers ((SymbolGraph.consistent_of_build hbuild).members t ht)
    (fun _ hr o ho => hspared o (List.mem_flatMap_of_mem hr ho)) kept

/-- The parameter of a cell, whose values can be compared with each other. -/
def cellParameter : TypeRef :=
  .param ⟨.type ⟨"app", "App.Cell`1"⟩, 0⟩ "T"
    [.generic "core" "System" "IComparable" [Gallery.parameterOf "App.Cell`1"]]

/-- The identity of a generic method of a cell. -/
def convertId : MemberId :=
  .of "app" "App.Cell`1" "Convert" "(ref !0)"

/-- A cell with a field, and a method whose parameter is constrained by that of the cell. -/
def cell : TypeSymbol :=
  { TypeSymbol.ofKind ⟨"app", "App.Cell`1"⟩ .classType with
    typeParameters := [⟨"T", 0, [.generic "core" "System" "IComparable" [cellParameter]]⟩]
    members :=
      { methods := [
          { info := .declared convertId 0
            typeParameters := [⟨"U", 0, [Gallery.ofApp "IConvertible" cellParameter]⟩]
            parameters := [⟨"value", .byRef cellParameter, .ref, false⟩]
            returnType := .param ⟨.member convertId, 0⟩ "U" [Gallery.ofApp "IConvertible" cellParameter]
            isAbstract := false
            isVirtual := false }]
        properties := []
        fields := [⟨.declared (.of "app" "App.Cell`1" "Value" "") 1, cellParameter, false, false⟩]
        events := []
        constructors := [] } }

theorem faithful_synthesize_cell : ∃ g t, SymbolGraph.build [cell] [] = .ok g ∧ t ∈ g.types ∧
    (∀ o ∈ t.owners, o.home ≠ baseId t.id) ∧ t.owners.length = 11 ∧ Faithful t (synthesize t []).base := by
  have hrun : (SymbolGraph.build [cell] []).toOption.any (fun g => g.types.any fun t =>
      t.owners.all (·.home ≠ baseId t.id) && t.owners.length = 11) = true := by
    simp only [SymbolGraph.build, SymbolGraph.sortTypes, SymbolGraph.settle_eq, SymbolGraph.sortAliases,
      mergeSort_eq_sortTo]
    decide +kernel
  obtain ⟨g, hbuild, hrun⟩ := exists_of_any hrun
  obtain ⟨t, ht, hrun⟩ := List.any_eq_true.1 hrun
  obtain ⟨hspared, howners⟩ := Bool.and_eq_true_iff.1 hrun
  have hspared : ∀ o ∈ t.owners, o.home ≠ baseId t.id := by simpa using hspared
  exact ⟨g, t, hbuild, ht, hspared, of_decide_eq_true howners, faithful_synthesize hbuild ht hspared []⟩

end Diamond

end Exonym
