import Exonym.Proofs.Naming.Run
import Exonym.Proofs.Pipeline.Stages

/-!
# Which steps a plan has

A step of a plan is for a type, a member on a surface, the accessor of a view, a member of a view, or an import. In a
graph with planned views the symbol and the scope of a step determine its overload group, for no member is in one scope
for two reasons.

Main statements:

* `NamingStep.mem_plan_iff`: which steps a plan has.
* `NamingStep.eq_ofMember`, `NamingStep.group_of_viewed`: the steps for a member on a surface and in a view.
* `SymbolGraph.decided_of_surface`, `SymbolGraph.decided_of_viewed`: the decisions about members after a run that did
  not fail.
-/

namespace Exonym

@[simp] theorem Surface.of_inj {a b : Bool} : Surface.of a = Surface.of b ↔ a = b := by
  cases a <;> cases b <;> decide

@[simp] theorem SymbolId.same_member {a b : MemberId} : (SymbolId.member a).same (.member b) = a.same b := by
  simp [SymbolId.same, SymbolId.bare, MemberId.same]

@[simp] theorem SymbolId.same_type {a b : TypeId} : (SymbolId.type a).same (.type b) = decide (a = b) := by
  simp [SymbolId.same, SymbolId.bare]

namespace NamingStep

/-- The overload group of a member on a surface. -/
def surfaceGroup : MemberKind → MemberInfo → Option String
  | .constructor, _ => some "ctor"
  | .method, info => some (methodGroup info)
  | .property, _ | .field, _ | .event, _ => none

/-- The overload group of a member in a view. -/
def viewGroup (kind : MemberKind) (info : MemberInfo) : Option String :=
  if kind = .method then some (methodGroup info) else none

theorem methodGroup_inj {a b : MemberInfo} : methodGroup a = methodGroup b ↔ a.name = b.name := by
  simp [methodGroup, String.append_right_inj]

theorem methodGroup_ne_ctor (info : MemberInfo) : methodGroup info ≠ "ctor" := by
  intro h
  have hfirst := congrArg (fun s => s.toList.head?) h
  simp [methodGroup] at hfirst

/-- Why a graph needs a name. -/
inductive Reason (g : SymbolGraph) : NamingStep → Prop
  | type {t : TypeSymbol} {s : NamingStep} : t ∈ g.types → s ∈ ofType t → Reason g s
  | surface {t : TypeSymbol} {x : MemberKind × MemberInfo} : t ∈ g.types → x ∈ t.members.infos →
      x.2.onPrimarySurface = true → Reason g (ofMember t x.1 x.2)
  | accessor {t : TypeSymbol} {v : View} : t ∈ g.types → v ∈ t.views → Reason g (ofAccessor t v)
  | viewed {t : TypeSymbol} {v : View} {id : MemberId} {x : MemberKind × MemberInfo} : t ∈ g.types → v ∈ t.views →
      id ∈ v.members → t.members.find? id = some x → Reason g (ofViewMember t v id x.1 x.2)
  | «import» {ns : Namespace} {s : NamingStep} : ns ∈ g.namespaces → s ∈ ofImports g ns → Reason g s

/-- The steps of a plan are those that there is a reason for. -/
theorem mem_plan_iff {g : SymbolGraph} {s : NamingStep} : s ∈ plan g ↔ Reason g s := by
  simp only [plan, List.mem_append, List.mem_flatMap, ofMembers, surfaceMembers, List.mem_map, List.mem_mergeSort,
    List.mem_filter, ofView, List.mem_cons, List.mem_filterMap, Option.map_eq_some_iff]
  constructor
  · rintro ((⟨t, ht, hs⟩ | ⟨t, ht, ⟨x, ⟨hx, hp⟩, rfl⟩ | ⟨v, hv, rfl | ⟨id, hid, x, hf, rfl⟩⟩⟩) | ⟨ns, hns, hs⟩)
    · exact .type ht hs
    · exact .surface ht hx hp
    · exact .accessor ht hv
    · exact .viewed ht hv hid hf
    · exact .import hns hs
  · intro h
    cases h with
    | type ht hs => exact .inl (.inl ⟨_, ht, hs⟩)
    | surface ht hx hp => exact .inl (.inr ⟨_, ht, .inl ⟨_, ⟨hx, hp⟩, rfl⟩⟩)
    | accessor ht hv => exact .inl (.inr ⟨_, ht, .inr ⟨_, hv, .inl rfl⟩⟩)
    | viewed ht hv hid hf => exact .inl (.inr ⟨_, ht, .inr ⟨_, hv, .inr ⟨_, hid, _, hf, rfl⟩⟩⟩)
    | «import» hns hs => exact .inr ⟨_, hns, hs⟩

/-! ## What steps are for -/

theorem subject_ofMember (t : TypeSymbol) (kind : MemberKind) (info : MemberInfo) :
    (ofMember t kind info).subject = .member info.id := by
  cases kind <;> rfl

theorem scope_ofMember (t : TypeSymbol) (kind : MemberKind) (info : MemberInfo) :
    (ofMember t kind info).scope = .ofSurface t.id info.isStatic := by
  cases kind <;> rfl

theorem group_ofMember (t : TypeSymbol) (kind : MemberKind) (info : MemberInfo) :
    (ofMember t kind info).group = surfaceGroup kind info := by
  cases kind <;> rfl

/-- A type asks for its name in a scope of its namespace. -/
theorem eq_of_mem_ofType {t : TypeSymbol} {s : NamingStep} (h : s ∈ ofType t) : ∃ isInternal reason,
    s = .fixed { Request.of (.type t.id) t.baseName (.namespace t.namespace isInternal) with reason := reason } := by
  unfold ofType at h
  split at h
  · simp only [List.mem_cons, List.not_mem_nil, or_false] at h
    rcases h with rfl | rfl
    · exact ⟨true, _, rfl⟩
    · exact ⟨false, _, rfl⟩
  · obtain rfl := List.mem_singleton.1 h
    exact ⟨true, _, rfl⟩

/-- Names of types are given in the scopes of namespaces, to no group. -/
theorem of_mem_ofType {t : TypeSymbol} {s : NamingStep} (h : s ∈ ofType t) :
    s.subject = .type t.id ∧ (∃ isInternal, s.scope = .namespace t.namespace isInternal) ∧ s.group = none := by
  obtain ⟨isInternal, reason, rfl⟩ := eq_of_mem_ofType h
  exact ⟨rfl, ⟨isInternal, rfl⟩, rfl⟩

/-- A namespace renames its own types, and those of others that it refers to. -/
theorem eq_of_mem_ofImports {g : SymbolGraph} {ns : Namespace} {s : NamingStep} (h : s ∈ ofImports g ns) :
    ∃ id reason, s = .renamed id (.imports ns.name) reason ∧ (id ∈ ns.types ∨ id ∈ foreignTypes g ns) := by
  unfold ofImports at h
  split at h
  · simp at h
  · rcases List.mem_append.1 h with h | h <;> obtain ⟨id, hid, rfl⟩ := List.mem_map.1 h
    · exact ⟨id, _, rfl, .inl hid⟩
    · exact ⟨id, _, rfl, .inr hid⟩

theorem of_mem_ofImports {g : SymbolGraph} {ns : Namespace} {s : NamingStep} (h : s ∈ ofImports g ns) :
    s.scope = .imports ns.name ∧ s.group = none ∧ s.verbatim = true := by
  obtain ⟨id, reason, rfl, -⟩ := eq_of_mem_ofImports h
  exact ⟨rfl, rfl, rfl⟩

section Planned

variable {g : SymbolGraph} {s : NamingStep} {t : TypeSymbol} {x : MemberKind × MemberInfo}

/-- An accessor is no declared member. -/
theorem not_same_accessorId (hg : g.Planned) {u : TypeSymbol} (hu : u ∈ g.types) {v : View} (hv : v ∈ u.views)
    (ht : t ∈ g.types) (hx : x ∈ t.members.infos) : v.accessorId.same x.2.id = false := by
  by_contra hsame
  rw [Bool.not_eq_false, (hg.views u hu).accessor v hv] at hsame
  refine hg.signatures t ht x.2.id (List.mem_map_of_mem hx) ?_
  exact (View.hasViewSignature_accessorIdFor _ _ _).congr hsame

/-- In the scope of a surface a member is named only for being on it. -/
theorem eq_ofMember (hg : g.Planned) (hs : s ∈ plan g) (ht : t ∈ g.types) (hx : x ∈ t.members.infos)
    {isStatic : Bool} (hscope : s.scope = .ofSurface t.id isStatic)
    (hsubject : s.subject.same (.member x.2.id) = true) :
    s = ofMember t x.1 x.2 ∧ x.2.onPrimarySurface = true := by
  cases mem_plan_iff.1 hs with
  | type hu hmem =>
    obtain ⟨-, ⟨_, h⟩, -⟩ := of_mem_ofType hmem
    rw [h] at hscope
    cases hscope
  | surface hu hy hp =>
    rename_i u y
    rw [scope_ofMember] at hscope
    rw [subject_ofMember, SymbolId.same_member] at hsubject
    obtain rfl := hg.consistent.eq_of_id hu ht (Scope.type.inj hscope).1
    obtain rfl := (hg.consistent.members u hu).eq_of_same hy hx hsubject
    exact ⟨rfl, hp⟩
  | accessor hu hv =>
    -- no member of a graph is an accessor that the planning of views has made
    have := not_same_accessorId hg hu hv ht hx
    rw [← SymbolId.same_member] at this
    exact absurd (this.symm.trans hsubject) (by simp)
  | viewed hu hv hid hf => cases hscope
  | «import» hns hmem =>
    rw [(of_mem_ofImports hmem).1] at hscope
    cases hscope

/-- In the scope of a view a member is named only for being listed by it. -/
theorem group_of_viewed (hg : g.Planned) (hs : s ∈ plan g) (ht : t ∈ g.types) (hx : x ∈ t.members.infos)
    {interfaceId : TypeId} {isStatic : Bool} (hscope : s.scope = .ofView t.id interfaceId isStatic)
    (hsubject : s.subject.same (.member x.2.id) = true) : s.group = viewGroup x.1 x.2 := by
  cases mem_plan_iff.1 hs with
  | type hu hmem =>
    obtain ⟨-, ⟨_, h⟩, -⟩ := of_mem_ofType hmem
    rw [h] at hscope
    cases hscope
  | surface hu hy hp =>
    rw [scope_ofMember] at hscope
    cases hscope
  | accessor hu hv => cases hscope
  | viewed hu hv hid hf =>
    rename_i u v id y
    obtain ⟨hy, hyid⟩ := Members.mem_of_find? hf
    obtain rfl := hg.consistent.eq_of_id hu ht (Scope.view.inj hscope).1
    have hsame : y.2.id.same x.2.id = true := by
      rw [MemberId.same_congr hyid, ← SymbolId.same_member]
      exact hsubject
    obtain rfl := (hg.consistent.members u hu).eq_of_same hy hx hsame
    rfl
  | «import» hns hmem =>
    rw [(of_mem_ofImports hmem).1] at hscope
    cases hscope

theorem group_of_accessor (hg : g.Planned) (hs : s ∈ plan g) (ht : t ∈ g.types) {v : View} (hv : v ∈ t.views)
    {isStatic : Bool} (hscope : s.scope = .ofSurface t.id isStatic)
    (hsubject : s.subject.same (.member v.accessorId) = true) : s.group = none := by
  cases mem_plan_iff.1 hs with
  | type hu hmem => exact (of_mem_ofType hmem).2.2
  | surface hu hy hp =>
    have := not_same_accessorId hg ht hv hu hy
    rw [subject_ofMember, SymbolId.same_member, MemberId.same_comm] at hsubject
    exact absurd (this.symm.trans hsubject) (by simp)
  | accessor hu hw => rfl
  | viewed hu hw hid hf => cases hscope
  | «import» hns hmem => exact (of_mem_ofImports hmem).2.1

/-- In the scopes of namespaces there are steps for types only. -/
theorem exists_mem_ofType (hs : s ∈ plan g) {name : String} {isInternal : Bool}
    (hscope : s.scope = .namespace name isInternal) : ∃ t ∈ g.types, s ∈ ofType t := by
  cases mem_plan_iff.1 hs with
  | type hu hmem => exact ⟨_, hu, hmem⟩
  | surface hu hy hp =>
    rw [scope_ofMember] at hscope
    cases hscope
  | accessor hu hv => cases hscope
  | viewed hu hv hid hf => cases hscope
  | «import» hns hmem =>
    rw [(of_mem_ofImports hmem).1] at hscope
    cases hscope

theorem group_of_type (hs : s ∈ plan g) {name : String} {isInternal : Bool}
    (hscope : s.scope = .namespace name isInternal) : s.group = none := by
  obtain ⟨t, -, hmem⟩ := exists_mem_ofType hs hscope
  exact (of_mem_ofType hmem).2.2

end Planned

end NamingStep

/-! ## Decisions about the symbols of a graph -/

namespace SymbolGraph

section Decided

variable {g : SymbolGraph} {settings : NameSettings} {t : TypeSymbol} {x : MemberKind × MemberInfo}

theorem coherent_reserveNames (g : SymbolGraph) (settings : NameSettings) :
    (g.reserveNames (.empty settings)).ledger.Coherent :=
  NamingRun.coherent_run (Ledger.coherent_empty settings) _

/-- Every reason leaves a decision, made by a step that is for the same symbol and scope. -/
theorem decided_of_reason (hrun : (g.reserveNames (.empty settings)).failure = none) {s : NamingStep}
    (hs : NamingStep.Reason g s) :
    ∃ d ∈ (g.reserveNames (.empty settings)).ledger.decisions, d.scope = s.scope ∧ d.id.same s.subject = true ∧
      ∃ s' ∈ NamingStep.plan g, s'.scope = s.scope ∧ s'.subject.same s.subject = true ∧ d.group = s'.group := by
  obtain ⟨d, hd, hscope, hid⟩ := NamingRun.decided_of_run hrun s (NamingStep.mem_plan_iff.2 hs)
  obtain ⟨s', hs', hid', hscope', hgroup⟩ := NamingRun.origin_of_run hd
  exact ⟨d, hd, hscope, hid, s', hs', by rw [← hscope', hscope], by rw [← hid', hid], hgroup⟩

theorem decided_of_surface (hg : g.Planned) (hrun : (g.reserveNames (.empty settings)).failure = none)
    (ht : t ∈ g.types) (hx : x ∈ t.members.infos) (hp : x.2.onPrimarySurface = true) :
    ∃ d ∈ (g.reserveNames (.empty settings)).ledger.decisions, d.scope = .ofSurface t.id x.2.isStatic ∧
      d.id.same (.member x.2.id) = true ∧ d.group = NamingStep.surfaceGroup x.1 x.2 := by
  obtain ⟨d, hd, hscope, hid, s, hs, hsscope, hsid, hgroup⟩ := decided_of_reason hrun (.surface ht hx hp)
  rw [NamingStep.scope_ofMember] at hscope hsscope
  rw [NamingStep.subject_ofMember] at hid hsid
  refine ⟨d, hd, hscope, hid, ?_⟩
  rw [hgroup, (NamingStep.eq_ofMember hg hs ht hx hsscope hsid).1, NamingStep.group_ofMember]

theorem decided_of_viewed (hg : g.Planned) (hrun : (g.reserveNames (.empty settings)).failure = none)
    (ht : t ∈ g.types) (hx : x ∈ t.members.infos) {v : View} (hv : v ∈ t.views) (hvx : v.holds x.2.id = true) :
    ∃ d ∈ (g.reserveNames (.empty settings)).ledger.decisions, d.scope = .ofView t.id v.interfaceId x.2.isStatic ∧
      d.id.same (.member x.2.id) = true ∧ d.group = NamingStep.viewGroup x.1 x.2 := by
  obtain ⟨id, hid, hsame⟩ := List.any_eq_true.1 hvx
  have hfind : t.members.find? id = some x :=
    (hg.consistent.members t ht).find?_eq hx (by rw [MemberId.same_comm, hsame])
  obtain ⟨d, hd, hscope, hdid, s, hs, hsscope, hsid, hgroup⟩ := decided_of_reason hrun (.viewed ht hv hid hfind)
  have hsubject : ∀ other : SymbolId, other.same (.member id) = true → other.same (.member x.2.id) = true := by
    intro other ho
    rw [SymbolId.same_iff] at ho ⊢
    rw [ho]
    exact SymbolId.same_iff.1 (SymbolId.same_member.trans hsame)
  exact ⟨d, hd, hscope, hsubject _ hdid,
    hgroup.trans (NamingStep.group_of_viewed hg hs ht hx hsscope (hsubject _ hsid))⟩

theorem decided_of_accessor (hg : g.Planned) (hrun : (g.reserveNames (.empty settings)).failure = none)
    (ht : t ∈ g.types) {v : View} (hv : v ∈ t.views) :
    ∃ d ∈ (g.reserveNames (.empty settings)).ledger.decisions, d.scope = .ofSurface t.id false ∧
      d.id.same (.member v.accessorId) = true ∧ d.group = none := by
  obtain ⟨d, hd, hscope, hid, s, hs, hsscope, hsid, hgroup⟩ := decided_of_reason hrun (.accessor ht hv)
  exact ⟨d, hd, hscope, hid, hgroup.trans (NamingStep.group_of_accessor hg hs ht hv hsscope hsid)⟩

theorem decided_of_type (hrun : (g.reserveNames (.empty settings)).failure = none) (ht : t ∈ g.types) :
    ∃ d ∈ (g.reserveNames (.empty settings)).ledger.decisions, d.scope = .internal t.namespace ∧
      d.id.same (.type t.id) = true ∧ d.group = none := by
  obtain ⟨r, hr, hrid, -, hrscope⟩ := NamingStep.mem_plan_type ht
  obtain ⟨d, hd, hscope, hid, s, hs, hsscope, -, hgroup⟩ := decided_of_reason hrun (NamingStep.mem_plan_iff.1 hr)
  refine ⟨d, hd, hscope.trans hrscope, by rw [← hrid]; exact hid, ?_⟩
  exact hgroup.trans (NamingStep.group_of_type hs (hsscope.trans hrscope))

end Decided

end SymbolGraph

end Exonym
