import Exonym.Proofs.Naming.Stamped
import Exonym.Sample.Gallery

/-!
# Naming comes to an end

Nothing is asked for in two ways: the steps of a plan are for different symbols or scopes, except that two views of a
type may have one accessor, which both ask for under one name. And an import is looked at after its type has a name. So
a run of a plan that stops early has run out of suffixes, and after one that does not stop early every name that
stamping looks up is there.

Main statements:

* `NamingRun.failure_of_run`: a run of compatible steps fails for want of a free name only.
* `NamingStep.pairwise_plan`: the steps of a plan are compatible.
* `SymbolGraph.exists_stampNames`: stamping succeeds after a run that did not fail.
* `SymbolGraph.suffixExhausted_or_stamped`: naming is total, up to the number of suffixes.
-/

namespace Exonym

/-- The error that is left when no free name is found for a request within the attempts allowed. -/
def NameError.IsExhaustion (e : NameError) (settings : NameSettings) : Prop :=
  ∃ scope base dump, e = .suffixExhausted scope base settings.maxSuffixAttempts dump

/-! ## Why requests are refused -/

namespace Ledger

variable {l : Ledger} {r : Request} {e : NameError}

theorem exhaustion_of_answer (h : l.answer r = .error e) : e.IsExhaustion l.settings := by
  obtain ⟨-, -, -, he⟩ := answer_eq_error_iff.1 h
  exact ⟨_, _, _, he⟩

theorem exhaustion_of_peek (h : l.peek r = .error e) : e.IsExhaustion l.settings := by
  unfold peek at h
  split at h
  · cases h
  · cases ha : l.answer r with
    | ok a => simp [ha, Except.map] at h
    | error cause =>
      obtain rfl : cause = e := by simpa [ha, Except.map] using h
      exact exhaustion_of_answer ha

/-- A request is refused for want of a free name, unless the symbol has a name that was asked for differently. -/
theorem exhaustion_of_reserve (h : l.reserve r = .error e)
    (hbase : ∀ d, l.decision? r.id r.scope = some d → d.requested = r.base) : e.IsExhaustion l.settings := by
  obtain ⟨d, hd, hother, -⟩ | ⟨-, ha⟩ := reserve_eq_error_iff.1 h
  · exact (hother (hbase d hd)).elim
  · exact exhaustion_of_answer ha

end Ledger

/-! ## Why runs fail -/

namespace NamingStep

/-- Two steps are for different symbols or scopes, or both make one and the same request for a name. -/
def Compatible (s s' : NamingStep) : Prop :=
  s.scope = s'.scope → s.subject.same s'.subject = true →
    ∃ r r' : Request, s = .fixed r ∧ s' = .fixed r' ∧ r.base = r'.base

/-- If the symbol of a step has a name in the scope, then it was asked for as the step asks for it. -/
def Agrees (l : Ledger) (s : NamingStep) : Prop :=
  ∀ d ∈ l.decisions, d.scope = s.scope → d.id.same s.subject = true → ∃ r : Request, s = .fixed r ∧ d.requested = r.base

/-- If a step imports a type, then the type has a name in its own namespace. -/
def Importable (l : Ledger) (s : NamingStep) : Prop :=
  ∀ id scope reason, s = .renamed id scope reason →
    ∃ name, l.finalName (.type id) (.internal id.namespace) = .ok name

end NamingStep

namespace Ledger

/-- A name that was found is found again after more decisions. -/
theorem finalName_append {l : Ledger} {id : SymbolId} {s : Scope} {name : String} (h : l.finalName id s = .ok name)
    (more : List Decision) : Ledger.finalName { l with decisions := l.decisions ++ more } id s = .ok name := by
  unfold finalName decision? at h ⊢
  rw [List.find?_append]
  split at h
  · rename_i d hd
    rw [hd]
    exact h
  · cases h

theorem exists_finalName {l : Ledger} {d : Decision} (hd : d ∈ l.decisions) {id : SymbolId} {s : Scope}
    (hscope : d.scope = s) (hid : d.id.same id = true) : ∃ name, l.finalName id s = .ok name := by
  unfold finalName
  cases h : l.decision? id s with
  | some e => exact ⟨e.finalName, rfl⟩
  | none => exact absurd (decision?_eq_none_iff.1 h d hd hscope) (by simp [hid])

end Ledger

namespace NamingRun

open NamingStep

variable {l : Ledger} {s s' : NamingStep} {steps : List NamingStep} {e : NameError}

theorem settings_step (l : Ledger) (s : NamingStep) : (step l s).ledger.settings = l.settings := by
  rcases step_cases l s with ⟨hledger, -⟩ | ⟨r, name, -, hg, -⟩
  · rw [hledger]
  · rcases Ledger.reserve_eq_ok_iff.1 hg with ⟨-, -, -, -, hledger⟩ | ⟨-, a, -, -, hledger⟩ <;> rw [hledger]

/-- A step that fails has found no free name. -/
theorem failure_of_step (hagrees : s.Agrees l) (himportable : s.Importable l) (h : (step l s).failure = some e) :
    e.IsExhaustion l.settings := by
  have hfailed : (s.request l >>= reserve l) = .error e := by
    unfold step at h
    split at h
    · cases h
    · rename_i cause hcause
      rw [hcause, Option.some.inj h]
  cases hr : s.request l with
  | ok r =>
    obtain ⟨hid, hscope, -, -⟩ := request_about hr
    cases hg : l.reserve r with
    | ok granted => simp [hr, reserve, hg, bind, Except.bind, pure, Except.pure] at hfailed
    | error cause =>
      obtain rfl : cause = e := by simpa [hr, reserve, hg, bind, Except.bind] using hfailed
      refine Ledger.exhaustion_of_reserve hg fun d hd => ?_
      obtain ⟨hmem, hdscope, hdid⟩ := Ledger.mem_of_decision? hd
      obtain ⟨q, rfl, hbase⟩ := hagrees d hmem (hdscope.trans hscope) (by rw [← hid]; exact hdid)
      obtain rfl : q = r := by simpa [request] using hr
      exact hbase
  | error cause =>
    obtain rfl : cause = e := by simpa [hr, bind, Except.bind] using hfailed
    cases s with
    | fixed r => cases hr
    | viewed surface r =>
      -- only trying the surface out can fail
      cases hp : l.peek surface with
      | ok name => simp [request, hp, bind, Except.bind, pure, Except.pure] at hr
      | error found =>
        obtain rfl : found = cause := by simpa [request, hp, bind, Except.bind] using hr
        exact Ledger.exhaustion_of_peek hp
    | renamed id scope reason =>
      obtain ⟨name, hname⟩ := himportable id scope reason rfl
      simp [request, hname, bind, Except.bind, pure, Except.pure] at hr

theorem agrees_of_step (hs' : s'.Agrees l) (hcompatible : s.Compatible s') : s'.Agrees (step l s).ledger := by
  rcases step_cases l s with ⟨hledger, -⟩ | ⟨r, name, hr, hg, -⟩
  · rwa [hledger]
  · rcases Ledger.reserve_eq_ok_iff.1 hg with ⟨-, -, -, -, hledger⟩ | ⟨hnew, a, -, -, hledger⟩
    · rwa [hledger]
    · rw [hledger]
      intro d hd hscope hid
      rcases List.mem_append.1 hd with hd | hd
      · exact hs' d hd hscope hid
      · obtain rfl := List.mem_singleton.1 hd
        obtain ⟨hrid, hrscope, -, -⟩ := request_about hr
        obtain ⟨q, q', rfl, rfl, hbase⟩ := hcompatible (hrscope.symm.trans hscope) (by rw [← hrid]; exact hid)
        obtain rfl : q = r := by simpa [request] using hr
        exact ⟨q', rfl, hbase⟩

theorem importable_of_step (hs' : s'.Importable l) : s'.Importable (step l s).ledger := by
  rcases step_cases l s with ⟨hledger, -⟩ | ⟨r, name, -, hg, -⟩
  · rwa [hledger]
  · rcases Ledger.reserve_eq_ok_iff.1 hg with ⟨-, -, -, -, hledger⟩ | ⟨-, a, -, -, hledger⟩
    · rwa [hledger]
    · rw [hledger]
      intro id scope reason heq
      obtain ⟨found, hfound⟩ := hs' id scope reason heq
      exact ⟨found, Ledger.finalName_append hfound _⟩

theorem agrees_of_run (hs' : s'.Agrees l) (hcompatible : ∀ s ∈ steps, s.Compatible s') :
    s'.Agrees (run l steps).ledger := by
  induction steps generalizing l with
  | nil => exact hs'
  | cons s rest ih =>
    have hstep := agrees_of_step hs' (hcompatible s List.mem_cons_self)
    rcases run_cons_ledger l s rest with ⟨h, -⟩ | ⟨h, -⟩
    · rwa [h]
    · rw [h]
      exact ih hstep fun s hs => hcompatible s (List.mem_cons_of_mem _ hs)

/-- A run of compatible steps fails for want of a free name only. -/
theorem failure_of_run (hsteps : steps.Pairwise Compatible) (hagrees : ∀ s ∈ steps, s.Agrees l)
    (himportable : ∀ s ∈ steps, s.Importable l) (h : (run l steps).failure = some e) : e.IsExhaustion l.settings := by
  induction steps generalizing l with
  | nil => cases h
  | cons s rest ih =>
    obtain ⟨hhead, htail⟩ := List.pairwise_cons.1 hsteps
    rw [run_cons] at h
    unfold andThen at h
    cases hstep : (step l s).failure with
    | some cause =>
      simp only [hstep, Option.some.injEq] at h
      exact failure_of_step (hagrees s List.mem_cons_self) (himportable s List.mem_cons_self) (h ▸ hstep)
    | none =>
      simp only [hstep] at h
      rw [← settings_step l s]
      refine ih htail ?_ ?_ h
      · exact fun s' hs' => agrees_of_step (hagrees s' (List.mem_cons_of_mem _ hs')) (hhead s' hs')
      · exact fun s' hs' => importable_of_step (himportable s' (List.mem_cons_of_mem _ hs'))

end NamingRun

/-! ## Nothing is asked for in two ways -/

namespace NamingStep

theorem Compatible.of_scope {s s' : NamingStep} (h : s.scope ≠ s'.scope) : s.Compatible s' :=
  fun hscope => absurd hscope h

theorem Compatible.of_subject {s s' : NamingStep} (h : s.subject.same s'.subject = false) : s.Compatible s' :=
  fun _ hsame => absurd (h.symm.trans hsame) (by simp)

section Plan

variable {g : SymbolGraph} {t u : TypeSymbol}

theorem pairwise_ofType (t : TypeSymbol) : (ofType t).Pairwise Compatible := by
  unfold ofType
  split
  · rw [List.pairwise_pair]
    exact .of_scope (by simp [scope, Request.of, Scope.internal, Scope.facade])
  · exact List.pairwise_singleton _ _

/-- The accessor of a view is named on the surface of the type, and its members in the scopes of the view. -/
theorem of_mem_ofView {v : View} {s : NamingStep} (hs : s ∈ ofView t v) :
    s = ofAccessor t v ∨ ∃ isStatic, s.scope = .ofView t.id v.interfaceId isStatic := by
  rcases List.mem_cons.1 hs with rfl | hs
  · exact .inl rfl
  · obtain ⟨id, -, hs⟩ := List.mem_filterMap.1 hs
    obtain ⟨x, -, rfl⟩ := Option.map_eq_some_iff.1 hs
    exact .inr ⟨_, rfl⟩

theorem scope_ofAccessor (t : TypeSymbol) (v : View) : (ofAccessor t v).scope = .ofSurface t.id false :=
  rfl

/-- The steps for members and views of a type name members in scopes of the type. -/
theorem scope_of_mem_ofMembers {s : NamingStep} (hs : s ∈ ofMembers t ++ t.views.flatMap (ofView t)) :
    (∃ isStatic, s.scope = .ofSurface t.id isStatic) ∨
      ∃ v ∈ t.views, ∃ isStatic, s.scope = .ofView t.id v.interfaceId isStatic := by
  rcases List.mem_append.1 hs with hs | hs
  · obtain ⟨x, -, rfl⟩ := List.mem_map.1 hs
    exact .inl ⟨_, scope_ofMember t x.1 x.2⟩
  · obtain ⟨v, hv, hs⟩ := List.mem_flatMap.1 hs
    rcases of_mem_ofView hs with rfl | hscope
    · exact .inl ⟨_, scope_ofAccessor t v⟩
    · exact .inr ⟨v, hv, hscope⟩

theorem pairwise_ofMembers (ho : t.OwnsMembers) : (ofMembers t).Pairwise Compatible := by
  unfold ofMembers
  rw [List.pairwise_map]
  have hinfos := (List.pairwise_map.1 ho.distinct).filter (·.2.onPrimarySurface)
  have hsorted := hinfos.perm (List.mergeSort_perm _ fun a b => (a.2.order b.2).isLE).symm
    (fun {a b} hab => by rwa [MemberId.same_comm])
  refine hsorted.imp fun {a b} hab => .of_subject ?_
  rw [subject_ofMember, subject_ofMember, SymbolId.same_member, hab]

theorem pairwise_ofView {v : View} (hv : v.members.Pairwise fun a b => a.same b = false) :
    (ofView t v).Pairwise Compatible := by
  unfold ofView
  rw [List.pairwise_cons, List.pairwise_filterMap]
  refine ⟨?_, hv.imp ?_⟩
  · intro s hs
    obtain ⟨id, -, hs⟩ := List.mem_filterMap.1 hs
    obtain ⟨x, -, rfl⟩ := Option.map_eq_some_iff.1 hs
    refine .of_scope ?_
    simp [ofAccessor, ofViewMember, scope, Request.of, Scope.ofSurface, Scope.ofView]
  · intro a b hab p hp q hq
    obtain ⟨_, -, rfl⟩ := Option.map_eq_some_iff.1 hp
    obtain ⟨_, -, rfl⟩ := Option.map_eq_some_iff.1 hq
    exact .of_subject (by simpa [ofViewMember, subject, Request.of] using hab)

theorem pairwise_ofViews (hv : t.ViewsPlanned)
    (hdistinct : ∀ v ∈ t.views, v.members.Pairwise fun a b => a.same b = false) :
    (t.views.flatMap (ofView t)).Pairwise Compatible := by
  rw [List.pairwise_flatMap]
  refine ⟨fun v hvt => pairwise_ofView (hdistinct v hvt), hv.apart.imp ?_⟩
  intro v w hvw s hs s' hs'
  rcases of_mem_ofView hs with rfl | ⟨isStatic, hscope⟩ <;>
    rcases of_mem_ofView hs' with rfl | ⟨isStatic', hscope'⟩
  · -- accessors of one identity are asked for under one name
    intro _ hsame
    have hname : v.accessorId.bare.name = w.accessorId.bare.name :=
      congrArg MemberId.name (MemberId.same_iff.1 (SymbolId.same_member.symm.trans hsame))
    exact ⟨_, _, rfl, rfl, hname⟩
  · exact .of_scope (by rw [scope_ofAccessor, hscope']; simp [Scope.ofSurface, Scope.ofView])
  · exact .of_scope (by rw [scope_ofAccessor, hscope]; simp [Scope.ofSurface, Scope.ofView])
  · exact .of_scope (by rw [hscope, hscope']; simp [Scope.ofView, hvw])

theorem pairwise_ofType_members (hg : g.Planned) (ht : t ∈ g.types)
    (hdistinct : ∀ v ∈ t.views, v.members.Pairwise fun a b => a.same b = false) :
    (ofMembers t ++ t.views.flatMap (ofView t)).Pairwise Compatible := by
  rw [List.pairwise_append]
  refine ⟨pairwise_ofMembers (hg.consistent.members t ht), pairwise_ofViews (hg.views t ht) hdistinct, ?_⟩
  intro s hs s' hs'
  simp only [ofMembers, surfaceMembers, List.mem_map, List.mem_mergeSort, List.mem_filter] at hs
  obtain ⟨x, ⟨hx, -⟩, rfl⟩ := hs
  obtain ⟨v, hv, hs'⟩ := List.mem_flatMap.1 hs'
  rcases of_mem_ofView hs' with rfl | ⟨isStatic, hscope⟩
  · refine .of_subject ?_
    rw [subject_ofMember, SymbolId.same_comm]
    exact SymbolId.same_member.trans (not_same_accessorId hg ht hv ht hx)
  · refine .of_scope ?_
    rw [scope_ofMember, hscope]
    simp [Scope.ofSurface, Scope.ofView]

theorem nodup_foreignTypes (g : SymbolGraph) (ns : Namespace) : (foreignTypes g ns).Nodup := by
  unfold foreignTypes
  exact (List.mergeSort_perm _ _).nodup_iff.2 (Grouping.nodup_eraseDups _)

theorem mem_foreignTypes {ns : Namespace} {id : TypeId} (h : id ∈ foreignTypes g ns) :
    id.namespace ≠ ns.name ∧ ∃ t ∈ g.types, t.id = id := by
  simp only [foreignTypes, List.mem_mergeSort, List.mem_eraseDups, List.mem_filter, Bool.and_eq_true,
    decide_eq_true_eq, SymbolGraph.contains, List.any_eq_true] at h
  exact h.2

theorem mem_namespaceNamed {name : String} {id : TypeId} (h : id ∈ (g.namespaceNamed name).types) :
    id.namespace = name ∧ ∃ t ∈ g.types, t.id = id := by
  obtain ⟨t, ht, rfl⟩ := List.mem_map.1 h
  obtain ⟨ht, hname⟩ := List.mem_filter.1 ht
  exact ⟨of_decide_eq_true hname, t, ht, rfl⟩

theorem ofImports_cases (g : SymbolGraph) (ns : Namespace) :
    ofImports g ns = [] ∨ ofImports g ns = ns.types.map (.renamed · (.imports ns.name) "local type") ++
      (foreignTypes g ns).map (.renamed · (.imports ns.name) "import alias") := by
  unfold ofImports
  cases foreignTypes g ns with
  | nil => exact .inl rfl
  | cons first rest => exact .inr rfl

theorem pairwise_ofImports (hg : g.Consistent) (name : String) :
    (ofImports g (g.namespaceNamed name)).Pairwise Compatible := by
  have happart : ∀ {ids : List TypeId} {reason : String}, ids.Nodup →
      (ids.map (NamingStep.renamed · (.imports name) reason)).Pairwise Compatible := by
    intro ids reason hnodup
    rw [List.pairwise_map]
    refine hnodup.imp fun {a b} hab => .of_subject ?_
    simpa [subject] using hab
  rcases ofImports_cases g (g.namespaceNamed name) with h | h <;> rw [h]
  · exact .nil
  · rw [List.pairwise_append]
    refine ⟨happart (hg.nodup_ids.sublist (List.filter_sublist.map _)), happart (nodup_foreignTypes _ _), ?_⟩
    intro s hs s' hs'
    obtain ⟨a, ha, rfl⟩ := List.mem_map.1 hs
    obtain ⟨b, hb, rfl⟩ := List.mem_map.1 hs'
    -- foreign types live elsewhere
    refine .of_subject ?_
    simp only [subject, SymbolId.same_type, decide_eq_false_iff_not]
    rintro rfl
    exact (mem_foreignTypes hb).1 (mem_namespaceNamed ha).1

theorem pairwise_types (hg : g.Consistent) : (g.types.flatMap ofType).Pairwise Compatible := by
  rw [List.pairwise_flatMap]
  refine ⟨fun t _ => pairwise_ofType t, hg.types.imp ?_⟩
  intro t u htu s hs s' hs'
  refine .of_subject ?_
  rw [(of_mem_ofType hs).1, (of_mem_ofType hs').1]
  simpa using htu

theorem pairwise_members (hg : g.Planned)
    (hdistinct : ∀ t ∈ g.types, ∀ v ∈ t.views, v.members.Pairwise fun a b => a.same b = false) :
    (g.types.flatMap fun t => ofMembers t ++ t.views.flatMap (ofView t)).Pairwise Compatible := by
  rw [List.pairwise_flatMap]
  refine ⟨fun t ht => pairwise_ofType_members hg ht (hdistinct t ht), hg.consistent.types.imp ?_⟩
  intro t u htu s hs s' hs'
  refine .of_scope ?_
  rcases scope_of_mem_ofMembers hs with ⟨i, h⟩ | ⟨v, -, i, h⟩ <;>
    rcases scope_of_mem_ofMembers hs' with ⟨j, h'⟩ | ⟨w, -, j, h'⟩ <;>
      simp [h, h', Scope.ofSurface, Scope.ofView, htu]

theorem pairwise_imports (hg : g.Consistent) : (g.namespaces.flatMap (ofImports g)).Pairwise Compatible := by
  rw [List.pairwise_flatMap]
  refine ⟨?_, ?_⟩
  · intro ns hns
    obtain ⟨name, -, rfl⟩ := List.mem_map.1 hns
    exact pairwise_ofImports hg name
  · unfold SymbolGraph.namespaces
    rw [List.pairwise_map]
    refine (Grouping.nodup_eraseDups _).imp ?_
    intro a b hab s hs s' hs'
    refine .of_scope ?_
    rw [(of_mem_ofImports hs).1, (of_mem_ofImports hs').1]
    exact fun h => hab (Scope.imports.inj h)

/-- The three parts of a plan are about scopes of different kinds, and within each part a scope and a symbol come
together once, accessors apart. -/
theorem pairwise_plan (hg : g.Planned)
    (hdistinct : ∀ t ∈ g.types, ∀ v ∈ t.views, v.members.Pairwise fun a b => a.same b = false) :
    (plan g).Pairwise Compatible := by
  have hscopeType : ∀ s ∈ g.types.flatMap ofType, ∃ name isInternal, s.scope = .namespace name isInternal := by
    intro s hs
    obtain ⟨t, -, hs⟩ := List.mem_flatMap.1 hs
    obtain ⟨-, ⟨isInternal, hscope⟩, -⟩ := of_mem_ofType hs
    exact ⟨_, _, hscope⟩
  have hscopeImports : ∀ s ∈ g.namespaces.flatMap (ofImports g), ∃ target, s.scope = .imports target := by
    intro s hs
    obtain ⟨ns, -, hs⟩ := List.mem_flatMap.1 hs
    exact ⟨_, (of_mem_ofImports hs).1⟩
  unfold plan
  rw [List.pairwise_append, List.pairwise_append]
  refine ⟨⟨pairwise_types hg.consistent, pairwise_members hg hdistinct, ?_⟩, pairwise_imports hg.consistent, ?_⟩
  · intro s hs s' hs'
    obtain ⟨name, isInternal, h⟩ := hscopeType s hs
    obtain ⟨t, -, hs'⟩ := List.mem_flatMap.1 hs'
    refine .of_scope ?_
    rcases scope_of_mem_ofMembers hs' with ⟨j, h'⟩ | ⟨w, -, j, h'⟩ <;> simp [h, h', Scope.ofSurface, Scope.ofView]
  · intro s hs s' hs'
    obtain ⟨target, h'⟩ := hscopeImports s' hs'
    refine .of_scope ?_
    rcases List.mem_append.1 hs with hs | hs
    · obtain ⟨name, isInternal, h⟩ := hscopeType s hs
      simp [h, h']
    · obtain ⟨t, -, hs⟩ := List.mem_flatMap.1 hs
      rcases scope_of_mem_ofMembers hs with ⟨j, h⟩ | ⟨w, -, j, h⟩ <;> simp [h, h', Scope.ofSurface, Scope.ofView]

end Plan

end NamingStep

/-! ## Naming is total -/

section Total

variable {g : SymbolGraph} {settings : NameSettings}

/-- Names of types are reserved first, so that there is one for every import. -/
theorem NamingStep.importable_of_mem_plan {s : NamingStep} (hs : s ∈ plan g) {l : Ledger}
    (hrun : (NamingRun.run l (g.types.flatMap ofType)).failure = none) :
    s.Importable (NamingRun.run l (g.types.flatMap ofType)).ledger := by
  have hnamed : ∀ t ∈ g.types, ∃ name,
      (NamingRun.run l (g.types.flatMap ofType)).ledger.finalName (.type t.id) (.internal t.id.namespace) =
        .ok name := by
    intro t ht
    have hmem : NamingStep.fixed { Request.of (.type t.id) t.baseName (.internal t.namespace) with reason := "type" } ∈
        g.types.flatMap ofType := List.mem_flatMap.2 ⟨t, ht, List.mem_cons_self⟩
    obtain ⟨d, hd, hscope, hid⟩ := NamingRun.decided_of_run hrun _ hmem
    exact Ledger.exists_finalName hd hscope hid
  intro id scope reason heq
  subst heq
  cases mem_plan_iff.1 hs with
  | type ht hmem =>
    obtain ⟨isInternal, why, hr⟩ := eq_of_mem_ofType hmem
    cases hr
  | «import» hns hmem =>
    obtain ⟨name, -, rfl⟩ := List.mem_map.1 hns
    rcases ofImports_cases g (g.namespaceNamed name) with h | h <;> rw [h] at hmem
    · cases hmem
    · rcases List.mem_append.1 hmem with hmem | hmem <;> obtain ⟨other, hother, heq⟩ := List.mem_map.1 hmem <;>
        obtain rfl := (NamingStep.renamed.inj heq).1
      · obtain ⟨-, t, ht, rfl⟩ := mem_namespaceNamed hother
        exact hnamed t ht
      · obtain ⟨-, t, ht, rfl⟩ := mem_foreignTypes hother
        exact hnamed t ht

namespace SymbolGraph

/-- Reserving the names of a graph can fail in one way only. -/
theorem exhaustion_of_reserveNames (hg : g.Planned)
    (hdistinct : ∀ t ∈ g.types, ∀ v ∈ t.views, v.members.Pairwise fun a b => a.same b = false) {e : NameError}
    (h : (g.reserveNames (.empty settings)).failure = some e) : e.IsExhaustion settings := by
  have hpairwise := NamingStep.pairwise_plan hg hdistinct
  have hempty : ∀ s : NamingStep, s.Agrees (.empty settings) := fun s d hd => by simp [Ledger.empty] at hd
  unfold reserveNames at h
  unfold NamingStep.plan at hpairwise h
  rw [List.append_assoc] at hpairwise h
  obtain ⟨htypes, hrest, hcross⟩ := List.pairwise_append.1 hpairwise
  rw [NamingRun.run_append] at h
  unfold NamingRun.andThen at h
  -- the types come first, as what is imported is looked up under their names
  cases hfirst : (NamingRun.run (.empty settings) (g.types.flatMap NamingStep.ofType)).failure with
  | some cause =>
    simp only [hfirst, Option.some.injEq] at h
    refine NamingRun.failure_of_run htypes (fun s _ => hempty s) ?_ (h ▸ hfirst)
    intro s hs id scope reason heq
    obtain ⟨t, -, hmem⟩ := List.mem_flatMap.1 hs
    obtain ⟨isInternal, why, hr⟩ := NamingStep.eq_of_mem_ofType hmem
    cases heq.symm.trans hr
  | none =>
    simp only [hfirst] at h
    have hsettings := NamingRun.settings_run (.empty settings) (g.types.flatMap NamingStep.ofType)
    have hfailure := NamingRun.failure_of_run hrest ?_ ?_ h
    · rwa [hsettings] at hfailure
    · exact fun s hs => NamingRun.agrees_of_run (hempty s) fun s' hs' => hcross s' hs' s hs
    · intro s hs
      refine NamingStep.importable_of_mem_plan ?_ hfirst
      rw [NamingStep.plan, List.append_assoc]
      exact List.mem_append_right _ hs

/-- After a run that did not fail, a member has a name in the scope that it is stamped for. -/
theorem exists_stampInfo (hg : g.Planned) (hrun : (g.reserveNames (.empty settings)).failure = none) {t : TypeSymbol}
    (ht : t ∈ g.types) {x : MemberKind × MemberInfo} (hx : x ∈ t.members.infos) :
    ∃ info, Stamp.stampInfo (g.reserveNames (.empty settings)).ledger t x.2 = .ok info := by
  cases hs : Stamp.memberScope? t x.2 with
  | none => exact ⟨_, Stamp.stampInfo_eq_ok_iff.2 (.inl ⟨hs, rfl⟩)⟩
  | some s =>
    obtain ⟨d, hd, hscope, hid⟩ := decided_of_memberScope? hg hrun ht hx hs
    obtain ⟨name, hname⟩ := Ledger.exists_finalName hd hscope hid
    exact ⟨_, Stamp.stampInfo_eq_ok_iff.2 (.inr ⟨s, name, hs, hname, rfl⟩)⟩

theorem exists_stampView (hg : g.Planned) (hrun : (g.reserveNames (.empty settings)).failure = none) {t : TypeSymbol}
    (ht : t ∈ g.types) {v : View} (hv : v ∈ t.views) :
    ∃ after, Stamp.stampView (g.reserveNames (.empty settings)).ledger t v = .ok after := by
  obtain ⟨d, hd, hscope, hid, -⟩ := decided_of_accessor hg hrun ht hv
  obtain ⟨name, hname⟩ := Ledger.exists_finalName hd hscope hid
  exact ⟨_, Stamp.stampView_eq_ok_iff.2 ⟨name, hname, rfl⟩⟩

/-- After a run that did not fail, every name that stamping looks up is there. -/
theorem exists_stampNames (hg : g.Planned) (hrun : (g.reserveNames (.empty settings)).failure = none) :
    ∃ stamped, g.stampNames (g.reserveNames (.empty settings)).ledger = .ok stamped := by
  have htypes : ∀ t ∈ g.types, ∃ after, Stamp.stampType (g.reserveNames (.empty settings)).ledger t = .ok after := by
    intro t ht
    obtain ⟨d, hd, hscope, hid, -⟩ := decided_of_type hrun ht
    obtain ⟨name, hname⟩ := Ledger.exists_finalName hd hscope hid
    obtain ⟨members, hmembers⟩ := Members.exists_traverseInfo_eq_ok fun x hx => exists_stampInfo hg hrun ht hx
    obtain ⟨views, hviews⟩ := exists_mapM_eq_ok fun v hv => exists_stampView hg hrun ht hv
    exact ⟨_, Stamp.stampType_eq_ok_iff.2 ⟨name, members, views, hname, hmembers, hviews, rfl⟩⟩
  obtain ⟨types, htypes⟩ := exists_mapM_eq_ok htypes
  exact ⟨_, Stamp.stampNames_eq_ok_iff.2 ⟨types, htypes, rfl⟩⟩

/-- Names are reserved for every graph whose views were planned, unless suffixes run out, and what is reserved can be
stamped; whatever the settings are, and whatever analyses the graph went through. -/
theorem suffixExhausted_or_stamped {types : List TypeSymbol} {aliases : List Alias} {a : SymbolGraph}
    (hbuild : build types aliases = .ok g) (hplain : ∀ t ∈ types, t.Plain) (ha : g.Analyzed a)
    (settings : NameSettings) :
    (∀ e, (a.planViews.1.reserveNames (.empty settings)).failure = some e →
      ∃ scope base dump, e = .suffixExhausted scope base settings.maxSuffixAttempts dump) ∧
    ((a.planViews.1.reserveNames (.empty settings)).failure = none →
      ∃ stamped, a.planViews.1.stampNames (a.planViews.1.reserveNames (.empty settings)).ledger = .ok stamped) := by
  have hconsistent := ha.consistent (consistent_of_build hbuild)
  have hplain := ha.plain (consistent_of_build hbuild) (settle_of_mem_build hbuild) (plain_of_build hbuild hplain)
  have hplanned := planned_planViews hconsistent hplain
  refine ⟨fun e he => exhaustion_of_reserveNames hplanned ?_ he, exists_stampNames hplanned⟩
  intro t ht v hv
  obtain ⟨u, hu, rfl⟩ := List.mem_map.1 ht
  by_cases hviews : u.planViews.views = []
  · simp [ViewPlan.applyTo, hviews, (hplain u hu).views] at hv
  · have hv : v ∈ u.planViews.views := by simpa [ViewPlan.applyTo, hviews] using hv
    exact (TypeSymbol.plannedFor_of_mem_planViews hv).pairwise_members (hconsistent.members u hu)

end SymbolGraph

end Total

/-- A method and a field of one name, an explicit implementation, and a type of another namespace that is mentioned. -/
def Gallery.crowded : List TypeSymbol := [
  (draft "App.Model.Item" .classType
    |>.method "Value" [] (system "Void") id
    |>.field "Value" (system "Int32")
    |>.explicitMethod (system "IDisposable") "Dispose" (system "Void")).type,
  (draft "App.Ui.Panel" .classType
    |>.property "Selected" (app "App.Model" "Item") id).type]

/-- With suffixes there are names for everything; without any the field gets none. -/
theorem SymbolGraph.suffixExhausted_or_stamped_of_crowded :
    ∃ g e, build Gallery.crowded [] = .ok g ∧ (∀ t ∈ Gallery.crowded, t.Plain) ∧ g.Analyzed g.resolveOverloads.1 ∧
      (∃ stamped, g.resolveOverloads.1.planViews.1.stampNames
        (g.resolveOverloads.1.planViews.1.reserveNames (.empty .default)).ledger = .ok stamped) ∧
      (g.resolveOverloads.1.planViews.1.reserveNames
        (.empty { NameSettings.default with maxSuffixAttempts := 0 })).failure = some e ∧
      (∃ scope base dump, e = .suffixExhausted scope base 0 dump) ∧
      e.message = "no free name for `Value` in type:app:App.Model.Item#instance after 0 attempts" := by
  have hrun : (build Gallery.crowded []).toOption.any (fun g =>
      (g.resolveOverloads.1.planViews.1.reserveNames (.empty .default)).failure.isNone &&
      (g.resolveOverloads.1.planViews.1.reserveNames
        (.empty { NameSettings.default with maxSuffixAttempts := 0 })).failure.any fun e =>
          e.message = "no free name for `Value` in type:app:App.Model.Item#instance after 0 attempts") = true := by
    simp only [build, sortTypes, settle_eq, sortAliases, resolveOverloads, TypeSymbol.conflicts, TypeSymbol.buckets,
      TypeSymbol.candidates, Conflict.inBucket, Conflict.among, planViews, TypeSymbol.planViews, sortMembers,
      reserveNames, NamingStep.plan, NamingStep.ofMembers, NamingStep.surfaceMembers, mergeSort_eq_sortTo]
    decide +kernel
  have hplain : ∀ t ∈ Gallery.crowded, t.Plain := by
    intro t ht
    simp only [Gallery.crowded, List.mem_cons, List.not_mem_nil, or_false] at ht
    rcases ht with rfl | rfl
    · exact ⟨rfl, by decide +kernel⟩
    · exact ⟨rfl, by decide +kernel⟩
  obtain ⟨g, hbuild, hrun⟩ := exists_of_any hrun
  obtain ⟨hnone, hsome⟩ := Bool.and_eq_true_iff.1 hrun
  obtain ⟨e, he, hmessage⟩ := (Option.any_eq_true _ _).1 hsome
  have ha : g.Analyzed g.resolveOverloads.1 := Analyzed.refl.overloads
  refine ⟨g, e, hbuild, hplain, ha, ?_, he, ?_, of_decide_eq_true hmessage⟩
  · exact (suffixExhausted_or_stamped hbuild hplain ha .default).2 (Option.isNone_iff_eq_none.1 hnone)
  · exact (suffixExhausted_or_stamped hbuild hplain ha { NameSettings.default with maxSuffixAttempts := 0 }).1 e he

end Exonym
