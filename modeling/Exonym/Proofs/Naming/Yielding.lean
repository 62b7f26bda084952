import Exonym.Proofs.Ledger.Permanence
import Exonym.Proofs.Naming.Imports
import Exonym.Proofs.Naming.Total

/-!
# Imports give way to local types

In the scope of its imports a namespace has its own types first, under the names that they have anyway: these are told
apart in the namespace, and nothing else is there yet. The types that it imports follow in the order of their
identities. Each is asked for under its own name and gets it, unless a local type or an import before it has that name.

Main statements:

* `NamingRun.step_renamed`: what one step of an import does.
* `NamingRun.names_of_renamed`: what it comes to when the run is over.
* `SymbolGraph.ImportsAt.locals`: the local types keep their names.
* `SymbolGraph.importsYield_of_build`: what every scope of imports consists of.
-/

namespace Exonym

namespace Ledger

/-- The name of a symbol in a scope, if it has one there. -/
def name? (l : Ledger) (id : SymbolId) (s : Scope) : Option String :=
  (l.decision? id s).map (·.finalName)

variable {l later : Ledger} {id : SymbolId} {s : Scope} {name : String}

theorem finalName_eq_ok_iff_name? : l.finalName id s = .ok name ↔ l.name? id s = some name := by
  unfold finalName name?
  cases l.decision? id s <;> simp

theorem name?_of_prefix (h : l.decisions <+: later.decisions) (hname : l.name? id s = some name) :
    later.name? id s = some name := by
  obtain ⟨d, hd, rfl⟩ := Option.map_eq_some_iff.1 hname
  exact Option.map_eq_some_iff.2 ⟨d, decision?_of_prefix h hd, rfl⟩

theorem name?_append_of_new {d : Decision} (hnew : l.decision? id d.scope = none) (hid : d.id.same id = true) :
    Ledger.name? { l with decisions := l.decisions ++ [d] } id d.scope = some d.finalName := by
  unfold name? decision? at *
  rw [List.find?_append, hnew]
  simp [hid]

theorem Coherent.name?_eq (hl : l.Coherent) {d : Decision} (hd : d ∈ l.decisions) (hid : d.id.same id = true) :
    l.name? id d.scope = some d.finalName := by
  unfold name?
  rw [hl.decision?_eq hd hid, Option.map_some]

/-- Where no two decisions have one name, two symbols have different ones. -/
theorem name?_ne_of_nodup (h : ((l.decisionsIn s).map (·.finalName)).Nodup) {a b : SymbolId} (hab : a.same b = false)
    (ha : l.name? a s = some name) : l.name? b s ≠ some name := by
  intro hb
  obtain ⟨d, hd, hdname⟩ := Option.map_eq_some_iff.1 ha
  obtain ⟨e, he, hename⟩ := Option.map_eq_some_iff.1 hb
  obtain ⟨hd, hds, hda⟩ := mem_of_decision? hd
  obtain ⟨he, hes, heb⟩ := mem_of_decision? he
  obtain rfl : d = e :=
    List.inj_on_of_nodup_map h (mem_decisionsIn.2 ⟨hd, hds⟩) (mem_decisionsIn.2 ⟨he, hes⟩) (hdname.trans hename.symm)
  rw [SymbolId.same_comm] at hda heb
  simp [SymbolId.same_of_same hda heb] at hab

/-- What is asked for as it is, in no group, is what a request is given if nothing has the name. -/
theorem finalName_of_verbatim {r : Request} {a : Answer} (h : l.answer r = .ok a) (hv : r.verbatim = true)
    (hg : r.group = none) (hfree : l.isTaken r.scope r.base = false) : a.finalName = r.base := by
  have hnone : r.group.bind (l.groupName? r.scope) = none := by rw [hg, Option.bind_none]
  have ho : l.override? r = none := by rw [override?, if_pos hv]
  have hbase : l.isFree r.scope r.base r.group = true := by rw [isFree_eq_not_isTaken hnone, hfree, Bool.not_false]
  have hvariant : l.freeVariant? r r.base = some (r.base, .none) := by
    unfold freeVariant?
    simp only [hbase, if_true]
  rw [answer_of_open hnone ho, candidate_of_verbatim hv, hvariant] at h
  rw [← Except.ok.inj h]

end Ledger

namespace NamingRun

variable {l : Ledger} {s : Scope} {reason : String} {steps : List NamingStep}

/-- A type is given its own name again in another scope, unless something has the name there. -/
theorem step_renamed {id : TypeId} (hnew : l.decision? (.type id) s = none)
    (hok : (step l (.renamed id s reason)).failure = none) :
    ∃ n d, l.name? (.type id) (.internal id.namespace) = some n ∧
      (step l (.renamed id s reason)).ledger = { l with decisions := l.decisions ++ [d] } ∧ d.id = .type id ∧
      d.scope = s ∧ (l.isTaken s n = false → d.finalName = n) := by
  obtain ⟨-, hfail⟩ | ⟨r, name, hr, hreserve, -⟩ := step_cases l (.renamed id s reason)
  · exact absurd hok hfail
  obtain ⟨n, hn, hr⟩ := bind_eq_ok hr
  obtain rfl := Except.ok.inj hr
  obtain ⟨d, hd, -⟩ | ⟨-, a, ha, -, hledger⟩ := Ledger.reserve_eq_ok_iff.1 hreserve
  · exact absurd (hd.symm.trans hnew) (by simp)
  refine ⟨n, _, Ledger.finalName_eq_ok_iff_name?.1 hn, hledger, rfl, rfl, fun hfree => ?_⟩
  exact Ledger.finalName_of_verbatim ha rfl rfl hfree

/-- A type that is asked for when it has no name in the scope has its own name there after a run that does not fail,
unless something had the name by then. -/
theorem names_of_renamed {first rest : List NamingStep} {id : TypeId}
    (hrun : (run l (first ++ .renamed id s reason :: rest)).failure = none)
    (hnew : (run l first).ledger.decision? (.type id) s = none) :
    ∃ n own, (run l (first ++ .renamed id s reason :: rest)).ledger.name? (.type id) s = some n ∧
      (run l (first ++ .renamed id s reason :: rest)).ledger.name? (.type id) (.internal id.namespace) = some own ∧
      ((run l first).ledger.isTaken s own = false → n = own) := by
  obtain ⟨-, hrest, hlast⟩ := run_append_failure hrun
  obtain ⟨hstep, -, hledger⟩ := run_cons_failure hrest
  obtain ⟨own, d, hown, hadded, hid, hscope, hname⟩ := step_renamed hnew hstep
  rw [hlast, hledger, hadded]
  have hkept := decisions_prefix_run
    { (run l first).ledger with decisions := (run l first).ledger.decisions ++ [d] } rest
  refine ⟨d.finalName, own, Ledger.name?_of_prefix hkept ?_,
    Ledger.name?_of_prefix ((List.prefix_append _ _).trans hkept) hown, hname⟩
  rw [← hscope] at hnew ⊢
  exact Ledger.name?_append_of_new hnew (by simp [hid])

end NamingRun

namespace NamingStep

variable {g : SymbolGraph}

/-- Before the steps for the imports of a namespace nothing is asked for in their scope. -/
theorem exists_plan_eq {name : String} (hname : name ∈ g.namespaceNames) :
    ∃ before after, plan g = before ++ (ofImports g (g.namespaceNamed name) ++ after) ∧
      ∀ s ∈ before, s.scope ≠ .imports name := by
  have hnodup : g.namespaceNames.Nodup := Grouping.nodup_eraseDups _
  obtain ⟨first, last, hsplit⟩ := List.append_of_mem hname
  rw [hsplit, List.nodup_append] at hnodup
  refine ⟨g.types.flatMap ofType ++ g.types.flatMap (fun t => ofMembers t ++ t.views.flatMap (ofView t)) ++
    (first.map g.namespaceNamed).flatMap (ofImports g), (last.map g.namespaceNamed).flatMap (ofImports g), ?_, ?_⟩
  · rw [plan, SymbolGraph.namespaces, hsplit]
    simp [List.append_assoc]
  · intro s hs
    rcases List.mem_append.1 hs with hs | hs
    · rcases List.mem_append.1 hs with hs | hs <;> obtain ⟨t, -, hs⟩ := List.mem_flatMap.1 hs
      · obtain ⟨-, ⟨isInternal, h⟩, -⟩ := of_mem_ofType hs
        simp [h]
      · rcases scope_of_mem_ofMembers hs with ⟨isStatic, h⟩ | ⟨v, -, isStatic, h⟩ <;>
          simp [h, Scope.ofSurface, Scope.ofView]
    · obtain ⟨ns, hns, hs⟩ := List.mem_flatMap.1 hs
      obtain ⟨other, hother, rfl⟩ := List.mem_map.1 hns
      rw [(of_mem_ofImports hs).1]
      intro h
      exact hnodup.2.2 other hother name List.mem_cons_self (Scope.imports.inj h)

/-- Imports are in the order of their identities. -/
theorem sorted_foreignTypes (g : SymbolGraph) (ns : Namespace) :
    (foreignTypes g ns).Pairwise fun a b => compare a b = .lt :=
  pairwise_lt_of_ne (k := id) (nodup_foreignTypes g ns) (pairwise_sort id _)

end NamingStep

namespace SymbolGraph

variable {g : SymbolGraph} {settings : NameSettings} {l : Ledger} {name : String}

/-- In the scope of its imports a namespace has its own types under their own names, and of others only such as its
types mention. Each has one name there, and no two have the same. An import has its own name unless a type of the
namespace, or an import whose identity comes before, has that name there. -/
structure ImportsYield (g : SymbolGraph) (l : Ledger) (name : String) : Prop where
  locals : ∀ t ∈ g.types, t.namespace = name → ∃ n, l.name? (.type t.id) (.internal name) = some n ∧
    l.name? (.type t.id) (.imports name) = some n
  known : ∀ d ∈ l.decisionsIn (.imports name), ∃ u ∈ g.types, d.id = .type u.id ∧
    (u.namespace ≠ name → ∃ t ∈ g.types, t.namespace = name ∧ t.SignaturesMention u.id)
  apart : (l.decisionsIn (.imports name)).Pairwise fun d e => d.id.same e.id = false ∧ d.finalName ≠ e.finalName
  yielding : ∀ u ∈ g.types, u.namespace ≠ name → ∀ n, l.name? (.type u.id) (.imports name) = some n →
    ∃ own, l.name? (.type u.id) (.internal u.namespace) = some own ∧
      (n = own ∨ ∃ w ∈ g.types, (w.namespace = name ∨ compare w.id u.id = .lt) ∧
        l.name? (.type w.id) (.imports name) = some own)

/-- The steps for the imports of a namespace, in their place among all steps. -/
structure ImportsAt (g : SymbolGraph) (name : String) (before after : List NamingStep) : Prop where
  plan : NamingStep.plan g = before ++ (NamingStep.ofImports g (g.namespaceNamed name) ++ after)
  steps : NamingStep.ofImports g (g.namespaceNamed name) =
    (g.namespaceNamed name).types.map (.renamed · (.imports name) "local type") ++
      (NamingStep.foreignTypes g (g.namespaceNamed name)).map (.renamed · (.imports name) "import alias")
  before : ∀ s ∈ before, s.scope ≠ .imports name

theorem exists_importsAt (hscope : .imports name ∈ (g.reserveNames (.empty settings)).ledger.scopes) :
    ∃ before after, g.ImportsAt name before after := by
  obtain ⟨d, hd, hdscope⟩ := List.mem_map.1 (List.mem_eraseDups.1 hscope)
  obtain ⟨s, hs, -, hsscope, -⟩ := NamingRun.origin_of_run hd
  obtain ⟨hname, himport⟩ := NamingStep.mem_ofImports_of_scope hs (hsscope.symm.trans hdscope)
  obtain ⟨before, after, hplan, hbefore⟩ := NamingStep.exists_plan_eq hname
  rcases NamingStep.ofImports_cases g (g.namespaceNamed name) with hnone | hall
  · rw [hnone] at himport
    cases himport
  · exact ⟨before, after, hplan, hall, hbefore⟩

/-- In the scopes that types have names in, each symbol has one name, and names are told apart. -/
theorem apart_of_types {s : Scope} (hs : (∃ isInternal, s = .namespace name isInternal) ∨ s = .imports name) :
    ((g.reserveNames (.empty settings)).ledger.decisionsIn s).Pairwise fun d e =>
      d.id.same e.id = false ∧ d.finalName ≠ e.finalName := by
  have hgroup : ∀ d ∈ (g.reserveNames (.empty settings)).ledger.decisions, d.scope = s → d.group = none := by
    intro d hd hscope
    obtain ⟨step, hstep, -, hdscope, hdgroup⟩ := NamingRun.origin_of_run hd
    rw [hdgroup]
    rw [hscope] at hdscope
    rcases hs with ⟨isInternal, rfl⟩ | rfl
    · exact NamingStep.group_of_type hstep hdscope.symm
    · exact (NamingStep.of_mem_ofImports (NamingStep.mem_ofImports_of_scope hstep hdscope.symm).2).2.1
  refine ((coherent_reserveNames g settings).filter _).imp_of_mem fun {d e} hd he hapart => ?_
  obtain ⟨hd, hdscope⟩ := Ledger.mem_decisionsIn.1 hd
  obtain ⟨-, hescope⟩ := Ledger.mem_decisionsIn.1 he
  obtain ⟨hid, hname⟩ := hapart (hdscope.trans hescope.symm)
  refine ⟨hid, fun heq => ?_⟩
  obtain ⟨group, hdgroup, -⟩ := hname.1 heq
  simp [hgroup d hd hdscope] at hdgroup

namespace ImportsAt

variable {before after sooner later : List NamingStep} {id : TypeId} {reason : String}

/-- What the scope of imports holds when some steps for it are through comes from these steps. -/
theorem held (hplan : g.ImportsAt name before after) {d : Decision}
    (hd : d ∈ (NamingRun.run (.empty settings) (before ++ sooner)).ledger.decisions)
    (hscope : d.scope = .imports name) : ∃ s ∈ sooner, d.id = s.subject := by
  obtain ⟨s, hs, hsubject, hsscope, -⟩ := NamingRun.origin_of_run hd
  rcases List.mem_append.1 hs with hs | hs
  · exact absurd (hsscope.symm.trans hscope) (hplan.before s hs)
  · exact ⟨s, hs, hsubject⟩

/-- A type has its own name in the scope of imports, unless one that was asked for before it has that name. -/
theorem yields (hplan : g.ImportsAt name before after) (hrun : (g.reserveNames (.empty settings)).failure = none)
    (hsplit : NamingStep.ofImports g (g.namespaceNamed name) = sooner ++ .renamed id (.imports name) reason :: later)
    (hother : ∀ s ∈ sooner, s.subject.same (.type id) = false) :
    ∃ n own, (g.reserveNames (.empty settings)).ledger.name? (.type id) (.imports name) = some n ∧
      (g.reserveNames (.empty settings)).ledger.name? (.type id) (.internal id.namespace) = some own ∧
      (n = own ∨ ∃ s ∈ sooner,
        (g.reserveNames (.empty settings)).ledger.name? s.subject (.imports name) = some own) := by
  have hcoherent := coherent_reserveNames g settings
  have hsteps : NamingStep.plan g =
      (before ++ sooner) ++ .renamed id (.imports name) reason :: (later ++ after) := by
    rw [hplan.plan, hsplit]
    simp
  have hnew : (NamingRun.run (.empty settings) (before ++ sooner)).ledger.decision? (.type id)
      (.imports name) = none := by
    rw [Ledger.decision?_eq_none_iff]
    intro d hd hscope
    obtain ⟨s, hs, hsubject⟩ := hplan.held hd hscope
    rw [hsubject, hother s hs]
  unfold reserveNames at hrun hcoherent ⊢
  rw [hsteps] at hrun hcoherent ⊢
  obtain ⟨n, own, hn, hown, hfree⟩ := NamingRun.names_of_renamed hrun hnew
  refine ⟨n, own, hn, hown, ?_⟩
  -- its own name is free at this point, or it is with a symbol that was asked for before
  cases htaken : (NamingRun.run (.empty settings) (before ++ sooner)).ledger.isTaken (.imports name) own with
  | false => exact .inl (hfree htaken)
  | true =>
    obtain ⟨e, he, hename⟩ := Ledger.isTaken_iff.1 htaken
    obtain ⟨he, hescope⟩ := Ledger.mem_decisionsIn.1 he
    obtain ⟨s, hs, hsubject⟩ := hplan.held he hescope
    have hkept : e ∈ (NamingRun.run (.empty settings) ((before ++ sooner) ++
        .renamed id (.imports name) reason :: (later ++ after))).ledger.decisions := by
      obtain ⟨-, -, hlast⟩ := NamingRun.run_append_failure hrun
      rw [hlast]
      exact NamingRun.mem_run_of_mem he
    have hname := hcoherent.name?_eq hkept (show e.id.same s.subject = true by simp [hsubject, SymbolId.same])
    rw [hescope, hename] at hname
    exact .inr ⟨s, hs, hname⟩

/-- The first types of the namespace keep their names in the scope of its imports: what is asked for sooner has kept its
name, and none of these names is wanted by another type of the namespace. -/
theorem locals_of_append (hplan : g.ImportsAt name before after) (hg : g.Consistent)
    (hrun : (g.reserveNames (.empty settings)).failure = none) {first last : List TypeId}
    (htypes : (g.namespaceNamed name).types = first ++ last) : ∀ id ∈ first,
      ∃ n, (g.reserveNames (.empty settings)).ledger.name? (.type id) (.internal name) = some n ∧
        (g.reserveNames (.empty settings)).ledger.name? (.type id) (.imports name) = some n := by
  have hids : (g.namespaceNamed name).types.Nodup := hg.nodup_ids.sublist (List.filter_sublist.map _)
  have hapart : ((g.reserveNames (.empty settings)).ledger.decisionsIn (.internal name)).Pairwise fun d e =>
      d.id.same e.id = false ∧ d.finalName ≠ e.finalName := apart_of_types (.inl ⟨true, rfl⟩)
  -- in the order in which they are asked for: those that came sooner have kept their names
  induction first using List.reverseRecOn generalizing last with
  | nil => simp
  | append_singleton first id ih =>
    intro other hmem
    rw [List.append_assoc, List.singleton_append] at htypes
    rcases List.mem_append.1 hmem with hmem | hmem
    · exact ih htypes other hmem
    obtain rfl := List.mem_singleton.1 hmem
    have hother : ∀ w ∈ first, w ≠ other := by
      rw [htypes, List.nodup_append] at hids
      exact fun w hw => hids.2.2 w hw other List.mem_cons_self
    have hlocal : other ∈ (g.namespaceNamed name).types := by simp [htypes]
    have hns : other.namespace = name := (NamingStep.mem_namespaceNamed hlocal).1
    have hsplit : NamingStep.ofImports g (g.namespaceNamed name) =
        first.map (.renamed · (.imports name) "local type") ++ .renamed other (.imports name) "local type" ::
          (last.map (.renamed · (.imports name) "local type") ++
            (NamingStep.foreignTypes g (g.namespaceNamed name)).map (.renamed · (.imports name) "import alias")) := by
      rw [hplan.steps, htypes]
      simp
    obtain ⟨n, own, hn, hown, rfl | ⟨s, hs, htaken⟩⟩ := hplan.yields hrun hsplit fun s hs => by
      obtain ⟨w, hw, rfl⟩ := List.mem_map.1 hs
      simpa [NamingStep.subject] using hother w hw
    · exact ⟨n, hns ▸ hown, hn⟩
    · obtain ⟨w, hw, rfl⟩ := List.mem_map.1 hs
      -- the one that came sooner has the name as its own, and no two types of a namespace share one
      obtain ⟨m, hm, himported⟩ := ih htypes w hw
      obtain rfl : m = own := Option.some.inj (himported.symm.trans htaken)
      refine absurd (hns ▸ hown) (Ledger.name?_ne_of_nodup (List.pairwise_map.2 (hapart.imp And.right)) ?_ hm)
      simpa using hother w hw

/-- Types of the namespace keep their names in the scope of its imports. -/
theorem locals (hplan : g.ImportsAt name before after) (hg : g.Consistent)
    (hrun : (g.reserveNames (.empty settings)).failure = none) {t : TypeSymbol} (ht : t ∈ g.types)
    (hname : t.namespace = name) :
    ∃ n, (g.reserveNames (.empty settings)).ledger.name? (.type t.id) (.internal name) = some n ∧
      (g.reserveNames (.empty settings)).ledger.name? (.type t.id) (.imports name) = some n :=
  hplan.locals_of_append hg hrun (List.append_nil _).symm t.id
    (List.mem_map_of_mem (List.mem_filter.2 ⟨ht, decide_eq_true hname⟩))

/-- A type that is imported keeps its name, unless a type of the namespace or an import before it has that name. -/
theorem yielding (hplan : g.ImportsAt name before after) (hrun : (g.reserveNames (.empty settings)).failure = none)
    (hid : id ∈ NamingStep.foreignTypes g (g.namespaceNamed name)) :
    ∃ n own, (g.reserveNames (.empty settings)).ledger.name? (.type id) (.imports name) = some n ∧
      (g.reserveNames (.empty settings)).ledger.name? (.type id) (.internal id.namespace) = some own ∧
      (n = own ∨ ∃ w ∈ g.types, (w.namespace = name ∨ compare w.id id = .lt) ∧
        (g.reserveNames (.empty settings)).ledger.name? (.type w.id) (.imports name) = some own) := by
  obtain ⟨first, last, hforeign⟩ := List.append_of_mem hid
  let sooner := (g.namespaceNamed name).types.map (NamingStep.renamed · (.imports name) "local type") ++
    first.map (NamingStep.renamed · (.imports name) "import alias")
  -- what is asked for sooner: the local types, and the imports before this one
  have hsooner : ∀ s ∈ sooner, ∃ w ∈ g.types, s.subject = .type w.id ∧
      (w.namespace = name ∨ compare w.id id = .lt) := by
    intro s hs
    rcases List.mem_append.1 hs with hs | hs <;> obtain ⟨w, hw, rfl⟩ := List.mem_map.1 hs
    · obtain ⟨hwname, t, ht, rfl⟩ := NamingStep.mem_namespaceNamed hw
      exact ⟨t, ht, rfl, .inl hwname⟩
    · have hsorted := NamingStep.sorted_foreignTypes g (g.namespaceNamed name)
      rw [hforeign, List.pairwise_append] at hsorted
      obtain ⟨-, t, ht, rfl⟩ := NamingStep.mem_foreignTypes (hforeign ▸ List.mem_append_left _ hw)
      exact ⟨t, ht, rfl, .inr (hsorted.2.2 t.id hw id List.mem_cons_self)⟩
  have hsplit : NamingStep.ofImports g (g.namespaceNamed name) = sooner ++
      .renamed id (.imports name) "import alias" :: last.map (.renamed · (.imports name) "import alias") := by
    rw [hplan.steps, hforeign, List.map_append, List.map_cons, List.append_assoc]
  obtain ⟨n, own, hn, hown, hyields⟩ := hplan.yields hrun hsplit fun s hs => by
    obtain ⟨w, -, hsubject, hw⟩ := hsooner s hs
    rw [hsubject, SymbolId.same_type, decide_eq_false_iff_not]
    rintro rfl
    rcases hw with hlocal | hlt
    · exact (NamingStep.mem_foreignTypes hid).1 hlocal
    · simp [Std.ReflOrd.compare_self] at hlt
  refine ⟨n, own, hn, hown, hyields.imp_right ?_⟩
  rintro ⟨s, hs, hname⟩
  obtain ⟨w, hw, hsubject, hbefore⟩ := hsooner s hs
  exact ⟨w, hw, hbefore, hsubject ▸ hname⟩

end ImportsAt

theorem importsYield_of_consistent (hg : g.Consistent) (hrun : (g.reserveNames (.empty settings)).failure = none)
    (hscope : .imports name ∈ (g.reserveNames (.empty settings)).ledger.scopes) :
    g.ImportsYield (g.reserveNames (.empty settings)).ledger name := by
  obtain ⟨before, after, hplan⟩ := exists_importsAt hscope
  have hknown : ∀ d ∈ (g.reserveNames (.empty settings)).ledger.decisionsIn (.imports name), ∃ u ∈ g.types,
      d.id = .type u.id ∧ (u.namespace ≠ name → u.id ∈ NamingStep.foreignTypes g (g.namespaceNamed name)) := by
    intro d hd
    obtain ⟨hd, hdscope⟩ := Ledger.mem_decisionsIn.1 hd
    obtain ⟨s, hs, hsubject, hsscope, -⟩ := NamingRun.origin_of_run hd
    obtain ⟨-, himport⟩ := NamingStep.mem_ofImports_of_scope hs (hsscope.symm.trans hdscope)
    obtain ⟨id, hid, hlisted⟩ := NamingStep.subject_of_mem_ofImports himport
    rcases hlisted with hlocal | hforeign
    · obtain ⟨hname, u, hu, rfl⟩ := NamingStep.mem_namespaceNamed hlocal
      exact ⟨u, hu, hsubject.trans hid, fun hne => absurd hname hne⟩
    · obtain ⟨-, u, hu, rfl⟩ := NamingStep.mem_foreignTypes hforeign
      exact ⟨u, hu, hsubject.trans hid, fun _ => hforeign⟩
  refine ⟨fun t ht hname => hplan.locals hg hrun ht hname, fun d hd => ?_,
    apart_of_types (.inr rfl), fun u hu hne n hn => ?_⟩
  · obtain ⟨u, hu, hid, hforeign⟩ := hknown d hd
    exact ⟨u, hu, hid, fun hne => ((NamingStep.mem_foreignTypes_iff hg).1 (hforeign hne)).2.2⟩
  · obtain ⟨d, hd, rfl⟩ := Option.map_eq_some_iff.1 hn
    obtain ⟨hd, hdscope, hid⟩ := Ledger.mem_of_decision? hd
    obtain ⟨w, hw, hdid, hforeign⟩ := hknown d (Ledger.mem_decisionsIn.2 ⟨hd, hdscope⟩)
    rw [hdid, SymbolId.same_type, decide_eq_true_eq] at hid
    obtain rfl := hg.eq_of_id hw hu hid
    obtain ⟨n, own, hn', hown, hyields⟩ := hplan.yielding hrun (hforeign hne)
    obtain rfl := Option.some.inj (hn'.symm.trans hn)
    exact ⟨own, hown, hyields⟩

/-- When names were found for everything in a graph whose views were planned, imports give way to local types in every
scope of imports that there is. -/
theorem importsYield_of_build {types : List TypeSymbol} {aliases : List Alias} {a : SymbolGraph}
    (hbuild : build types aliases = .ok g) (ha : g.Analyzed a)
    (hrun : (a.planViews.1.reserveNames (.empty settings)).failure = none)
    (hscope : .imports name ∈ (a.planViews.1.reserveNames (.empty settings)).ledger.scopes) :
    a.planViews.1.ImportsYield (a.planViews.1.reserveNames (.empty settings)).ledger name :=
  importsYield_of_consistent (ha.consistent (consistent_of_build hbuild)).planViews hrun hscope

/-- A panel with an item of another namespace, which has an item of its own. -/
def panels : List TypeSymbol := [
  (Gallery.draft "App.Model.Item" .classType).type,
  (Gallery.draft "App.Ui.Item" .classType).type,
  (Gallery.draft "App.Ui.Panel" .classType |>.property "Selected" (Gallery.app "App.Model" "Item") id).type]

/-- The item of the other namespace is imported under another name. -/
theorem importsYield_of_panels :
    ∃ g, build panels [] = .ok g ∧ (g.planViews.1.reserveNames (.empty .default)).failure = none ∧
      Scope.imports "App.Ui" ∈ (g.planViews.1.reserveNames (.empty .default)).ledger.scopes ∧
      g.planViews.1.ImportsYield (g.planViews.1.reserveNames (.empty .default)).ledger "App.Ui" ∧
      (g.planViews.1.reserveNames (.empty .default)).ledger.name? (.type ⟨"app", "App.Ui.Item"⟩) (.imports "App.Ui") =
        some "Item" ∧
      (g.planViews.1.reserveNames (.empty .default)).ledger.name? (.type ⟨"app", "App.Model.Item"⟩)
        (.imports "App.Ui") = some "Item2" := by
  have hrun : (build panels []).toOption.any (fun g =>
      (g.planViews.1.reserveNames (.empty .default)).failure.isNone &&
        decide (Scope.imports "App.Ui" ∈ (g.planViews.1.reserveNames (.empty .default)).ledger.scopes ∧
          (g.planViews.1.reserveNames (.empty .default)).ledger.name? (.type ⟨"app", "App.Ui.Item"⟩)
            (.imports "App.Ui") = some "Item" ∧
          (g.planViews.1.reserveNames (.empty .default)).ledger.name? (.type ⟨"app", "App.Model.Item"⟩)
            (.imports "App.Ui") = some "Item2")) = true := by
    simp only [build, sortTypes, settle_eq, sortAliases, planViews, TypeSymbol.planViews, sortMembers, reserveNames,
      NamingStep.plan, NamingStep.ofMembers, NamingStep.surfaceMembers, mergeSort_eq_sortTo]
    decide +kernel
  obtain ⟨g, hbuild, hrun⟩ := exists_of_any hrun
  simp only [Bool.and_eq_true, decide_eq_true_eq, Option.isNone_iff_eq_none] at hrun
  obtain ⟨hnamed, hscope, hnames⟩ := hrun
  exact ⟨g, hbuild, hnamed, hscope, importsYield_of_build hbuild .refl hnamed hscope, hnames⟩

end SymbolGraph

end Exonym
