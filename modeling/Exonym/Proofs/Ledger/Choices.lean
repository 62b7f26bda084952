import Exonym.Proofs.Ledger.Permanence
import Exonym.Proofs.Ledger.Uniqueness

/-!
# Chosen names

The user can choose the name of a symbol. The choice is taken as it stands, whatever is requested for the symbol and in
whatever style, unless something else has the name. One rule comes before it: methods of one overload group share a name,
so the first of them that is granted one settles it for the others, and what is chosen for these is not looked at.

Main statements:

* `Ledger.commits_override_iff`: exactly when a choice is taken.
* `Ledger.exists_commits_of_group`: a new symbol is given the name that its overload group has.
* `Ledger.shared_afterRequests`: later methods of a group are given the name of the first, whatever is requested between.
* `Ledger.override_granted_or_shared`: a choice whose name is not held is taken, unless the group has a name.

**The order of requests matters.** A choice for a method that is not the first of its group is dropped, and nothing says so
(`Ledger.override_dropped_of_overloads`).
-/

namespace Exonym

namespace Ledger

/-- The decision is of the overload group of the request. -/
def OfGroup (r : Request) (d : Decision) : Prop :=
  ∃ group, r.group = some group ∧ d.group = some group

/-- The group of a request has no name in the scope as long as no decision there is of the group. -/
theorem bind_groupName?_eq_none_iff {l : Ledger} {r : Request} :
    r.group.bind (l.groupName? r.scope) = none ↔ ∀ d ∈ l.decisionsIn r.scope, ¬ OfGroup r d := by
  simp only [OfGroup, decisionsIn, List.mem_filter, decide_eq_true_eq]
  cases r.group with
  | none => simp
  | some group => simp [groupName?_eq_none_iff]

/-! ## Choices that are taken -/

/-- A choice comes into question if its name is not held. A verbatim request does not ask for it. -/
theorem override?_eq_some_iff {l : Ledger} {r : Request} {name : String}
    (hg : r.group.bind (l.groupName? r.scope) = none) :
    l.override? r = some name ↔ r.verbatim = false ∧ l.settings.overrides.find? r.id.text = some name ∧
      l.isTaken r.scope name = false := by
  unfold override?
  cases hv : r.verbatim with
  | true => simp
  | false => simp [Option.filter_eq_some_iff, isFree_eq_not_isTaken hg]

/-- The source of an answer says whether it was chosen. -/
theorem answer_override_iff {l : Ledger} {r : Request} {name : String} :
    (∃ a, l.answer r = .ok a ∧ a.finalName = name ∧ a.source = .override) ↔
      r.group.bind (l.groupName? r.scope) = none ∧ l.override? r = some name := by
  constructor
  · rintro ⟨a, ha, rfl, hsource⟩
    cases answer_origin ha with
    | shared hgroup hname => cases hsource
    | chosen hg ho => exact ⟨hg, ho⟩
    | derived hg ho _ _ =>
      simp only at hsource
      split at hsource <;> cases hsource
  · rintro ⟨hg, ho⟩
    refine ⟨⟨name, .override, .none, false⟩, ?_, rfl, rfl⟩
    unfold answer
    rw [hg, ho]

/-- A choice is taken for a new symbol exactly when it is asked for, its name is not held, and nothing in the scope is of
the overload group. -/
theorem commits_override_iff {l : Ledger} {r : Request} {name : String} :
    (∃ d, l.Commits r d ∧ d.finalName = name ∧ d.source = .override) ↔
      l.decision? r.id r.scope = none ∧ (∀ d ∈ l.decisionsIn r.scope, ¬ OfGroup r d) ∧ r.verbatim = false ∧
        l.settings.overrides.find? r.id.text = some name ∧ l.isTaken r.scope name = false := by
  rw [← bind_groupName?_eq_none_iff]
  constructor
  · rintro ⟨d, hd, hname, hsource⟩
    obtain ⟨hnew, a, ha, rfl⟩ := commits_iff.1 hd
    obtain ⟨hg, ho⟩ := answer_override_iff.1 ⟨a, ha, hname, hsource⟩
    exact ⟨hnew, hg, (override?_eq_some_iff hg).1 ho⟩
  · rintro ⟨hnew, hg, hchosen⟩
    obtain ⟨a, ha, hname, hsource⟩ := answer_override_iff.2 ⟨hg, (override?_eq_some_iff hg).2 hchosen⟩
    exact ⟨record r a, commits_iff.2 ⟨hnew, a, ha, rfl⟩, hname, hsource⟩

/-! ## Names of groups -/

/-- A new symbol is given the name that its overload group has in the scope, without regard to what is chosen for it. -/
theorem exists_commits_of_group {l : Ledger} (hl : l.Coherent) {r : Request}
    (hnew : l.decision? r.id r.scope = none) {d : Decision} (hd : d ∈ l.decisionsIn r.scope) (hgroup : OfGroup r d) :
    ∃ e, l.Commits r e ∧ e.finalName = d.finalName ∧ e.source = .automatic ∧ e.strategy = .overloadShared := by
  obtain ⟨group, hr, hdg⟩ := hgroup
  obtain ⟨hmem, hs⟩ := List.mem_filter.1 hd
  cases hname : l.groupName? r.scope group with
  | none => exact (groupName?_eq_none_iff.1 hname d hmem (of_decide_eq_true hs) hdg).elim
  | some name =>
    have hanswer : l.answer r = .ok ⟨name, .automatic, .overloadShared, false⟩ := by
      unfold answer
      rw [hr, Option.bind_some, hname]
    have hshared : d.finalName = name :=
      (hl.finalName_eq_iff_of_groupName? hname hmem (of_decide_eq_true hs)).2 hdg
    exact ⟨record r _, commits_iff.2 ⟨hnew, _, hanswer, rfl⟩, hshared.symm, rfl, rfl⟩

/-- After any requests: a name that was granted to a method of a group, chosen or not, is granted to every new symbol of the
group in the scope, however many requests come between. -/
theorem shared_afterRequests (settings : NameSettings) (requests between : List Request) {r later : Request}
    {d : Decision} (hd : ((empty settings).afterRequests requests).Commits r d) {group : String}
    (hr : r.group = some group) (hlater : later.group = some group) (hscope : later.scope = r.scope)
    (hnew : ((empty settings).afterRequests (requests ++ r :: between)).decision? later.id later.scope = none) :
    ∃ e, ((empty settings).afterRequests (requests ++ r :: between)).Commits later e ∧
      e.finalName = d.finalName ∧ e.strategy = .overloadShared := by
  have hkept := hd.mem_afterRequests between
  obtain ⟨-, a, -, rfl⟩ := commits_iff.1 hd
  have hgroup : OfGroup later (record r a) := ⟨group, hlater, hr⟩
  obtain ⟨e, he, hname, -, hstrategy⟩ := exists_commits_of_group
    (coherent_afterRequests (coherent_empty settings) _) hnew
    (List.mem_filter.2 ⟨hkept, decide_eq_true hscope.symm⟩) hgroup
  exact ⟨e, he, hname, hstrategy⟩

/-! ## After any requests -/

/-- After any requests, for a new symbol whose name is chosen, where the request is not verbatim and nothing in the scope
has the name: it is granted, and noted as chosen, if no decision of the scope is of the request's overload group. If one
is, its name is granted instead, and noted as shared. A register grants the same. -/
theorem override_granted_or_shared (settings : NameSettings) (requests : List Request) {r : Request} {w : String}
    (hv : r.verbatim = false)
    (hnew : ((empty settings).afterRequests requests).decision? r.id r.scope = none)
    (hw : settings.overrides.find? r.id.text = some w)
    (hfree : ((empty settings).afterRequests requests).isTaken r.scope w = false) :
    let l := (empty settings).afterRequests requests
    let g := (IndexedRegister.empty settings).afterRequests requests
    ((∀ d ∈ l.decisionsIn r.scope, ¬ OfGroup r d) →
      ∃ e, l.Commits r e ∧ e.finalName = w ∧ e.source = .override ∧ (g.reserve r).1 = .ok w ∧
        (g.reserve r).2.Shows { l with decisions := l.decisions ++ [e] }) ∧
    ∀ d ∈ l.decisionsIn r.scope, OfGroup r d →
      ∃ e, l.Commits r e ∧ e.finalName = d.finalName ∧ e.source = .automatic ∧ e.strategy = .overloadShared ∧
        d.finalName ≠ w ∧ (g.reserve r).1 = .ok d.finalName ∧
        (g.reserve r).2.Shows { l with decisions := l.decisions ++ [e] } := by
  intro l g
  have hmirrors : g.Mirrors l := (IndexedRegister.mirrors_empty settings).afterRequests requests
  have hsettings : l.settings = settings := settings_afterRequests _ _
  refine ⟨fun hnone => ?_, fun d hd hgroup => ?_⟩
  · rw [← hsettings] at hw
    obtain ⟨e, he, rfl, hsource⟩ := commits_override_iff.2 ⟨hnew, hnone, hv, hw, hfree⟩
    obtain ⟨htold, hafter⟩ := hmirrors.reserve_of_ok he
    exact ⟨e, he, rfl, hsource, htold, hafter.shows⟩
  · have hl : l.Coherent := coherent_afterRequests (coherent_empty settings) requests
    obtain ⟨e, he, hname, hsource, hstrategy⟩ := exists_commits_of_group hl hnew hd hgroup
    obtain ⟨htold, hafter⟩ := hmirrors.reserve_of_ok he
    refine ⟨e, he, hname, hsource, hstrategy, ?_, by rw [htold, hname], hafter.shows⟩
    rintro rfl
    have hheld : l.isTaken r.scope d.finalName = true := isTaken_iff.2 ⟨d, hd, rfl⟩
    rw [hfree] at hheld
    cases hheld

/-- A request for an overload of `Run`. -/
def overloadRequest (signature : String) : Request :=
  { Request.of (.member (.of "app" "App.Widget" "Run" signature)) "Run" (.ofSurface ⟨"app", "App.Widget"⟩ false) with
    group := some "method:Run" }

/-- Settings in which the name of one overload is chosen. -/
def startSettings : NameSettings :=
  { NameSettings.default with overrides := .ofList [("app:App.Widget::Run(x)", "start")] }

/-- The overload is `start` if it comes first, and `Run` if another one comes before it. -/
theorem override_granted_of_overloads :
    (∃ e, (empty startSettings).Commits (overloadRequest "(x)") e ∧ e.finalName = "start" ∧ e.source = .override) ∧
      ∃ e, ((empty startSettings).afterRequests [overloadRequest "()"]).Commits (overloadRequest "(x)") e ∧
        e.finalName = "Run" ∧ e.strategy = .overloadShared := by
  constructor
  · obtain ⟨e, he, hname, hsource, -⟩ :=
      (override_granted_or_shared startSettings [] (r := overloadRequest "(x)") (w := "start") rfl rfl
        (by decide +kernel) rfl).1 (by intro d hd; cases hd)
    exact ⟨e, he, hname, hsource⟩
  · obtain ⟨d, hd, hname, -⟩ := exists_commits (l := empty startSettings) (r := overloadRequest "()") "Run" .none
      (by decide +kernel) (by decide +kernel)
    have hafter : (empty startSettings).afterRequests [overloadRequest "()"] =
        { (empty startSettings) with decisions := [d] } := hd.afterRequest_eq
    obtain ⟨-, a, -, rfl⟩ := commits_iff.1 hd
    obtain ⟨e, he, hshared, -, hstrategy, -⟩ :=
      (override_granted_or_shared startSettings [overloadRequest "()"] (r := overloadRequest "(x)") (w := "start") rfl
        (by rw [← Option.isNone_iff_eq_none]; decide +kernel) (by decide +kernel) (by decide +kernel)).2 _
        (by rw [hafter]; exact .head _) ⟨"method:Run", rfl, rfl⟩
    exact ⟨e, he, hshared.trans hname, hstrategy⟩

/-- The choice for the second overload is dropped: it is asked for, its name is not held, and another name is granted. -/
theorem override_dropped_of_overloads :
    let l := (empty startSettings).afterRequests [overloadRequest "()"]
    let r := overloadRequest "(x)"
    r.verbatim = false ∧ l.decision? r.id r.scope = none ∧ startSettings.overrides.find? r.id.text = some "start" ∧
      l.isTaken r.scope "start" = false ∧
      ¬ ∃ d, l.Commits r d ∧ d.finalName = "start" ∧ d.source = .override := by
  intro l r
  refine ⟨rfl, by rw [← Option.isNone_iff_eq_none]; decide +kernel, by decide +kernel, by decide +kernel, ?_⟩
  rintro ⟨d, hd, hname, -⟩
  have hgranted : (l.reserve r).toOption.map (·.1) = some "Run" := by decide +kernel
  rw [hd, Except.toOption, Option.map_some, hname, Option.some_inj] at hgranted
  have hne : "start" ≠ "Run" := by decide
  exact hne hgranted

end Ledger

end Exonym
