import Exonym.Proofs.Ledger.Requests
import Mathlib.Data.List.Pairwise

/-!
# Names in a scope are told apart

A scope gives one name to one symbol, or to the members of one overload group. The whole of this is one relation
between decisions, `Decision.Apart`, and the invariant of a ledger is that any two of its decisions are in it. A
decision is only ever added at the end, so one request has to be looked at: its answer is either the name of its
group, which by the invariant nothing outside the group has, or a name that nothing in the scope has.

Main statements:

* `Ledger.finalName_eq_iff_of_answer`: an answer is the name of exactly those decisions that are of its group.
* `Ledger.coherent_afterRequests`: the invariant holds after any sequence of requests.
* `Ledger.shared_iff_grouped_of_requests`: in every scope, two symbols have one name exactly as members of one
  overload group.
-/

namespace Exonym

theorem SymbolId.same_comm (a b : SymbolId) : a.same b = b.same a := by
  simp [SymbolId.same, eq_comm]

/-- Two symbols that are the same as a third one are the same. -/
theorem SymbolId.same_of_same {a b c : SymbolId} (ha : a.same c = true) (hb : b.same c = true) :
    a.same b = true :=
  same_iff.2 ((same_iff.1 ha).trans (same_iff.1 hb).symm)

namespace Decision

/-- Both decisions are of one overload group. -/
def Grouped (d e : Decision) : Prop :=
  ∃ group, d.group = some group ∧ e.group = some group

/-- In one scope the decisions are about two symbols, and these have one name exactly as members of one group. -/
def Apart (d e : Decision) : Prop :=
  d.scope = e.scope → d.id.same e.id = false ∧ (d.finalName = e.finalName ↔ d.Grouped e)

theorem grouped_comm {d e : Decision} : d.Grouped e ↔ e.Grouped d := by
  simp [Grouped, and_comm]

instance : Std.Symm Apart where
  symm d e h hs := by
    obtain ⟨hid, hname⟩ := h hs.symm
    refine ⟨by rw [SymbolId.same_comm, hid], ?_⟩
    rw [eq_comm, hname, grouped_comm]

end Decision

namespace Ledger

/-- Any two decisions of the ledger are about two symbols, named apart unless of one group. -/
def Coherent (l : Ledger) : Prop :=
  l.decisions.Pairwise Decision.Apart

theorem coherent_empty (settings : NameSettings) : (empty settings).Coherent :=
  .nil

theorem Coherent.apart {l : Ledger} (hl : l.Coherent) {d e : Decision} (hd : d ∈ l.decisions)
    (he : e ∈ l.decisions) (hid : d.id.same e.id = false) : d.Apart e := by
  refine List.Pairwise.forall hl hd he ?_
  rintro rfl
  simp [SymbolId.same] at hid

/-- Two decisions of one scope that are about one symbol are one decision. -/
theorem Coherent.eq_of_same {l : Ledger} (hl : l.Coherent) {d e : Decision} (hd : d ∈ l.decisions)
    (he : e ∈ l.decisions) (hs : d.scope = e.scope) (hid : d.id.same e.id = true) : d = e := by
  by_contra hne
  have := (List.Pairwise.forall hl hd he hne hs).1
  simp [this] at hid

theorem Coherent.decision?_eq {l : Ledger} (hl : l.Coherent) {d : Decision} (hd : d ∈ l.decisions)
    {id : SymbolId} (hid : d.id.same id = true) : l.decision? id d.scope = some d := by
  cases h : l.decision? id d.scope with
  | none =>
    have := decision?_eq_none_iff.1 h d hd rfl
    simp [this] at hid
  | some e =>
    obtain ⟨he, hs, heid⟩ := mem_of_decision? h
    rw [hl.eq_of_same hd he hs.symm (SymbolId.same_of_same hid heid)]

theorem Coherent.finalName_eq {l : Ledger} (hl : l.Coherent) {d : Decision} (hd : d ∈ l.decisions)
    {id : SymbolId} (hid : d.id.same id = true) : l.finalName id d.scope = .ok d.finalName := by
  unfold finalName
  rw [hl.decision?_eq hd hid]

/-- A name that is looked up is that of the decision. -/
theorem Coherent.eq_of_finalName {l : Ledger} (hl : l.Coherent) {d : Decision} (hd : d ∈ l.decisions) {id : SymbolId}
    (hid : d.id.same id = true) {s : Scope} (hs : d.scope = s) {name : String} (h : l.finalName id s = .ok name) :
    name = d.finalName := by
  rw [← hs, hl.finalName_eq hd hid, Except.ok.injEq] at h
  exact h.symm

/-- The decisions about a symbol are for different scopes. -/
theorem Coherent.pairwise_scope {l : Ledger} (hl : l.Coherent) (id : SymbolId) :
    (l.decisions.filter (·.id.same id)).Pairwise fun d e => d.scope ≠ e.scope := by
  refine (hl.filter _).imp_of_mem fun {d e} hd he hapart hscope => ?_
  have hsame := SymbolId.same_of_same (List.mem_filter.1 hd).2 (List.mem_filter.1 he).2
  rw [(hapart hscope).1] at hsame
  cases hsame

/-- A symbol gets one name in a scope. -/
theorem Coherent.nodup_scopesOf {l : Ledger} (hl : l.Coherent) (id : SymbolId) : (l.scopesOf id).Nodup :=
  List.pairwise_map.2 (hl.pairwise_scope id)

/-- Two decisions that share a scope, about symbols that are not the same. -/
theorem Coherent.finalName_eq_iff {l : Ledger} (hl : l.Coherent) {d e : Decision} (hd : d ∈ l.decisions)
    (he : e ∈ l.decisions) (hscope : d.scope = e.scope) {a b : SymbolId} (hda : d.id.same a = true)
    (heb : e.id.same b = true) (hab : a.same b = false) :
    d.finalName = e.finalName ↔ ∃ group, d.group = some group ∧ e.group = some group := by
  have hid : d.id.same e.id = false := by
    rw [SymbolId.same_iff] at hda heb
    simpa [SymbolId.same, hda, heb] using hab
  exact (hl.apart hd he hid hscope).2

/-- The name of a group is the name of exactly its members. -/
theorem Coherent.finalName_eq_iff_of_groupName? {l : Ledger} (hl : l.Coherent) {s : Scope}
    {group name : String} (h : l.groupName? s group = some name) {e : Decision} (he : e ∈ l.decisions)
    (hs : e.scope = s) : e.finalName = name ↔ e.group = some group := by
  obtain ⟨first, hfirst, hscope, hgroup, rfl⟩ := mem_of_groupName? h
  by_cases heq : e = first
  · subst heq
    simp [hgroup]
  · have := (List.Pairwise.forall hl he hfirst heq (hs.trans hscope.symm)).2
    rw [this]
    simp [Decision.Grouped, hgroup]

/-- A name that was free for a request of a group without a name is held by nothing, and there is nothing else of
the group that could hold it. -/
theorem finalName_eq_iff_of_unheld {l : Ledger} {r : Request} {name : String}
    (hg : r.group.bind (l.groupName? r.scope) = none) (hfree : l.isFree r.scope name r.group = true)
    {e : Decision} (he : e ∈ l.decisions) (hs : e.scope = r.scope) :
    e.finalName = name ↔ ∃ group, e.group = some group ∧ r.group = some group := by
  refine iff_of_false (unheld_of_isFree hg hfree e he hs) ?_
  rintro ⟨group, heg, hrg⟩
  rw [hrg, Option.bind_some] at hg
  exact groupName?_eq_none_iff.1 hg e he hs heg

theorem finalName_eq_iff_of_answer {l : Ledger} (hl : l.Coherent) {r : Request} {a : Answer}
    (h : l.answer r = .ok a) {e : Decision} (he : e ∈ l.decisions) (hs : e.scope = r.scope) :
    e.finalName = a.finalName ↔ e.Grouped (record r a) := by
  change _ ↔ ∃ group, e.group = some group ∧ r.group = some group
  cases answer_origin h with
  | shared hgroup hname =>
    rw [hl.finalName_eq_iff_of_groupName? hname he hs]
    simp [hgroup]
  | chosen hg ho => exact finalName_eq_iff_of_unheld hg (isFree_of_override? ho) he hs
  | derived hg _ hfree _ => exact finalName_eq_iff_of_unheld hg hfree he hs

/-- One granted request keeps the invariant. -/
theorem Coherent.record {l : Ledger} (hl : l.Coherent) {r : Request} {a : Answer}
    (hnew : l.decision? r.id r.scope = none) (h : l.answer r = .ok a) :
    ({ l with decisions := l.decisions ++ [Ledger.record r a] } : Ledger).Coherent := by
  refine List.pairwise_append.2 ⟨hl, List.pairwise_singleton _ _, ?_⟩
  intro e he d hd hs
  obtain rfl := List.mem_singleton.1 hd
  exact ⟨decision?_eq_none_iff.1 hnew e he hs, finalName_eq_iff_of_answer hl h he hs⟩

theorem coherent_afterRequests {l : Ledger} (hl : l.Coherent) (requests : List Request) :
    (l.afterRequests requests).Coherent :=
  afterRequests_induction requests hl fun _ _ _ hl hnew h => hl.record hnew h

/-- After any requests, granted or refused, two symbols have one name in a scope exactly when their decisions
carry one overload group. -/
theorem shared_iff_grouped_of_requests (settings : NameSettings) (requests : List Request) (s : Scope)
    {d e : Decision} (hd : d ∈ ((empty settings).afterRequests requests).decisionsIn s)
    (he : e ∈ ((empty settings).afterRequests requests).decisionsIn s) (hid : d.id.same e.id = false) :
    d.finalName = e.finalName ↔ ∃ group, d.group = some group ∧ e.group = some group := by
  have hl := coherent_afterRequests (coherent_empty settings) requests
  simp only [decisionsIn, List.mem_filter, decide_eq_true_eq] at hd he
  exact (hl.apart hd.1 he.1 hid (hd.2.trans he.2.symm)).2

/-- Requests for two methods of a group and a field, all under one name, the field last. -/
def addRequests : List Request :=
  let request signature := Request.of (.member (.of "app" "App.Bag" "Add" signature)) "Add"
    (.ofSurface ⟨"app", "App.Bag"⟩ false)
  [{ request "()" with group := some "Add" }, { request "(System.Int32)" with group := some "Add" }, request ""]

theorem shared_iff_grouped_of_addRequests :
    ∃ d ∈ ((empty .default).afterRequests addRequests).decisionsIn (.ofSurface ⟨"app", "App.Bag"⟩ false),
      ∃ e ∈ ((empty .default).afterRequests addRequests).decisionsIn (.ofSurface ⟨"app", "App.Bag"⟩ false),
        d.id.same e.id = false ∧ d.finalName = e.finalName ∧
          ∃ group, d.group = some group ∧ e.group = some group := by
  have h : ∃ d ∈ ((empty .default).afterRequests addRequests).decisionsIn (.ofSurface ⟨"app", "App.Bag"⟩ false),
      ∃ e ∈ ((empty .default).afterRequests addRequests).decisionsIn (.ofSurface ⟨"app", "App.Bag"⟩ false),
        d.id.same e.id = false ∧ d.finalName = e.finalName := by
    decide +kernel
  obtain ⟨d, hd, e, he, hid, hname⟩ := h
  exact ⟨d, hd, e, he, hid, hname,
    (shared_iff_grouped_of_requests .default addRequests _ hd he hid).1 hname⟩

end Ledger

end Exonym
