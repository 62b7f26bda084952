import Exonym.Proofs.Ledger.Register
import Exonym.Proofs.Sorting

/-!
# Names are given for good

A register keeps, besides its tables, which scopes it has tables for and in which scopes each symbol has a name. A
request that is granted changes all of them, one after the other; a request can be refused at two places. None of the
changes comes before either place, so a refused request leaves everything as it was, numbers of names and suffixes to
try included. What a granted request adds is one decision, and no request takes a decision away, so it is found again
whenever the symbol is asked for.

Main statements:

* `IndexedRegister.Mirrors.reserve`: what a request is told by a register, and what it leaves there.
* `IndexedRegister.Mirrors.shows`: whatever can be asked of a register has the ledger's answer.
* `Ledger.decisions_prefix_afterRequests`: requests add to the decisions and change none.
* `IndexedRegister.reserve_atomic_and_permanent`: refused requests change nothing, granted ones are granted for good.
-/

namespace Exonym

/-! ## What a decision adds -/

namespace Ledger

theorem scopes_append (l : Ledger) (d : Decision) :
    ({ l with decisions := l.decisions ++ [d] } : Ledger).scopes =
      if d.scope ∈ l.scopes then l.scopes else l.scopes ++ [d.scope] := by
  unfold scopes
  rw [List.map_append, List.map_singleton, eraseDups_concat]
  simp only [List.mem_eraseDups]

theorem scopesOf_append (l : Ledger) (d : Decision) (id : SymbolId) :
    ({ l with decisions := l.decisions ++ [d] } : Ledger).scopesOf id =
      l.scopesOf id ++ if d.id.same id then [d.scope] else [] := by
  unfold scopesOf
  rw [List.filter_append, List.map_append]
  cases hid : d.id.same id <;> simp [hid]

/-- Requests add to the decisions. -/
theorem decisions_prefix_afterRequest (l : Ledger) (r : Request) : l.decisions <+: (l.afterRequest r).decisions := by
  obtain h | ⟨-, a, -, h⟩ := l.afterRequest_cases r
  · exact ⟨[], by rw [h, List.append_nil]⟩
  · exact ⟨[record r a], by rw [h]⟩

/-- However many requests follow, decisions stay as they are and where they are. -/
theorem decisions_prefix_afterRequests (l : Ledger) (requests : List Request) :
    l.decisions <+: (l.afterRequests requests).decisions := by
  unfold afterRequests
  induction requests generalizing l with
  | nil => exact List.prefix_rfl
  | cons r rest ih => exact (l.decisions_prefix_afterRequest r).trans (ih _)

/-- What is written down for a request is kept, however many requests follow. -/
theorem Commits.mem_afterRequests {l : Ledger} {requests : List Request} {r : Request} {d : Decision}
    (h : (l.afterRequests requests).Commits r d) (between : List Request) :
    d ∈ (l.afterRequests (requests ++ r :: between)).decisions := by
  have hadded : d ∈ ((l.afterRequests requests).afterRequest r).decisions := by
    rw [h.afterRequest_eq]
    exact List.mem_append_right _ (.head _)
  rw [afterRequests_append_cons]
  exact (decisions_prefix_afterRequests _ between).subset hadded

theorem decision?_of_prefix {l later : Ledger} (h : l.decisions <+: later.decisions) {id : SymbolId} {s : Scope}
    {d : Decision} (hd : l.decision? id s = some d) : later.decision? id s = some d :=
  h.find?_eq_some hd

theorem decision?_congr {l : Ledger} {a b : SymbolId} (h : a.same b = true) (s : Scope) :
    l.decision? a s = l.decision? b s := by
  have hsame : ∀ d : Decision, d.id.same a = d.id.same b := by
    intro d
    simp [SymbolId.same, SymbolId.same_iff.1 h]
  unfold decision?
  simp only [hsame]

/-- What a granted request leaves is found again, for the symbol and what was asked for. -/
theorem exists_decision?_of_reserve {l after : Ledger} {r : Request} {name : String}
    (h : l.reserve r = .ok (name, after)) :
    ∃ d, after.decision? r.id r.scope = some d ∧ d.requested = r.base ∧ d.finalName = name := by
  obtain ⟨d, hd, hbase, hname, rfl⟩ | ⟨hnew, a, -, hname, rfl⟩ := reserve_eq_ok_iff.1 h
  · exact ⟨d, hd, hbase, hname⟩
  · refine ⟨record r a, ?_, rfl, hname⟩
    unfold decision? at hnew ⊢
    rw [List.find?_append, hnew, Option.none_or]
    simp [record, SymbolId.same]

/-- Asking again gives the same name, whatever else the request says, and writes nothing down. -/
theorem reserve_of_decision? {l : Ledger} {r : Request} {d : Decision} (h : l.decision? r.id r.scope = some d)
    (hbase : d.requested = r.base) : l.reserve r = .ok (d.finalName, l) :=
  reserve_eq_ok_iff.2 (.inl ⟨d, h, hbase, rfl, rfl⟩)

end Ledger

/-! ## A register with its indexes -/

/-- A register, the scopes it has tables for, and the scopes in which symbols have names. -/
structure IndexedRegister where
  register : Register
  opened : List Scope
  /-- By identities without tokens. -/
  places : SymbolId → List Scope

namespace IndexedRegister

def empty (settings : NameSettings) : IndexedRegister :=
  ⟨.empty settings, [], fun _ => []⟩

def decisionsIn (g : IndexedRegister) (s : Scope) : List Decision :=
  (g.register.tables s).decisions

def scopesOf (g : IndexedRegister) (id : SymbolId) : List Scope :=
  g.places id.bare

def isTaken (g : IndexedRegister) (s : Scope) (name : String) : Bool :=
  !(g.register.reading s).isFree name none

def scopeDump (g : IndexedRegister) (s : Scope) : List String :=
  (g.register.reading s).dump

def peek (g : IndexedRegister) (r : Request) : Except NameError String :=
  (g.register.reading r.scope).peek r

/-- Has tables for the scope. -/
def openScope (g : IndexedRegister) (s : Scope) : IndexedRegister :=
  { g with opened := if s ∈ g.opened then g.opened else g.opened ++ [s] }

/-- Enters a decision on a name that was made from `base` in the tables of its scope. -/
def enter (g : IndexedRegister) (d : Decision) (base : String) : IndexedRegister :=
  { g with register := g.register.enter d base }

/-- Notes that the symbol has a name in the scope. -/
def place (g : IndexedRegister) (id : SymbolId) (s : Scope) : IndexedRegister :=
  { g with places := Function.update g.places id.bare (g.places id.bare ++ [s]) }

/-- Gives a symbol its name, going by what there is to know about the scope. A refusal ends the computation where it
comes up and leaves the register as it stands there. -/
def grant (x : ScopeReading) (r : Request) : ExceptT NameError (StateM IndexedRegister) String :=
  match x.decision? r.id with
  | some d =>
    if d.requested = r.base then return d.finalName
    else throw (.conflictingReservation r.id r.scope d.requested r.base)
  | none => do
    let a ← x.answer r
    modify (·.openScope r.scope)
    modify (·.enter (Ledger.record r a) ((Ledger.empty x.settings).candidate r).1)
    modify (·.place r.id r.scope)
    return a.finalName

/-- What a request is told, and what it leaves behind. -/
def reserve (g : IndexedRegister) (r : Request) : Except NameError String × IndexedRegister :=
  (grant (g.register.reading r.scope) r).run.run g

def afterRequests (g : IndexedRegister) (requests : List Request) : IndexedRegister :=
  requests.foldl (fun g r => (g.reserve r).2) g

/-! ## What a request is told, and what it leaves behind -/

/-- The register with a decision entered in the tables and in both indexes. -/
def written (g : IndexedRegister) (d : Decision) (base : String) : IndexedRegister :=
  ((g.openScope d.scope).enter d base).place d.id d.scope

theorem reserve_eq (g : IndexedRegister) (r : Request) :
    g.reserve r = ((g.register.reading r.scope).outcome r,
      match (g.register.reading r.scope).written? r with
      | some d => g.written d ((Ledger.empty g.register.settings).candidate r).1
      | none => g) := by
  unfold reserve grant ScopeReading.outcome ScopeReading.written?
  cases (g.register.reading r.scope).decision? r.id with
  | some d => dsimp only; split <;> rfl
  | none => cases (g.register.reading r.scope).answer r <;> rfl

/-- A request that is refused leaves everything as it was. -/
theorem reserve_of_error {g : IndexedRegister} {r : Request} {e : NameError} (h : (g.reserve r).1 = .error e) :
    g.reserve r = (.error e, g) := by
  have hrefused : (g.register.reading r.scope).written? r = none := by
    rw [reserve_eq] at h
    unfold ScopeReading.outcome at h
    unfold ScopeReading.written?
    cases hd : (g.register.reading r.scope).decision? r.id with
    | some d => rfl
    | none =>
      cases ha : (g.register.reading r.scope).answer r with
      | error e' => rfl
      | ok a => simp [hd, ha, Except.map] at h
  refine Prod.ext h ?_
  rw [reserve_eq, hrefused]

/-- The tables and indexes say what the ledger's decisions do. -/
structure Mirrors (g : IndexedRegister) (l : Ledger) : Prop where
  register : g.register.Mirrors l
  opened : g.opened = l.scopes
  scopesOf : ∀ id, g.scopesOf id = l.scopesOf id

variable {g : IndexedRegister} {l : Ledger}

theorem mirrors_empty (settings : NameSettings) : (empty settings).Mirrors (.empty settings) :=
  ⟨Register.mirrors_empty settings, rfl, fun _ => rfl⟩

theorem Mirrors.written (h : g.Mirrors l) {d : Decision} {base : String}
    (hmade : ∀ n, d.strategy = .numericSuffix n → d.finalName = base ++ toString n.toNat) :
    (g.written d base).Mirrors { l with decisions := l.decisions ++ [d] } := by
  refine ⟨h.register.enter hmade, ?_, fun id => ?_⟩
  · change (if d.scope ∈ g.opened then g.opened else g.opened ++ [d.scope]) = _
    rw [h.opened, Ledger.scopes_append]
  · change Function.update g.places d.id.bare (g.scopesOf d.id ++ [d.scope]) id.bare = _
    rw [h.scopesOf, Ledger.scopesOf_append]
    by_cases hid : d.id.same id = true
    · have hbare := SymbolId.same_iff.1 hid
      rw [if_pos hid, ← hbare, Function.update_self, ← h.scopesOf, ← h.scopesOf]
      unfold IndexedRegister.scopesOf
      rw [hbare]
    · have hne : id.bare ≠ d.id.bare := fun he => hid (SymbolId.same_iff.2 he.symm)
      rw [if_neg hid, List.append_nil, Function.update_of_ne hne]
      exact h.scopesOf id

/-- A request does to the register what it does to the ledger, and is told the same. -/
theorem Mirrors.reserve (h : g.Mirrors l) (r : Request) :
    (g.reserve r).1 = l.outcome r ∧ (g.reserve r).2.Mirrors (l.afterRequest r) := by
  rw [reserve_eq, h.register.reading_eq, h.register.settings, Ledger.outcome_eq_reading, Ledger.afterRequest_eq_reading]
  refine ⟨rfl, ?_⟩
  cases hw : (l.reading r.scope).written? r with
  | none => exact h
  | some d => exact h.written fun n hn => Ledger.finalName_of_written? hw hn

theorem Mirrors.afterRequests (h : g.Mirrors l) (requests : List Request) :
    (g.afterRequests requests).Mirrors (l.afterRequests requests) := by
  unfold IndexedRegister.afterRequests Ledger.afterRequests
  induction requests generalizing g l with
  | nil => exact h
  | cons r rest ih => exact ih (h.reserve r).2

/-- All that can be asked of the register has the ledger's answer. -/
structure Shows (g : IndexedRegister) (l : Ledger) : Prop where
  decisionsIn : ∀ s, g.decisionsIn s = l.decisionsIn s
  scopes : g.opened = l.scopes
  scopesOf : ∀ id, g.scopesOf id = l.scopesOf id
  isTaken : ∀ s name, g.isTaken s name = l.isTaken s name
  scopeDump : ∀ s, g.scopeDump s = l.scopeDump s
  peek : ∀ r, g.peek r = l.peek r

theorem Mirrors.shows (h : g.Mirrors l) : g.Shows l where
  decisionsIn s := (h.register.lists s).decisions
  scopes := h.opened
  scopesOf := h.scopesOf
  isTaken s name := by rw [IndexedRegister.isTaken, h.register.reading_eq, Ledger.isTaken_eq_reading]
  scopeDump s := by rw [IndexedRegister.scopeDump, h.register.reading_eq, Ledger.reading]
  peek r := by rw [IndexedRegister.peek, h.register.reading_eq, Ledger.peek_eq_reading]

theorem Mirrors.reserve_of_error (h : g.Mirrors l) {r : Request} {e : NameError} (he : l.reserve r = .error e) :
    g.reserve r = (.error e, g) := by
  refine IndexedRegister.reserve_of_error ?_
  rw [(h.reserve r).1, Ledger.outcome, he]
  rfl

theorem Mirrors.reserve_of_ok (h : g.Mirrors l) {r : Request} {name : String} {after : Ledger}
    (hok : l.reserve r = .ok (name, after)) : (g.reserve r).1 = .ok name ∧ (g.reserve r).2.Mirrors after := by
  obtain ⟨htold, hmirrors⟩ := h.reserve r
  rw [Ledger.outcome, hok] at htold
  rw [Ledger.afterRequest, hok] at hmirrors
  exact ⟨htold, hmirrors⟩

/-- A request for what has been granted is told the same, and leaves the register as it is. -/
theorem Mirrors.reserve_of_decision? (h : g.Mirrors l) {r : Request} {d : Decision}
    (hd : l.decision? r.id r.scope = some d) (hbase : d.requested = r.base) :
    g.reserve r = (.ok d.finalName, g) := by
  rw [reserve_eq, h.register.reading_eq, ScopeReading.outcome, ScopeReading.written?, Ledger.reading_decision?, hd]
  simp only [hbase, if_true]

/-- After any requests, a further request is refused and changes nothing, or it is granted, with at most one decision
added, for its symbol in its scope, to those there are. A request for the same symbol, scope and base, at any time after
that, is granted the same name and changes nothing. -/
theorem reserve_atomic_and_permanent (settings : NameSettings) (requests : List Request) (r : Request) :
    let l := (Ledger.empty settings).afterRequests requests
    let g := (empty settings).afterRequests requests
    g.Shows l ∧
      (∀ e, l.reserve r = .error e → g.reserve r = (.error e, g)) ∧
      ∀ name l', l.reserve r = .ok (name, l') →
        ∃ g', g.reserve r = (.ok name, g') ∧ g'.Shows l' ∧
          (∃ added, l'.decisions = l.decisions ++ added ∧ added.length ≤ 1 ∧
            ∀ d ∈ added, d.id = r.id ∧ d.scope = r.scope ∧ d.finalName = name) ∧
          ∀ between again, again.id.same r.id = true → again.scope = r.scope → again.base = r.base →
            let later := l'.afterRequests between
            let gLater := g'.afterRequests between
            gLater.Shows later ∧ l'.decisions <+: later.decisions ∧
              later.reserve again = .ok (name, later) ∧ gLater.reserve again = (.ok name, gLater) := by
  intro l g
  have hmirrors : g.Mirrors l := (mirrors_empty settings).afterRequests requests
  refine ⟨hmirrors.shows, fun e he => hmirrors.reserve_of_error he, fun name l' hok => ?_⟩
  obtain ⟨htold, hafter⟩ := hmirrors.reserve_of_ok hok
  refine ⟨_, Prod.ext htold rfl, hafter.shows, ?_, fun between again hid hscope hbase => ?_⟩
  · obtain rfl | ⟨d, hdid, hdscope, hdname, rfl⟩ := Ledger.reserve_eq_ok hok
    · exact ⟨[], by simp⟩
    · exact ⟨[d], rfl, Nat.le_refl 1, by simpa using ⟨hdid, hdscope, hdname⟩⟩
  · intro later gLater
    obtain ⟨d, hd, hrequested, rfl⟩ := Ledger.exists_decision?_of_reserve hok
    have hlater := hafter.afterRequests between
    have hprefix : l'.decisions <+: later.decisions := l'.decisions_prefix_afterRequests between
    have hagain : later.decision? again.id again.scope = some d := by
      rw [Ledger.decision?_congr hid, hscope]
      exact Ledger.decision?_of_prefix hprefix hd
    have hrequested' : d.requested = again.base := hrequested.trans hbase.symm
    exact ⟨hlater.shows, hprefix, Ledger.reserve_of_decision? hagain hrequested',
      hlater.reserve_of_decision? hagain hrequested'⟩

/-- A request for a name of a method of the widget, on its instance surface. -/
def widgetRequest (signature base : String) : Request :=
  .of (.member (.of "app" "App.Widget" "Run" signature)) base (.ofSurface ⟨"app", "App.Widget"⟩ false)

/-- Without suffixes to try, a second method `Run` is refused, and so is the first one under another name. Neither is
seen afterwards: asking for the first one again, as something that needs no style, leaves the register as it is. -/
theorem reserve_of_widgetRequests :
    let settings := { NameSettings.default with maxSuffixAttempts := 0 }
    let run := widgetRequest "()" "Run"
    let refused := [widgetRequest "(System.Int32)" "Run", widgetRequest "()" "Execute"]
    let g := (empty settings).afterRequests [run]
    (∀ r ∈ refused, (g.reserve r).1.toOption = none ∧ (g.reserve r).2 = g) ∧
      (let gLater := ((empty settings).reserve run).2.afterRequests refused
      gLater.reserve { run with reason := "again", verbatim := true } = (.ok "Run", gLater)) := by
  intro settings run refused g
  refine ⟨fun r hr => ?_, ?_⟩
  · have hnone : ∀ r ∈ refused, (((Ledger.empty settings).afterRequests [run]).reserve r).toOption.isNone = true := by
      decide +kernel
    have hr := hnone r hr
    cases he : ((Ledger.empty settings).afterRequests [run]).reserve r with
    | ok granted => simp [he, Except.toOption] at hr
    | error e =>
      have hsame := (reserve_atomic_and_permanent settings [run] r).2.1 e he
      rw [hsame]
      exact ⟨rfl, rfl⟩
  · have hname : ((Ledger.empty settings).reserve run).toOption.map (·.1) = some "Run" := by decide +kernel
    cases hok : (Ledger.empty settings).reserve run with
    | error e => simp [hok, Except.toOption] at hname
    | ok granted =>
      obtain ⟨name, l'⟩ := granted
      obtain rfl : name = "Run" := by simpa [hok, Except.toOption] using hname
      obtain ⟨g', hg', -, -, hagain⟩ := (reserve_atomic_and_permanent settings [] run).2.2 "Run" l' hok
      have hstart : ((empty settings).reserve run).2 = g' := congrArg Prod.snd hg'
      rw [hstart]
      exact (hagain refused { run with reason := "again", verbatim := true } (by decide +kernel) rfl rfl).2.2.2

end IndexedRegister

end Exonym
