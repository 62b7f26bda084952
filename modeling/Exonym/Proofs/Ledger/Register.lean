import Exonym.Proofs.Ledger.Tables
import Mathlib.Logic.Function.Basic

/-!
# A register with numbered names

A register answers requests as a ledger does, but keeps tables for each scope, in which names stand as numbers. One
interner gives the numbers out for all scopes. So which number a name has, and whether it has one at all, depends on
what has been asked for elsewhere. What a request is told does not: at any time the tables of a scope say what the
ledger's decisions in the scope say.

Main statements:

* `ScopeTable.Lists.enter`: what a decision does to the tables of its scope.
* `Register.Mirrors.reading_eq`, `Register.Mirrors.afterRequest`: what a register says of a scope, step by step.
* `Register.transcript_eq_ledger`: a register and a ledger tell their requests the same.
* `Ledger.answers_eq_of_requests_eq`: one scope's requests settle all that can be seen of the scope, in ledgers and in
  registers.
-/

namespace Exonym

/-! ## The register -/

/-- What a register keeps about one scope. -/
structure ScopeTable where
  holders : List (Nat × Holder)
  groups : List (String × Nat)
  /-- The suffix to try first, for bases that have had one; the latest entry counts. -/
  nextSuffix : List (Nat × Nat)
  decisions : List Decision

namespace ScopeTable

def empty : ScopeTable :=
  ⟨[], [], [], []⟩

/-- The table with a decision entered, given the number of its name, and for a base the suffix to try next. -/
def enter (t : ScopeTable) (d : Decision) (name : Nat) (suffix : Option (Nat × Nat)) : ScopeTable where
  holders := putNew t.holders name d.holder
  groups := d.group.elim t.groups fun group => putNew t.groups group name
  nextSuffix := suffix.toList ++ t.nextSuffix
  decisions := t.decisions ++ [d]

end ScopeTable

structure Register where
  settings : NameSettings
  interner : Interner
  tables : Scope → ScopeTable

namespace Register

def empty (settings : NameSettings) : Register :=
  ⟨settings, .empty, fun _ => .empty⟩

/-- What the register says about a scope. -/
def reading (g : Register) (s : Scope) : ScopeReading where
  settings := g.settings
  decision? id := (g.tables s).decisions.find? (·.id.same id)
  holder? name := (g.interner.get? name).bind fun number => (g.tables s).holders.lookup number
  groupName? group := ((g.tables s).groups.lookup group).bind g.interner.resolve?
  nextSuffix base := ((g.interner.get? base).bind fun number => (g.tables s).nextSuffix.lookup number).getD 2
  dump :=
    let lines := (g.tables s).holders.filterMap fun e =>
      (g.interner.resolve? e.1).map fun name => name ++ " -> " ++ e.2.text
    lines.mergeSort fun a b => (compare a b).isLE

/-- Enters a decision on a name that was made from `base`. -/
def enter (g : Register) (d : Decision) (base : String) : Register :=
  let (name, interner) := g.interner.intern d.finalName
  match d.strategy with
  | .numericSuffix n =>
    let (number, interner) := interner.intern base
    { g with
      interner := interner
      tables := Function.update g.tables d.scope
        ((g.tables d.scope).enter d name (some (number, min (n.toNat + 1) Ledger.maxSuffix))) }
  | _ =>
    { g with
      interner := interner
      tables := Function.update g.tables d.scope ((g.tables d.scope).enter d name none) }

def afterRequest (g : Register) (r : Request) : Register :=
  match (g.reading r.scope).written? r with
  | some d => g.enter d ((Ledger.empty g.settings).candidate r).1
  | none => g

def afterRequests (g : Register) (requests : List Request) : Register :=
  requests.foldl afterRequest g

/-- The requests of a sequence, each with what it is told when its turn comes. -/
def transcript (g : Register) : List Request → List (Request × Except NameError String)
  | [] => []
  | r :: rest => (r, (g.reading r.scope).outcome r) :: (g.afterRequest r).transcript rest

end Register

/-! ## The register mirrors the ledger -/

namespace ScopeTable

/-- The table says what the decisions do. -/
structure Lists (t : ScopeTable) (i : Interner) (ds : List Decision) : Prop where
  decisions : t.decisions = ds
  holders : i.Decodes t.holders (Decision.holders ds)
  groups : i.Spells t.groups (Decision.groupNames ds)
  nextSuffix : ∃ named : List (String × Nat), i.Decodes t.nextSuffix named ∧
    ∀ base, named.lookup base = (Decision.lastSuffix? ds base).map fun n => min (n + 1) Ledger.maxSuffix

/-- The suffix that a decision on a name made from a base leaves to be tried next for the base. -/
inductive Leaves (i : Interner) (d : Decision) : Option (Nat × Nat) → Prop
  | none : (∀ n, d.strategy ≠ .numericSuffix n) → Leaves i d none
  | some {base : String} {n : UInt32} {number : Nat} : d.strategy = .numericSuffix n →
      d.finalName = base ++ toString n.toNat → i.resolve? number = some base →
      Leaves i d (some (number, min (n.toNat + 1) Ledger.maxSuffix))

variable {t : ScopeTable} {i j : Interner} {ds : List Decision}

theorem lists_empty (i : Interner) : empty.Lists i [] :=
  ⟨rfl, .nil, .nil, [], .nil, fun _ => rfl⟩

theorem Lists.mono (h : t.Lists i ds) (hij : i.Extends j) : t.Lists j ds := by
  obtain ⟨named, hnamed, hlast⟩ := h.nextSuffix
  exact ⟨h.decisions, h.holders.mono hij, h.groups.mono hij, named, hnamed.mono hij,
    hlast⟩

/-- What a decision does to the table of its scope. -/
theorem Lists.enter (h : t.Lists i ds) {d : Decision} {name : Nat} (hname : i.resolve? name = some d.finalName)
    {suffix : Option (Nat × Nat)} (hsuffix : Leaves i d suffix) : (t.enter d name suffix).Lists i (ds ++ [d]) := by
  -- the decisions, the holders, the names of the groups and the suffixes to begin with
  refine ⟨?_, ?_, ?_, ?_⟩
  · rw [ScopeTable.enter, h.decisions]
  · rw [Decision.holders_append]
    exact h.holders.putNew hname d.holder
  · rw [Decision.groupNames_append]
    unfold ScopeTable.enter
    cases d.group with
    | none => exact h.groups
    | some group => exact h.groups.putNew hname group
  · obtain ⟨named, hnamed, hlast⟩ := h.nextSuffix
    cases hsuffix with
    | none hplain =>
      refine ⟨named, hnamed, fun base => ?_⟩
      have hgiven : Ledger.suffixGiven? base d = none := by
        unfold Ledger.suffixGiven?
        split
        · rename_i n hn
          exact absurd hn (hplain n)
        · rfl
      rw [hlast, Decision.lastSuffix?_append, hgiven, Option.none_or]
    | @some made n number hstrategy hmade hnumber =>
      refine ⟨(made, min (n.toNat + 1) Ledger.maxSuffix) :: named, .cons ⟨hnumber, rfl⟩ hnamed, fun base => ?_⟩
      have hgiven := Ledger.suffixGiven?_of_numericSuffix hstrategy hmade base
      rw [List.lookup_cons, hlast, Decision.lastSuffix?_append, hgiven]
      by_cases hb : made = base
      · subst hb
        rw [beq_self_eq_true, if_pos rfl]
        rfl
      · rw [beq_eq_false_iff_ne.2 (Ne.symm hb), if_neg hb, Option.none_or]

end ScopeTable

namespace Ledger

/-- A name with a suffix is the candidate with that suffix. -/
theorem finalName_of_answer {l : Ledger} {r : Request} {a : Answer} (h : l.answer r = .ok a) {n : UInt32}
    (hn : a.strategy = .numericSuffix n) : a.finalName = (l.candidate r).1 ++ toString n.toNat := by
  obtain ⟨name, -, rfl⟩ | ⟨-, name, -, rfl⟩ | ⟨-, -, name, strategy, hfree, rfl⟩ := answer_cases h
  · cases hn
  · cases hn
  · obtain rfl : strategy = .numericSuffix n := hn
    exact (searchSuffix_of_freeVariant? hfree).1

theorem finalName_of_written? {l : Ledger} {r : Request} {d : Decision} (h : (l.reading r.scope).written? r = some d)
    {n : UInt32} (hn : d.strategy = .numericSuffix n) : d.finalName = (l.candidate r).1 ++ toString n.toNat := by
  unfold ScopeReading.written? at h
  split at h
  · cases h
  · cases ha : (l.reading r.scope).answer r with
    | error e => simp [ha, Except.toOption] at h
    | ok a =>
      obtain rfl : record r a = d := by simpa [ha, Except.toOption] using h
      exact finalName_of_answer ((l.answer_eq_reading r).trans ha) hn

end Ledger

namespace Register

/-- The tables of every scope say what the ledger's decisions in the scope do. -/
structure Mirrors (g : Register) (l : Ledger) : Prop where
  settings : g.settings = l.settings
  lists : ∀ s, (g.tables s).Lists g.interner (l.decisionsIn s)

variable {g : Register} {l : Ledger}

theorem mirrors_empty (settings : NameSettings) : (empty settings).Mirrors (.empty settings) :=
  ⟨rfl, fun _ => ScopeTable.lists_empty _⟩

/-- What the register says about a scope is what the ledger says. -/
theorem Mirrors.reading_eq (h : g.Mirrors l) (s : Scope) : g.reading s = l.reading s := by
  have hs := h.lists s
  unfold reading Ledger.reading
  congr 1
  · exact h.settings
  · funext id
    rw [hs.decisions, Ledger.decision?_eq_find?]
  · funext name
    rw [hs.holders.lookup, Decision.lookup_holders, Ledger.holder?_eq_find?]
  · funext group
    rw [hs.groups.lookup, Decision.lookup_groupNames, Ledger.groupName?_eq_find?]
  · funext base
    obtain ⟨named, hnamed, hlast⟩ := hs.nextSuffix
    rw [hnamed.lookup, hlast]
    unfold Ledger.nextSuffix Decision.lastSuffix?
    cases ((l.decisionsIn s).filterMap (Ledger.suffixGiven? base)).getLast? <;> rfl
  · rw [Ledger.scopeDump_eq_holders]
    have hlines := hs.holders.filterMap_resolve? fun name holder => name ++ " -> " ++ holder.text
    exact congrArg (List.mergeSort · fun a b => (compare a b).isLE) hlines

/-- A decision that is entered on one side and added on the other. -/
theorem Mirrors.update (h : g.Mirrors l) {i : Interner} (hi : g.interner.Extends i) {d : Decision} {name : Nat}
    (hname : i.resolve? name = some d.finalName) {suffix : Option (Nat × Nat)}
    (hsuffix : ScopeTable.Leaves i d suffix) :
    Mirrors ⟨g.settings, i, Function.update g.tables d.scope ((g.tables d.scope).enter d name suffix)⟩
      { l with decisions := l.decisions ++ [d] } := by
  refine ⟨h.settings, fun s => ?_⟩
  rw [Ledger.decisionsIn_append]
  by_cases hs : d.scope = s
  · subst hs
    rw [if_pos rfl]
    simpa using ((h.lists d.scope).mono hi).enter hname hsuffix
  · rw [if_neg hs, List.append_nil]
    simpa [Function.update_of_ne (Ne.symm hs)] using (h.lists s).mono hi

theorem Mirrors.enter (h : g.Mirrors l) {d : Decision} {base : String}
    (hmade : ∀ n, d.strategy = .numericSuffix n → d.finalName = base ++ toString n.toNat) :
    (g.enter d base).Mirrors { l with decisions := l.decisions ++ [d] } := by
  have hname := g.interner.resolve?_intern d.finalName
  have hfirst := g.interner.extends_intern d.finalName
  unfold Register.enter
  dsimp only
  split
  · rename_i n hn
    have hsecond := (g.interner.intern d.finalName).2.extends_intern base
    exact h.update (fun _ _ hk => hsecond _ _ (hfirst _ _ hk)) (hsecond _ _ hname)
      (.some hn (hmade n hn) (Interner.resolve?_intern _ base))
  · rename_i hplain
    exact h.update hfirst hname (.none hplain)

/-- A request does to the register what it does to the ledger. -/
theorem Mirrors.afterRequest (h : g.Mirrors l) (r : Request) : (g.afterRequest r).Mirrors (l.afterRequest r) := by
  unfold Register.afterRequest
  rw [Ledger.afterRequest_eq_reading, h.reading_eq]
  cases hwritten : (l.reading r.scope).written? r with
  | none => exact h
  | some d =>
    rw [h.settings]
    exact h.enter fun n hn => Ledger.finalName_of_written? hwritten hn

theorem Mirrors.afterRequests (h : g.Mirrors l) (requests : List Request) :
    (g.afterRequests requests).Mirrors (l.afterRequests requests) := by
  unfold Register.afterRequests Ledger.afterRequests
  induction requests generalizing g l with
  | nil => exact h
  | cons r rest ih => exact ih (h.afterRequest r)

theorem Mirrors.transcript_eq (h : g.Mirrors l) (requests : List Request) :
    g.transcript requests = l.transcript requests := by
  induction requests generalizing g l with
  | nil => rfl
  | cons r rest ih =>
    rw [transcript, Ledger.transcript, h.reading_eq, Ledger.outcome_eq_reading, ih (h.afterRequest r)]

/-- A register and a ledger tell their requests the same, and say the same about every scope afterwards. -/
theorem transcript_eq_ledger (settings : NameSettings) (requests : List Request) :
    (empty settings).transcript requests = (Ledger.empty settings).transcript requests ∧
      ∀ s, ((empty settings).afterRequests requests).reading s =
        ((Ledger.empty settings).afterRequests requests).reading s := by
  have hstart := mirrors_empty settings
  exact ⟨hstart.transcript_eq requests, (hstart.afterRequests requests).reading_eq⟩

end Register

/-! ## One scope's requests -/

namespace Ledger

/-- Two sequences of requests to fresh ledgers that have the same requests for a scope, in the same order: these are
told the same, be it a name or a refusal with its listing, and all that can be asked about the scope afterwards has
the same answer. It is the same with registers, where the requests for other scopes may give the names other
numbers. -/
theorem answers_eq_of_requests_eq (settings : NameSettings) (s : Scope) {requests requests' : List Request}
    (h : requests.filter (·.scope = s) = requests'.filter (·.scope = s)) :
    let l := (empty settings).afterRequests requests
    let l' := (empty settings).afterRequests requests'
    let g := (Register.empty settings).afterRequests requests
    let g' := (Register.empty settings).afterRequests requests'
    (((empty settings).transcript requests).filter (·.1.scope = s) =
        ((empty settings).transcript requests').filter (·.1.scope = s) ∧
      l.decisionsIn s = l'.decisionsIn s ∧ l.scopeDump s = l'.scopeDump s ∧
      (∀ name, l.isTaken s name = l'.isTaken s name) ∧
      ∀ r : Request, r.scope = s → l.peek r = l'.peek r) ∧
    ((Register.empty settings).transcript requests).filter (·.1.scope = s) =
        ((Register.empty settings).transcript requests').filter (·.1.scope = s) ∧
      (g.tables s).decisions = (g'.tables s).decisions ∧ g.reading s = g'.reading s := by
  intro l l' g g'
  have hagree : AgreeIn s l l' := agreeIn_of_requests_eq settings h
  have htranscript := transcript_eq_of_requests_eq settings h
  have hmirrors : g.Mirrors l := (Register.mirrors_empty settings).afterRequests requests
  have hmirrors' : g'.Mirrors l' := (Register.mirrors_empty settings).afterRequests requests'
  refine ⟨⟨htranscript, hagree.decisions, hagree.scopeDump_eq, hagree.isTaken_eq, fun r hr => hagree.peek_eq hr⟩,
    ?_, ?_, ?_⟩
  · rw [(Register.transcript_eq_ledger settings requests).1, (Register.transcript_eq_ledger settings requests').1,
      htranscript]
  · rw [(hmirrors.lists s).decisions, (hmirrors'.lists s).decisions, hagree.decisions]
  · rw [hmirrors.reading_eq, hmirrors'.reading_eq, hagree.reading_eq]

/-- A request for another scope, and three for one scope, the last of which finds no free name in one attempt. The
first asks for a name that comes up in the one scope too. -/
def crossedRequests : List Request :=
  let request owner signature base := Request.of (.member (.of "app" owner "Value" signature)) base
    (.ofSurface ⟨"app", owner⟩ false)
  [request "App.Box" "()" "Value", request "App.Bag" "()" "Value2", request "App.Bag" "(System.Int32)" "Value",
    request "App.Bag" "" "Value"]

/-- Without the request for the other scope the names have other numbers, and the answers are the same. -/
theorem answers_eq_of_crossedRequests :
    let settings := { NameSettings.default with maxSuffixAttempts := 1 }
    let s := Scope.ofSurface ⟨"app", "App.Bag"⟩ false
    let alone := crossedRequests.filter (·.scope = s)
    ((Register.empty settings).afterRequests crossedRequests).interner.get? "Value" = some 0 ∧
      ((Register.empty settings).afterRequests alone).interner.get? "Value" = some 1 ∧
      ((Register.empty settings).transcript crossedRequests).filter (·.1.scope = s) =
        ((Register.empty settings).transcript alone).filter (·.1.scope = s) ∧
      ((empty settings).transcript crossedRequests).filter (·.1.scope = s) =
        ((empty settings).transcript alone).filter (·.1.scope = s) ∧
      ((empty settings).transcript alone).map (fun told => told.2.toOption) = [some "Value2", some "Value", none] := by
  intro settings s alone
  have hfilter : crossedRequests.filter (·.scope = s) = alone.filter (·.scope = s) := by
    rw [List.filter_filter]
    simp only [Bool.and_self]
  obtain ⟨⟨hledger, -⟩, hregister, -⟩ := answers_eq_of_requests_eq settings s hfilter
  exact ⟨by decide +kernel, by decide +kernel, hregister, hledger, by decide +kernel⟩

end Ledger

end Exonym
