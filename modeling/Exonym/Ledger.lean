import Exonym.Ledger.Decision
import Exonym.Ledger.ReservedWords
import Exonym.Ledger.Settings

/-!
# The ledger of names

All final names are decided here, one by one, and every decision is written down. What a scope holds, which name
an overload group has, how far the numeric suffixes of a name have been used: all of it is read off the decisions.

A request is answered in a fixed order: the name of its overload group, a name the user has chosen, the requested
name in its style and made safe from reserved words, that name with the interface added, and that name with a
numeric suffix.

Main statements:

* `Ledger.holder?_eq_none_iff`, `Ledger.isTaken_iff`: a name is held exactly when a decision of the scope has it.
* `Ledger.reserve_eq_ok`: a successful reservation adds at most one decision, for the symbol and scope asked for.
-/

namespace Exonym

structure Ledger where
  settings : NameSettings
  /-- In the order in which they were made. -/
  decisions : List Decision
  deriving Repr

namespace Ledger

def empty (settings : NameSettings) : Ledger :=
  ⟨settings, []⟩

def reservedWords (l : Ledger) : ReservedWords :=
  .withExtra l.settings.extraReservedWords

/-! ## What the decisions say -/

/-- The decisions of one scope, in the order in which they were made. -/
def decisionsIn (l : Ledger) (s : Scope) : List Decision :=
  l.decisions.filter (·.scope = s)

def decision? (l : Ledger) (id : SymbolId) (s : Scope) : Option Decision :=
  l.decisions.find? fun d => d.scope = s && d.id.same id

/-- The scopes in which a symbol has a name, in the order in which it got them. -/
def scopesOf (l : Ledger) (id : SymbolId) : List Scope :=
  (l.decisions.filter (·.id.same id)).map (·.scope)

/-- All scopes, in the order of their first decisions. -/
def scopes (l : Ledger) : List Scope :=
  (l.decisions.map (·.scope)).eraseDups

/-- Who has a name in a scope: the first to get it. -/
def holder? (l : Ledger) (s : Scope) (name : String) : Option Holder :=
  (l.decisions.find? fun d => d.scope = s && d.finalName = name).map (·.holder)

/-- Whether a member of the group, or a symbol in no group, may have the name. -/
def isFree (l : Ledger) (s : Scope) (name : String) (group : Option String) : Bool :=
  match l.holder? s name with
  | none => true
  | some (.group held) => group = some held
  | some (.symbol _) => false

def isTaken (l : Ledger) (s : Scope) (name : String) : Bool :=
  !l.isFree s name none

/-- The name of an overload group. -/
def groupName? (l : Ledger) (s : Scope) (group : String) : Option String :=
  (l.decisions.find? fun d => d.scope = s && d.group = some group).map (·.finalName)

def maxSuffix : Nat := UInt32.size - 1

/-- The suffix that a decision gave to `base`, if it did. -/
def suffixGiven? (base : String) (d : Decision) : Option Nat :=
  match d.strategy with
  | .numericSuffix n => if d.finalName = base ++ toString n.toNat then some n.toNat else none
  | _ => none

/-- The suffix to try first: 2, or the one after that given last. Suffixes stop at the largest one. -/
def nextSuffix (l : Ledger) (s : Scope) (base : String) : Nat :=
  match ((l.decisionsIn s).filterMap (suffixGiven? base)).getLast? with
  | some n => min (n + 1) maxSuffix
  | none => 2

/-- All decisions, by scope, final name and symbol. -/
def sortedDecisions (l : Ledger) : List Decision :=
  l.decisions.mergeSort fun a b => (a.order b).isLE

/-- A line for every name held in a scope, in the order of the lines. -/
def scopeDump (l : Ledger) (s : Scope) : List String :=
  let names := ((l.decisionsIn s).map (·.finalName)).eraseDups
  let lines := names.filterMap fun name => (l.holder? s name).map fun h => name ++ " -> " ++ h.text
  lines.mergeSort fun a b => (compare a b).isLE

/-- The name of a symbol in a scope. -/
def finalName (l : Ledger) (id : SymbolId) (s : Scope) : Except NameError String :=
  match l.decision? id s with
  | some d => .ok d.finalName
  | none => .error (.noDecision id (.scope s) (l.scopesOf id))

theorem holder?_eq_none_iff {l : Ledger} {s : Scope} {name : String} :
    l.holder? s name = none ↔ ∀ d ∈ l.decisionsIn s, d.finalName ≠ name := by
  simp [holder?, decisionsIn]

theorem isTaken_iff {l : Ledger} {s : Scope} {name : String} :
    l.isTaken s name = true ↔ ∃ d ∈ l.decisionsIn s, d.finalName = name := by
  have h : l.isTaken s name = true ↔ l.holder? s name ≠ none := by
    unfold isTaken isFree
    cases hh : l.holder? s name with
    | none => simp
    | some h => cases h <;> simp
  rw [h, ne_eq, holder?_eq_none_iff]
  simp

/-! ## Answering requests -/

/-- The base in its style, and whether it had to be made safe from reserved words. -/
def styled (l : Ledger) (base : String) (kind : NameKind) : String × Bool :=
  let style := match kind with
    | .type => l.settings.typeStyle
    | .member => l.settings.memberStyle
  let name := style.apply base
  match l.reservedWords.sanitize? name with
  | some safe => (safe, true)
  | none => (name, false)

/-- The name a base gets where nothing else has it. -/
def naturalName (l : Ledger) (base : String) (kind : NameKind) : String :=
  (l.styled base kind).1

/-- A name found for a request and not yet written down. -/
structure Answer where
  finalName : String
  source : NameSource
  strategy : Strategy
  sanitized : Bool
  deriving Repr

/-- The name the user has chosen for the symbol, if it is free. -/
def override? (l : Ledger) (r : Request) : Option String :=
  if r.verbatim then none
  else (l.settings.overrides.find? r.id.text).filter (l.isFree r.scope · r.group)

/-- The first free name among `base` with the suffix and those that follow it. -/
def searchSuffix (free : String → Bool) (base : String) : (attempts suffix : Nat) → Option Nat
  | 0, _ => none
  | attempts + 1, suffix =>
    if free (base ++ toString suffix) then some suffix
    else searchSuffix free base attempts (min (suffix + 1) maxSuffix)

/-- A free variant of a name: the name itself, with the interface added, or with a suffix. -/
def freeVariant? (l : Ledger) (r : Request) (base : String) : Option (String × Strategy) :=
  let free name := l.isFree r.scope name r.group
  let qualified := (r.qualifier.map fun short => base ++ "_" ++ short).filter free
  if free base then some (base, .none)
  else match qualified with
    | some name => some (name, .interfaceQualified)
    | none =>
      (searchSuffix free base l.settings.maxSuffixAttempts.toNat (l.nextSuffix r.scope base)).map fun n =>
        (base ++ toString n, .numericSuffix (.ofNat n))

/-- The name that a request gets, if the symbol has none in the scope. -/
def answer (l : Ledger) (r : Request) : Except NameError Answer :=
  match r.group.bind (l.groupName? r.scope) with
  | some name => .ok ⟨name, .automatic, .overloadShared, false⟩
  | none =>
    match l.override? r with
    | some name => .ok ⟨name, .override, .none, false⟩
    | none =>
      let (base, sanitized) := if r.verbatim then (r.base, false) else l.styled r.base r.kind
      match l.freeVariant? r base with
      | some (name, strategy) =>
        .ok ⟨name, if r.verbatim then .verbatim else .automatic, strategy, sanitized⟩
      | none => .error (.suffixExhausted r.scope base l.settings.maxSuffixAttempts (l.scopeDump r.scope))

/-- The name that a request would get, without writing it down. -/
def peek (l : Ledger) (r : Request) : Except NameError String :=
  match l.decision? r.id r.scope with
  | some d => .ok d.finalName
  | none => (l.answer r).map (·.finalName)

/-- The decision that writes an answer down. -/
def record (r : Request) (a : Answer) : Decision where
  id := r.id
  requested := r.base
  finalName := a.finalName
  reason := r.reason
  source := a.source
  strategy := a.strategy
  sanitized := a.sanitized
  scope := r.scope
  isStatic := r.isStatic
  group := r.group

/-- Gives a symbol its name in a scope, for good. Asking again for the same name gives the same answer. -/
def reserve (l : Ledger) (r : Request) : Except NameError (String × Ledger) :=
  match l.decision? r.id r.scope with
  | some d =>
    if d.requested = r.base then .ok (d.finalName, l)
    else .error (.conflictingReservation r.id r.scope d.requested r.base)
  | none => do
    let a ← l.answer r
    return (a.finalName, { l with decisions := l.decisions ++ [record r a] })

theorem reserve_eq_ok {l l' : Ledger} {r : Request} {name : String} (h : l.reserve r = .ok (name, l')) :
    l' = l ∨ ∃ d : Decision, d.id = r.id ∧ d.scope = r.scope ∧ d.finalName = name ∧
      l' = { l with decisions := l.decisions ++ [d] } := by
  unfold reserve at h
  split at h
  · split at h
    · simp only [Except.ok.injEq, Prod.mk.injEq] at h
      exact .inl h.2.symm
    · simp at h
  · cases ha : l.answer r with
    | error e => simp [ha, bind, Except.bind] at h
    | ok a =>
      simp only [ha, bind, Except.bind, pure, Except.pure, Except.ok.injEq, Prod.mk.injEq] at h
      exact .inr ⟨record r a, rfl, rfl, h.1, h.2.symm⟩

end Ledger

end Exonym
