import Exonym.Proofs.Ledger.Requests

/-!
# What a request goes by

A request is answered from the settings and from what is known of its scope: the decision about its symbol, who holds
a name, what an overload group is called, which suffix comes next, and the listing that goes with a refusal. The
answer, and the decision that is written down, are functions of these alone, however they are kept.

Main statements:

* `Ledger.answer_eq_reading`, `Ledger.peek_eq_reading`: a ledger answers a request by what it reads in the scope.
* `Ledger.outcome_eq_reading`, `Ledger.afterRequest_eq_reading`: so does it tell its answer and write it down.
-/

namespace Exonym

/-- What there is to know about one scope. -/
structure ScopeReading where
  settings : NameSettings
  decision? : SymbolId → Option Decision
  holder? : String → Option Holder
  groupName? : String → Option String
  nextSuffix : String → Nat
  dump : List String

namespace ScopeReading

def isFree (x : ScopeReading) (name : String) (group : Option String) : Bool :=
  match x.holder? name with
  | none => true
  | some (.group held) => group = some held
  | some (.symbol _) => false

def override? (x : ScopeReading) (r : Request) : Option String :=
  if r.verbatim then none
  else (x.settings.overrides.find? r.id.text).filter (x.isFree · r.group)

def freeVariant? (x : ScopeReading) (r : Request) (base : String) : Option (String × Strategy) :=
  let free name := x.isFree name r.group
  let qualified := (r.qualifier.map fun short => base ++ "_" ++ short).filter free
  if free base then some (base, .none)
  else match qualified with
    | some name => some (name, .interfaceQualified)
    | none =>
      (Ledger.searchSuffix free base x.settings.maxSuffixAttempts.toNat (x.nextSuffix base)).map fun n =>
        (base ++ toString n, .numericSuffix (.ofNat n))

/-- The name that a request gets, if the symbol has none in the scope. -/
def answer (x : ScopeReading) (r : Request) : Except NameError Ledger.Answer :=
  match r.group.bind x.groupName? with
  | some name => .ok ⟨name, .automatic, .overloadShared, false⟩
  | none =>
    match x.override? r with
    | some name => .ok ⟨name, .override, .none, false⟩
    | none =>
      let (base, sanitized) := (Ledger.empty x.settings).candidate r
      match x.freeVariant? r base with
      | some (name, strategy) =>
        .ok ⟨name, if r.verbatim then .verbatim else .automatic, strategy, sanitized⟩
      | none => .error (.suffixExhausted r.scope base x.settings.maxSuffixAttempts x.dump)

def peek (x : ScopeReading) (r : Request) : Except NameError String :=
  match x.decision? r.id with
  | some d => .ok d.finalName
  | none => (x.answer r).map (·.finalName)

/-- What a request is told: its name, or why it gets none. -/
def outcome (x : ScopeReading) (r : Request) : Except NameError String :=
  match x.decision? r.id with
  | some d =>
    if d.requested = r.base then .ok d.finalName
    else .error (.conflictingReservation r.id r.scope d.requested r.base)
  | none => (x.answer r).map (·.finalName)

/-- The decision that a request leads to, unless it is refused or has been granted before. -/
def written? (x : ScopeReading) (r : Request) : Option Decision :=
  match x.decision? r.id with
  | some _ => none
  | none => (x.answer r).toOption.map (Ledger.record r)

end ScopeReading

namespace Ledger

/-- What the ledger says about a scope. -/
def reading (l : Ledger) (s : Scope) : ScopeReading where
  settings := l.settings
  decision? := fun id => l.decision? id s
  holder? := l.holder? s
  groupName? := l.groupName? s
  nextSuffix := l.nextSuffix s
  dump := l.scopeDump s

@[simp] theorem reading_decision? (l : Ledger) (s : Scope) (id : SymbolId) :
    (l.reading s).decision? id = l.decision? id s := rfl

theorem isTaken_eq_reading (l : Ledger) (s : Scope) (name : String) :
    l.isTaken s name = !(l.reading s).isFree name none := rfl

theorem answer_eq_reading (l : Ledger) (r : Request) : l.answer r = (l.reading r.scope).answer r := rfl

theorem peek_eq_reading (l : Ledger) (r : Request) : l.peek r = (l.reading r.scope).peek r := rfl

/-- What a request is told: its name, or why it gets none. -/
def outcome (l : Ledger) (r : Request) : Except NameError String :=
  (l.reserve r).map (·.1)

theorem outcome_eq_reading (l : Ledger) (r : Request) : l.outcome r = (l.reading r.scope).outcome r := by
  unfold outcome reserve ScopeReading.outcome
  rw [answer_eq_reading, reading_decision?]
  cases l.decision? r.id r.scope with
  | some d => dsimp only; split <;> rfl
  | none => cases (l.reading r.scope).answer r <;> rfl

theorem afterRequest_eq_reading (l : Ledger) (r : Request) :
    l.afterRequest r = match (l.reading r.scope).written? r with
      | some d => { l with decisions := l.decisions ++ [d] }
      | none => l := by
  unfold afterRequest reserve ScopeReading.written?
  rw [answer_eq_reading, reading_decision?]
  cases l.decision? r.id r.scope with
  | some d => by_cases hb : d.requested = r.base <;> simp [hb]
  | none => cases (l.reading r.scope).answer r <;> rfl

end Ledger

end Exonym
