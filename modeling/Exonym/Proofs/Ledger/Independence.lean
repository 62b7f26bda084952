import Exonym.Proofs.Ledger.Reading

/-!
# Scopes do not meet

What a ledger answers in a scope it reads off its settings and the decisions of that scope alone: who holds a name,
what an overload group is called, which suffix comes next, and the listing that goes with a refusal. A request adds
a decision to its own scope only. So of two ledgers that agree in a scope each stays in agreement whatever is asked
of it elsewhere, and two sequences of requests that are one sequence as far as the scope goes are answered alike
there.

Main statements:

* `Ledger.AgreeIn.reading_eq`: of ledgers that agree in a scope, the same is known about it.
* `Ledger.agreeIn_afterRequest_of_ne`: a request for another scope changes nothing in this one.
* `Ledger.AgreeIn.afterRequests_filter`: the requests for other scopes can be left out.
* `Ledger.agreeIn_of_requests_eq`, `Ledger.transcript_eq_of_requests_eq`: one scope's requests settle what is answered
  in it and known about it.
-/

namespace Exonym

namespace Ledger

/-! ## Reading one scope -/

/-- A look-up among all decisions that asks for the scope is one among those of the scope. -/
theorem find?_decisionsIn (l : Ledger) (s : Scope) (p : Decision → Bool) :
    (l.decisionsIn s).find? p = l.decisions.find? fun d => d.scope = s && p d := by
  simp [decisionsIn, List.find?_filter]

theorem decision?_eq_find? (l : Ledger) (s : Scope) (id : SymbolId) :
    l.decision? id s = (l.decisionsIn s).find? (·.id.same id) := by
  rw [find?_decisionsIn]
  rfl

theorem holder?_eq_find? (l : Ledger) (s : Scope) (name : String) :
    l.holder? s name = ((l.decisionsIn s).find? fun d => d.finalName = name).map (·.holder) := by
  rw [find?_decisionsIn]
  rfl

theorem groupName?_eq_find? (l : Ledger) (s : Scope) (group : String) :
    l.groupName? s group = ((l.decisionsIn s).find? fun d => d.group = some group).map (·.finalName) := by
  rw [find?_decisionsIn]
  rfl

/-- The ledgers have the same settings, and the same decisions in the scope. -/
structure AgreeIn (s : Scope) (l l' : Ledger) : Prop where
  settings : l.settings = l'.settings
  decisions : l.decisionsIn s = l'.decisionsIn s

namespace AgreeIn

variable {s : Scope} {l l' : Ledger}

theorem refl (s : Scope) (l : Ledger) : AgreeIn s l l :=
  ⟨rfl, rfl⟩

theorem symm (h : AgreeIn s l l') : AgreeIn s l' l :=
  ⟨h.settings.symm, h.decisions.symm⟩

theorem trans {l'' : Ledger} (h : AgreeIn s l l') (h' : AgreeIn s l' l'') : AgreeIn s l l'' :=
  ⟨h.settings.trans h'.settings, h.decisions.trans h'.decisions⟩

/-- The decisions of a scope are all there is to know about it. -/
theorem reading_eq (h : AgreeIn s l l') : l.reading s = l'.reading s := by
  have hholder : l.holder? s = l'.holder? s := by
    funext name
    rw [holder?_eq_find?, holder?_eq_find?, h.decisions]
  unfold reading
  congr 1
  · exact h.settings
  · funext id
    rw [decision?_eq_find?, decision?_eq_find?, h.decisions]
  · funext group
    rw [groupName?_eq_find?, groupName?_eq_find?, h.decisions]
  · funext base
    unfold nextSuffix
    rw [h.decisions]
  · unfold scopeDump
    rw [h.decisions, hholder]

theorem isTaken_eq (h : AgreeIn s l l') (name : String) : l.isTaken s name = l'.isTaken s name := by
  rw [isTaken_eq_reading, isTaken_eq_reading, h.reading_eq]

theorem scopeDump_eq (h : AgreeIn s l l') : l.scopeDump s = l'.scopeDump s :=
  congrArg ScopeReading.dump h.reading_eq

theorem peek_eq (h : AgreeIn s l l') {r : Request} (hr : r.scope = s) : l.peek r = l'.peek r := by
  rw [peek_eq_reading, peek_eq_reading, hr, h.reading_eq]

theorem outcome_eq (h : AgreeIn s l l') {r : Request} (hr : r.scope = s) : l.outcome r = l'.outcome r := by
  rw [outcome_eq_reading, outcome_eq_reading, hr, h.reading_eq]

end AgreeIn

/-! ## One request -/

theorem decisionsIn_append (l : Ledger) (d : Decision) (s : Scope) :
    ({ l with decisions := l.decisions ++ [d] } : Ledger).decisionsIn s =
      l.decisionsIn s ++ if d.scope = s then [d] else [] := by
  simp [decisionsIn, List.filter_append, List.filter_cons]

/-- A request for another scope changes nothing in this one. -/
theorem agreeIn_afterRequest_of_ne {s : Scope} (l : Ledger) {r : Request} (hr : r.scope ≠ s) :
    AgreeIn s (l.afterRequest r) l := by
  rcases l.afterRequest_cases r with h | ⟨-, a, -, h⟩
  · rw [h]
    exact .refl s l
  · rw [h]
    refine ⟨rfl, ?_⟩
    have hscope : (record r a).scope ≠ s := hr
    rw [decisionsIn_append, if_neg hscope, List.append_nil]

/-- Ledgers that agree in a scope agree there after a request for it. -/
theorem AgreeIn.afterRequest {s : Scope} {l l' : Ledger} (h : AgreeIn s l l') {r : Request} (hr : r.scope = s) :
    AgreeIn s (l.afterRequest r) (l'.afterRequest r) := by
  rw [afterRequest_eq_reading, afterRequest_eq_reading, hr, h.reading_eq]
  cases (l'.reading s).written? r with
  | none => exact h
  | some d =>
    refine ⟨h.settings, ?_⟩
    rw [decisionsIn_append, decisionsIn_append, h.decisions]

/-! ## Sequences of requests -/

/-- The requests of a sequence, each with what it is told when its turn comes. -/
def transcript (l : Ledger) : List Request → List (Request × Except NameError String)
  | [] => []
  | r :: rest => (r, l.outcome r) :: (l.afterRequest r).transcript rest

namespace AgreeIn

variable {s : Scope} {l l' : Ledger}

/-- The requests for other scopes can be left out, as far as the decisions of this scope go. -/
theorem afterRequests_filter (h : AgreeIn s l l') (requests : List Request) :
    AgreeIn s (l.afterRequests requests) (l'.afterRequests (requests.filter (·.scope = s))) := by
  unfold afterRequests
  induction requests generalizing l l' with
  | nil => exact h
  | cons r rest ih =>
    by_cases hr : r.scope = s
    · rw [List.filter_cons_of_pos (by simpa using hr)]
      exact ih (h.afterRequest hr)
    · rw [List.filter_cons_of_neg (by simpa using hr)]
      exact ih ((agreeIn_afterRequest_of_ne l hr).trans h)

/-- Nor do the requests for other scopes matter to what those for this one are told. -/
theorem transcript_filter (h : AgreeIn s l l') (requests : List Request) :
    (l.transcript requests).filter (·.1.scope = s) = l'.transcript (requests.filter (·.scope = s)) := by
  induction requests generalizing l l' with
  | nil => rfl
  | cons r rest ih =>
    by_cases hr : r.scope = s
    · rw [List.filter_cons_of_pos (by simpa using hr)]
      rw [transcript, transcript, List.filter_cons_of_pos (by simpa using hr), h.outcome_eq hr, ih (h.afterRequest hr)]
    · rw [List.filter_cons_of_neg (by simpa using hr)]
      rw [transcript, List.filter_cons_of_neg (by simpa using hr)]
      exact ih ((agreeIn_afterRequest_of_ne l hr).trans h)

end AgreeIn

/-- Ledgers agree in a scope after requests that are the same as far as the scope goes. -/
theorem agreeIn_of_requests_eq (settings : NameSettings) {s : Scope} {requests requests' : List Request}
    (h : requests.filter (·.scope = s) = requests'.filter (·.scope = s)) :
    AgreeIn s ((empty settings).afterRequests requests) ((empty settings).afterRequests requests') := by
  have hstart := AgreeIn.refl s (empty settings)
  refine (hstart.afterRequests_filter requests).trans ?_
  rw [h]
  exact (hstart.afterRequests_filter requests').symm

/-- So are the answers to the requests for the scope. -/
theorem transcript_eq_of_requests_eq (settings : NameSettings) {s : Scope} {requests requests' : List Request}
    (h : requests.filter (·.scope = s) = requests'.filter (·.scope = s)) :
    ((empty settings).transcript requests).filter (·.1.scope = s) =
      ((empty settings).transcript requests').filter (·.1.scope = s) := by
  have hstart := AgreeIn.refl s (empty settings)
  rw [hstart.transcript_filter requests, hstart.transcript_filter requests', h]

end Ledger

end Exonym
