import Exonym.Naming.Plan
import Exonym.Proofs.Ledger.Uniqueness
import Exonym.Proofs.Graph.Traverse

/-!
# Running a plan of names

A run takes its steps one after the other, and a step adds at most one decision to the ledger, about the symbol and
the scope that the step is for. What every recorded answer keeps holds after any run; and a run that did not fail has
left a decision for each of its steps.

Main statements:

* `NamingRun.run_induction`: what every recorded answer keeps, a run keeps.
* `NamingRun.requested_of_run`, `NamingRun.decided_of_run`: a run that does not fail decides every step of it.
* `NamingRun.origin_of_run`: every decision comes from a step.
-/

namespace Exonym

namespace NamingStep

/-- The symbol that a step names. -/
def subject : NamingStep → SymbolId
  | .fixed r => r.id
  | .viewed _ r => r.id
  | .renamed id _ _ => .type id

/-- The scope in which a step names its symbol. -/
def scope : NamingStep → Scope
  | .fixed r => r.scope
  | .viewed _ r => r.scope
  | .renamed _ s _ => s

/-- The overload group that a step names its symbol in. -/
def group : NamingStep → Option String
  | .fixed r => r.group
  | .viewed _ r => r.group
  | .renamed .. => none

/-- Whether a step asks for its name as it is. -/
def verbatim : NamingStep → Bool
  | .fixed r => r.verbatim
  | .viewed _ r => r.verbatim
  | .renamed .. => true

/-- What the ledger says has no influence on what a request is for. -/
theorem request_about {l : Ledger} {s : NamingStep} {r : Request} (h : s.request l = .ok r) :
    r.id = s.subject ∧ r.scope = s.scope ∧ r.group = s.group ∧ r.verbatim = s.verbatim := by
  cases s with
  | fixed q =>
    obtain rfl : q = r := by simpa [request] using h
    exact ⟨rfl, rfl, rfl, rfl⟩
  | viewed surface q =>
    obtain ⟨name, -, h⟩ := bind_eq_ok h
    simp only [pure, Except.pure, Except.ok.injEq] at h
    split at h
    · subst h
      exact ⟨rfl, rfl, rfl, rfl⟩
    · subst h
      exact ⟨rfl, rfl, rfl, rfl⟩
  | renamed id s reason =>
    obtain ⟨name, -, h⟩ := bind_eq_ok h
    obtain rfl := Except.ok.inj h
    exact ⟨rfl, rfl, rfl, rfl⟩

end NamingStep

namespace NamingRun

/-- A step fails and leaves the ledger alone, or its request is granted. -/
theorem step_cases (l : Ledger) (s : NamingStep) :
    ((step l s).ledger = l ∧ (step l s).failure ≠ none) ∨
      ∃ r name, s.request l = .ok r ∧ l.reserve r = .ok (name, (step l s).ledger) ∧ (step l s).failure = none := by
  unfold step
  cases hr : s.request l with
  | error e => exact .inl ⟨rfl, by simp [bind, Except.bind]⟩
  | ok r =>
    cases hg : l.reserve r with
    | error e => exact .inl (by simp [reserve, hg, bind, Except.bind])
    | ok granted =>
      obtain ⟨name, after⟩ := granted
      refine .inr ⟨r, name, rfl, ?_, ?_⟩ <;> simp [reserve, hg, bind, Except.bind, pure, Except.pure]

theorem run_cons (l : Ledger) (s : NamingStep) (rest : List NamingStep) :
    run l (s :: rest) = (step l s).andThen (run · rest) := rfl

theorem run_cons_ledger (l : Ledger) (s : NamingStep) (rest : List NamingStep) :
    (run l (s :: rest)).ledger = (step l s).ledger ∧ (step l s).failure ≠ none ∨
      (run l (s :: rest)).ledger = (run (step l s).ledger rest).ledger ∧ (step l s).failure = none := by
  rw [run_cons]
  unfold andThen
  cases h : (step l s).failure with
  | some e => exact .inl ⟨rfl, by simp⟩
  | none => exact .inr ⟨rfl, rfl⟩

theorem run_cons_failure {l : Ledger} {s : NamingStep} {rest : List NamingStep}
    (h : (run l (s :: rest)).failure = none) :
    (step l s).failure = none ∧ (run (step l s).ledger rest).failure = none ∧
      (run l (s :: rest)).ledger = (run (step l s).ledger rest).ledger := by
  rw [run_cons] at h ⊢
  unfold andThen at h ⊢
  cases hs : (step l s).failure with
  | some e => simp [hs] at h
  | none => simpa [hs] using h

/-- A run of two plans that does not fail is a run of the second one from where the first one got to. -/
theorem run_append_failure {l : Ledger} {first second : List NamingStep} (h : (run l (first ++ second)).failure = none) :
    (run l first).failure = none ∧ (run (run l first).ledger second).failure = none ∧
      (run l (first ++ second)).ledger = (run (run l first).ledger second).ledger := by
  rw [run_append] at h ⊢
  unfold andThen at h ⊢
  cases hfirst : (run l first).failure with
  | some e => simp [hfirst] at h
  | none => simpa [hfirst] using h

/-- What is kept by writing down an answer to any of the steps is kept by the run. -/
theorem run_induction {P : Ledger → Prop} {l : Ledger} {steps : List NamingStep} (hl : P l)
    (hrecord : ∀ s ∈ steps, ∀ l r a, P l → s.request l = .ok r → l.decision? r.id r.scope = none →
      l.answer r = .ok a → P { l with decisions := l.decisions ++ [Ledger.record r a] }) :
    P (run l steps).ledger := by
  induction steps generalizing l with
  | nil => exact hl
  | cons s rest ih =>
    have hstep : P (step l s).ledger := by
      rcases step_cases l s with ⟨h, -⟩ | ⟨r, name, hr, hg, -⟩
      · rwa [h]
      · rcases Ledger.reserve_eq_ok_iff.1 hg with ⟨-, -, -, -, h⟩ | ⟨hnew, a, ha, -, h⟩
        · rwa [h]
        · rw [h]
          exact hrecord s (by simp) l r a hl hr hnew ha
    rcases run_cons_ledger l s rest with ⟨h, -⟩ | ⟨h, -⟩
    · rwa [h]
    · rw [h]
      exact ih hstep fun s' hs' => hrecord s' (by simp [hs'])

theorem settings_run (l : Ledger) (steps : List NamingStep) : (run l steps).ledger.settings = l.settings :=
  run_induction (P := fun l' => l'.settings = l.settings) rfl fun _ _ _ _ _ h _ _ _ => h

/-- Decisions stay where they are, and others come after them. -/
theorem decisions_prefix_run (l : Ledger) (steps : List NamingStep) :
    l.decisions <+: (run l steps).ledger.decisions :=
  run_induction (P := fun later => l.decisions <+: later.decisions) List.prefix_rfl
    fun _ _ _ _ _ h _ _ _ => h.trans (List.prefix_append _ _)

/-- No decision is lost. -/
theorem mem_run_of_mem {l : Ledger} {steps : List NamingStep} {d : Decision} (hd : d ∈ l.decisions) :
    d ∈ (run l steps).ledger.decisions :=
  (decisions_prefix_run l steps).subset hd

theorem coherent_run {l : Ledger} (hl : l.Coherent) (steps : List NamingStep) : (run l steps).ledger.Coherent :=
  run_induction (P := Ledger.Coherent) hl fun _ _ _ _ _ h _ hnew ha => h.record hnew ha

/-- Every decision of a run that started with nothing comes from one of its steps. -/
theorem origin_of_run {settings : NameSettings} {steps : List NamingStep} {d : Decision}
    (hd : d ∈ (run (.empty settings) steps).ledger.decisions) :
    ∃ s ∈ steps, d.id = s.subject ∧ d.scope = s.scope ∧ d.group = s.group := by
  revert d
  refine run_induction (P := fun l => ∀ {d}, d ∈ l.decisions →
    ∃ s ∈ steps, d.id = s.subject ∧ d.scope = s.scope ∧ d.group = s.group) ?_ ?_
  · intro d hd
    simp [Ledger.empty] at hd
  · intro s hs l r a hl hr _ _ d hd
    rcases List.mem_append.1 hd with hd | hd
    · exact hl hd
    · obtain rfl := List.mem_singleton.1 hd
      obtain ⟨hid, hscope, hgroup, -⟩ := NamingStep.request_about hr
      exact ⟨s, hs, hid, hscope, hgroup⟩

/-- A run that does not fail leaves a decision for what each of its steps asked for when its turn came. -/
theorem requested_of_run {l : Ledger} {steps : List NamingStep} (h : (run l steps).failure = none) :
    ∀ s ∈ steps, ∃ l' r, ∃ d ∈ (run l steps).ledger.decisions, s.request l' = .ok r ∧ d.scope = r.scope ∧
      d.id.same r.id = true ∧ d.requested = r.base := by
  induction steps generalizing l with
  | nil => simp
  | cons s rest ih =>
    obtain ⟨hs, hrest, hledger⟩ := run_cons_failure h
    rw [hledger]
    intro s' hs'
    rcases List.mem_cons.1 hs' with rfl | hs'
    · rcases step_cases l s' with ⟨-, hfail⟩ | ⟨r, name, hr, hg, -⟩
      · exact absurd hs hfail
      · rcases Ledger.reserve_eq_ok_iff.1 hg with ⟨d, hd, hbase, -, heq⟩ | ⟨-, a, -, -, heq⟩
        · obtain ⟨hmem, hdscope, hdid⟩ := Ledger.mem_of_decision? hd
          exact ⟨l, r, d, mem_run_of_mem (by rwa [heq]), hr, hdscope, hdid, hbase⟩
        · refine ⟨l, r, Ledger.record r a, mem_run_of_mem (by simp [heq]), hr, rfl, ?_, rfl⟩
          simp [Ledger.record, SymbolId.same]
    · exact ih hrest s' hs'

/-- A run that does not fail leaves a decision for each of its steps. -/
theorem decided_of_run {l : Ledger} {steps : List NamingStep} (h : (run l steps).failure = none) :
    ∀ s ∈ steps, ∃ d ∈ (run l steps).ledger.decisions, d.scope = s.scope ∧ d.id.same s.subject = true := by
  intro s hs
  obtain ⟨l', r, d, hd, hr, hscope, hid, -⟩ := requested_of_run h s hs
  obtain ⟨hrid, hrscope, -, -⟩ := NamingStep.request_about hr
  exact ⟨d, hd, hscope.trans hrscope, hrid ▸ hid⟩

end NamingRun

end Exonym
