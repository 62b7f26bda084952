import Exonym.Proofs.Ledger.Permanence

/-!
# Looking ahead

A request can be tried without being made. For a symbol without a name in the scope the trial is the request itself, up
to the point where the decision is written down; for a symbol with a name it is the name, even where the request would
be refused. After the request, if it is granted, a trial shows the name that it was granted.

Main statements:

* `Ledger.peek_eq_outcome`: for a new symbol, a trial says what the request is told.
* `Ledger.unheld_or_shared_of_answer`: the name in an answer is held by nothing, or is that of the overload group.
* `Ledger.peek_foretells_reserve`: what a trial says, by what the request is told.
-/

namespace Exonym

namespace Ledger

/-- For a symbol without a name in the scope, a trial says what the request is told. -/
theorem peek_eq_outcome {l : Ledger} {r : Request} (hnew : l.decision? r.id r.scope = none) :
    l.peek r = l.outcome r := by
  unfold peek outcome reserve
  rw [hnew]
  cases l.answer r <;> rfl

/-- For a symbol with a name, a trial says the name. -/
theorem peek_of_decision? {l : Ledger} {r : Request} {d : Decision} (hd : l.decision? r.id r.scope = some d) :
    l.peek r = .ok d.finalName := by
  unfold peek
  rw [hd]

/-- What is granted is what a trial said, and what it says from then on. -/
theorem peek_of_reserve_eq_ok {l after : Ledger} {r : Request} {name : String} (h : l.reserve r = .ok (name, after)) :
    l.peek r = .ok name ∧ after.peek r = .ok name := by
  obtain ⟨later, hlater, -, hname⟩ := exists_decision?_of_reserve h
  refine ⟨?_, by rw [peek_of_decision? hlater, hname]⟩
  obtain ⟨d, hd, -, hname, -⟩ | ⟨hnew, -⟩ := reserve_eq_ok_iff.1 h
  · rw [peek_of_decision? hd, hname]
  · rw [peek_eq_outcome hnew, outcome, h]
    rfl

/-- A request that gets no answer fails in the same way when it is tried. -/
theorem peek_of_answer_eq_error {l : Ledger} {r : Request} {e : NameError} (hnew : l.decision? r.id r.scope = none)
    (h : l.answer r = .error e) : l.peek r = .error e := by
  unfold peek
  rw [hnew, h]
  rfl

/-- The name in an answer is held by nothing in the scope, unless it is that of the request's overload group. -/
theorem unheld_or_shared_of_answer {l : Ledger} {r : Request} {a : Answer} (h : l.answer r = .ok a) :
    l.isTaken r.scope a.finalName = false ∨
      ∃ group, r.group = some group ∧ l.groupName? r.scope group = some a.finalName := by
  cases answer_origin h with
  | shared hgroup hname => exact .inr ⟨_, hgroup, hname⟩
  | chosen hg ho =>
    have hfree := isFree_of_override? ho
    rw [isFree_eq_not_isTaken hg, Bool.not_eq_true'] at hfree
    exact .inl hfree
  | derived hg _ hfree _ =>
    rw [isFree_eq_not_isTaken hg, Bool.not_eq_true'] at hfree
    exact .inl hfree

/-- After any requests, by what a further request is told. If it is granted a name, a trial says so before and after. If it
is refused for want of a suffix, a trial is refused in the same way; if it is refused because its symbol has a name that
was requested as something else, a trial says that name. For a new symbol, a trial says a name that nothing in the scope
has, or that of the request's overload group. A register says the same in trials, before and after the request. -/
theorem peek_foretells_reserve (settings : NameSettings) (requests : List Request) (r : Request) :
    let l := (empty settings).afterRequests requests
    let g := (IndexedRegister.empty settings).afterRequests requests
    (∀ name l', l.reserve r = .ok (name, l') → l.peek r = .ok name ∧ l'.peek r = .ok name) ∧
      (∀ scope base attempts dump, l.reserve r = .error (.suffixExhausted scope base attempts dump) →
        l.peek r = .error (.suffixExhausted scope base attempts dump)) ∧
      (∀ id scope existing requested, l.reserve r = .error (.conflictingReservation id scope existing requested) →
        ∃ name, l.finalName r.id r.scope = .ok name ∧ l.peek r = .ok name) ∧
      (∀ name, l.decision? r.id r.scope = none → l.peek r = .ok name →
        l.isTaken r.scope name = false ∨
          ∃ group, r.group = some group ∧ l.groupName? r.scope group = some name) ∧
      g.peek r = l.peek r ∧ (g.reserve r).1 = l.outcome r ∧ (g.reserve r).2.peek r = (l.afterRequest r).peek r := by
  intro l g
  have hmirrors : g.Mirrors l := (IndexedRegister.mirrors_empty settings).afterRequests requests
  refine ⟨fun name l' h => peek_of_reserve_eq_ok h, fun scope base attempts dump h => ?_,
    fun id scope existing requested h => ?_, fun name hnew h => ?_, hmirrors.shows.peek r, (hmirrors.reserve r).1,
    (hmirrors.reserve r).2.shows.peek r⟩
  · obtain ⟨hnew, ha⟩ := answer_of_suffixExhausted h
    exact peek_of_answer_eq_error hnew ha
  · obtain ⟨d, hd, -, -⟩ | ⟨-, ha⟩ := reserve_eq_error_iff.1 h
    · exact ⟨d.finalName, by rw [finalName, hd], peek_of_decision? hd⟩
    · obtain ⟨-, -, -, he⟩ := answer_eq_error_iff.1 ha
      cases he
  · unfold peek at h
    rw [hnew] at h
    cases ha : l.answer r with
    | error e => simp [ha, Except.map] at h
    | ok a =>
      obtain rfl : a.finalName = name := by simpa [ha, Except.map] using h
      exact unheld_or_shared_of_answer ha

/-- Without suffixes to try: the first method `Run` can be told its name in advance and afterwards, a second one is refused
in a trial as well, and a trial for the first one under another name says `Run`. -/
theorem peek_of_widgetRequests :
    let settings := { NameSettings.default with maxSuffixAttempts := 0 }
    let run := IndexedRegister.widgetRequest "()" "Run"
    let second := IndexedRegister.widgetRequest "(System.Int32)" "Run"
    let stop := IndexedRegister.widgetRequest "(System.Int32)" "Stop"
    let l := (empty settings).afterRequests [run]
    ((empty settings).peek run = .ok "Run" ∧ l.peek run = .ok "Run") ∧
      (∃ scope base attempts dump, l.peek second = .error (.suffixExhausted scope base attempts dump)) ∧
      l.peek { run with base := "Execute" } = .ok "Run" ∧
      l.peek stop = .ok "Stop" ∧ l.isTaken stop.scope "Stop" = false := by
  intro settings run second stop l
  obtain ⟨d, hd, hname, -⟩ := exists_commits (l := empty settings) (r := run) "Run" .none
    (by decide +kernel) (by decide +kernel)
  have hl : l = { (empty settings) with decisions := [d] } := hd.afterRequest_eq
  obtain ⟨hbefore, hafter⟩ := (peek_foretells_reserve settings [] run).1 _ _ hd
  refine ⟨⟨by rw [← hname]; exact hbefore, by rw [hl, ← hname]; exact hafter⟩, ⟨_, _, _, _,
    (peek_foretells_reserve settings [run] second).2.1 _ _ _ _
      (reserve_eq_suffixExhausted (by decide +kernel) (by decide +kernel))⟩, ?_, ?_⟩
  · obtain ⟨given, hgiven, hrequested, hgname⟩ := exists_decision?_of_reserve hd
    have hlater : l.decision? run.id run.scope = some given := by rw [hl]; exact hgiven
    have hconflict : l.reserve { run with base := "Execute" } = .error _ :=
      reserve_eq_error_iff.2 (.inl ⟨given, hlater, by rw [hrequested]; decide, rfl⟩)
    obtain ⟨name, hfinal, hpeek⟩ :=
      (peek_foretells_reserve settings [run] { run with base := "Execute" }).2.2.1 _ _ _ _ hconflict
    obtain rfl : given.finalName = name := by
      unfold finalName at hfinal
      rw [hlater] at hfinal
      exact Except.ok.inj hfinal
    rw [hpeek, hgname, hname]
  · obtain ⟨e, he, hstop, -⟩ := exists_commits (l := l) (r := stop) "Stop" .none
      (by decide +kernel) (by decide +kernel)
    have hforetold := ((peek_foretells_reserve settings [run] stop).1 _ _ he).1
    rw [hstop] at hforetold
    refine ⟨hforetold, ?_⟩
    obtain hfree | ⟨group, hgroup, -⟩ :=
      (peek_foretells_reserve settings [run] stop).2.2.2.1 _ (commits_iff.1 he).1 hforetold
    · exact hfree
    · cases hgroup

end Ledger

end Exonym
