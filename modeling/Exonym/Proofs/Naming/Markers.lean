import Exonym.Proofs.Ledger.Choices
import Exonym.Proofs.Ledger.Peeking
import Exonym.Proofs.Naming.Total

/-!
# What the marker of a view says

A member of a view is marked if its natural name is taken on the surface of its type. Whether it is taken is found out
by a trial: the member asks for a name on the surface as if it were there, and the name it would get is compared to the
natural one. A trial tells more than whether a name is taken. It goes by the user's choice, which may be another name
although the natural one is free, and where no suffix is left it fails, and the run with it.

Main statements:

* `Ledger.peek_eq_error_iff`, `Ledger.peek_telling_iff`: when a trial fails, and when it says what it is made for.
* `SymbolGraph.marks_iff_of_reaches`: when the marker says what it is for, in every run.
* `SymbolGraph.mismarked_of_shelf`: a marker on a name that is not taken, and a run that fails for want of a suffix on a
  surface that the member is not on.
-/

namespace Exonym

/-! ## Trials -/

/-- A request of a symbol on its own: in no group, for no interface, in its style. -/
structure Request.Lone (r : Request) : Prop where
  group : r.group = none
  qualifier : r.qualifier = none
  styled : r.verbatim = false

theorem Request.lone_of (id : SymbolId) (base : String) (s : Scope) : (Request.of id base s).Lone := ⟨rfl, rfl, rfl⟩

namespace Ledger

/-- The name that a request would get if nothing else had it and the user had not chosen another. -/
def natural (l : Ledger) (r : Request) : String :=
  l.naturalName r.base r.kind

/-- There is no name left for the request: the natural one is taken, and so are the user's choice and the natural name
with any suffix that may be tried. -/
structure Spent (l : Ledger) (r : Request) : Prop where
  unnamed : l.decision? r.id r.scope = none
  taken : l.isTaken r.scope (l.natural r) = true
  chosen : ∀ w, l.settings.overrides.find? r.id.text = some w → l.isTaken r.scope w = true
  suffixed : ∀ k < l.settings.maxSuffixAttempts.toNat,
    l.isTaken r.scope (l.natural r ++ toString (min (l.nextSuffix r.scope (l.natural r) + k) maxSuffix)) = true

variable {l : Ledger} {r : Request}

/-- What a request on its own is answered, if the user's choice is out of question. -/
theorem answer_of_lone (hr : r.Lone)
    (hchosen : ∀ w, l.settings.overrides.find? r.id.text = some w → l.isTaken r.scope w = true) :
    l.answer r = if l.isTaken r.scope (l.natural r) then
        match searchSuffix (fun name => !l.isTaken r.scope name) (l.natural r) l.settings.maxSuffixAttempts.toNat
            (l.nextSuffix r.scope (l.natural r)) with
        | some n => .ok ⟨l.natural r ++ toString n, .automatic, .numericSuffix (.ofNat n), (l.candidate r).2⟩
        | none => .error (.suffixExhausted r.scope (l.natural r) l.settings.maxSuffixAttempts (l.scopeDump r.scope))
      else .ok ⟨l.natural r, .automatic, .none, (l.candidate r).2⟩ := by
  have hg : r.group.bind (l.groupName? r.scope) = none := by rw [hr.group, Option.bind_none]
  -- what the user has chosen is taken, so it is passed over
  have ho : l.override? r = none := by
    cases ho : l.override? r with
    | none => rfl
    | some w =>
      obtain ⟨-, hw, hfree⟩ := (override?_eq_some_iff hg).1 ho
      rw [hchosen w hw] at hfree
      cases hfree
  have hcandidate : (l.candidate r).1 = l.natural r := candidate_of_not_verbatim hr.styled
  rw [answer_of_open hg ho, hcandidate]
  unfold freeVariant?
  simp only [isFree_eq_not_isTaken hg, hr.qualifier, Option.map_none, Option.filter_none, hr.styled]
  cases l.isTaken r.scope (l.natural r) with
  | false => rfl
  | true =>
    cases searchSuffix (fun name => !l.isTaken r.scope name) (l.natural r) l.settings.maxSuffixAttempts.toNat
      (l.nextSuffix r.scope (l.natural r)) <;> rfl

/-- A trial of a new symbol on its own: the user's choice, the natural name or that with a suffix, or no name at all. -/
theorem peek_cases (hr : r.Lone) (hnew : l.decision? r.id r.scope = none) :
    (∃ w, l.settings.overrides.find? r.id.text = some w ∧ l.isTaken r.scope w = false ∧ l.peek r = .ok w) ∨
      (∀ w, l.settings.overrides.find? r.id.text = some w → l.isTaken r.scope w = true) ∧
        (l.isTaken r.scope (l.natural r) = false ∧ l.peek r = .ok (l.natural r) ∨
          l.isTaken r.scope (l.natural r) = true ∧ (∃ n : Nat, l.peek r = .ok (l.natural r ++ toString n)) ∨
          l.Spent r ∧ l.peek r = .error (.suffixExhausted r.scope (l.natural r) l.settings.maxSuffixAttempts
            (l.scopeDump r.scope))) := by
  have hpeek : l.peek r = (l.answer r).map (·.finalName) := by rw [peek, hnew]
  have hg : r.group.bind (l.groupName? r.scope) = none := by rw [hr.group, Option.bind_none]
  by_cases hchosen : ∀ w, l.settings.overrides.find? r.id.text = some w → l.isTaken r.scope w = true
  · refine .inr ⟨hchosen, ?_⟩
    rw [hpeek, answer_of_lone hr hchosen]
    cases htaken : l.isTaken r.scope (l.natural r) with
    | false => exact .inl ⟨rfl, rfl⟩
    | true =>
      cases hsearch : searchSuffix (fun name => !l.isTaken r.scope name) (l.natural r)
          l.settings.maxSuffixAttempts.toNat (l.nextSuffix r.scope (l.natural r)) with
      | some n => exact .inr (.inl ⟨rfl, n, rfl⟩)
      | none =>
        have hsuffixed := (searchSuffix_eq_none_iff (l.nextSuffix_le_maxSuffix _ _)).1 hsearch
        exact .inr (.inr ⟨⟨hnew, htaken, hchosen, fun k hk => by simpa using hsuffixed k hk⟩, rfl⟩)
  · push Not at hchosen
    obtain ⟨w, hw, hfree⟩ := hchosen
    have hfree : l.isTaken r.scope w = false := by simpa using hfree
    have ho : l.override? r = some w := (override?_eq_some_iff hg).2 ⟨hr.styled, hw, hfree⟩
    refine .inl ⟨w, hw, hfree, ?_⟩
    rw [hpeek, answer, hg, ho]
    rfl

/-- A trial fails just in case no name is left. -/
theorem peek_eq_error_iff (hr : r.Lone) {e : NameError} : l.peek r = .error e ↔ l.Spent r ∧
    e = .suffixExhausted r.scope (l.natural r) l.settings.maxSuffixAttempts (l.scopeDump r.scope) := by
  constructor
  · intro h
    cases hd : l.decision? r.id r.scope with
    | some d => simp [peek_of_decision? hd] at h
    | none =>
      obtain ⟨w, -, -, hw⟩ | ⟨-, ⟨-, hnatural⟩ | ⟨-, n, hsuffixed⟩ | ⟨hspent, hfailed⟩⟩ := peek_cases hr hd
      · simp [hw] at h
      · simp [hnatural] at h
      · simp [hsuffixed] at h
      · exact ⟨hspent, Except.error.inj (h.symm.trans hfailed)⟩
  · rintro ⟨hspent, rfl⟩
    have hsearch : searchSuffix (fun name => !l.isTaken r.scope name) (l.natural r)
        l.settings.maxSuffixAttempts.toNat (l.nextSuffix r.scope (l.natural r)) = none :=
      (searchSuffix_eq_none_iff (l.nextSuffix_le_maxSuffix _ _)).2 fun k hk => by
        rw [hspent.suffixed k hk, Bool.not_true]
    rw [peek, hspent.unnamed, answer_of_lone hr hspent.chosen, if_pos hspent.taken, hsearch]
    rfl

/-- Ways in which a trial is misleading about whether the natural name is taken in the scope. -/
inductive Misleads (l : Ledger) (r : Request) : Prop
  /-- The user has chosen another name, and neither is taken. -/
  | chosen {w : String} : l.decision? r.id r.scope = none → l.settings.overrides.find? r.id.text = some w →
      w ≠ l.natural r → l.isTaken r.scope w = false → l.isTaken r.scope (l.natural r) = false → Misleads l r
  /-- Nothing can be said for want of a name. -/
  | spent : l.Spent r → Misleads l r
  /-- The symbol itself has the natural name in the scope, or it has another one though the natural one is not taken. -/
  | named {d : Decision} : l.decision? r.id r.scope = some d →
      d.finalName = l.natural r ∨ l.isTaken r.scope (l.natural r) = false → Misleads l r

theorem misleads_iff_of_decision? {d : Decision} (hd : l.decision? r.id r.scope = some d) :
    l.Misleads r ↔ d.finalName = l.natural r ∨ l.isTaken r.scope (l.natural r) = false := by
  refine ⟨fun h => ?_, .named hd⟩
  cases h with
  | chosen hnew => simp [hnew] at hd
  | spent hspent => simp [hspent.unnamed] at hd
  | named hd' h => rwa [← Option.some.inj (hd'.symm.trans hd)]

theorem misleads_iff_of_new (hnew : l.decision? r.id r.scope = none) :
    l.Misleads r ↔ l.Spent r ∨ l.isTaken r.scope (l.natural r) = false ∧
      ∃ w, l.settings.overrides.find? r.id.text = some w ∧ w ≠ l.natural r ∧ l.isTaken r.scope w = false := by
  constructor
  · intro h
    cases h with
    | chosen _ hw hne hfree hnatural => exact .inr ⟨hnatural, _, hw, hne, hfree⟩
    | spent hspent => exact .inl hspent
    | named hd => simp [hnew] at hd
  · rintro (hspent | ⟨hnatural, w, hw, hne, hfree⟩)
    · exact .spent hspent
    · exact .chosen hnew hw hne hfree hnatural

/-- A trial says the natural name just in case that is not taken, unless it is misleading. -/
theorem peek_telling_iff (hr : r.Lone) :
    (∃ name, l.peek r = .ok name ∧ (name = l.natural r ↔ l.isTaken r.scope (l.natural r) = false)) ↔
      ¬l.Misleads r := by
  cases hd : l.decision? r.id r.scope with
  | some d =>
    obtain ⟨hmem, hscope, -⟩ := mem_of_decision? hd
    have htaken : l.isTaken r.scope d.finalName = true :=
      isTaken_iff.2 ⟨d, List.mem_filter.2 ⟨hmem, decide_eq_true hscope⟩, rfl⟩
    rw [peek_of_decision? hd, misleads_iff_of_decision? hd]
    simp only [Except.ok.injEq, exists_eq_left']
    by_cases hname : d.finalName = l.natural r
    · rw [hname] at htaken
      simp [hname, htaken]
    · simp [hname]
  | none =>
    rw [misleads_iff_of_new hd]
    obtain ⟨w, hw, hfree, hpeek⟩ | ⟨hchosen, ⟨hfree, hpeek⟩ | ⟨htaken, n, hpeek⟩ | ⟨hspent, hpeek⟩⟩ := peek_cases hr hd
    · have hnot : ¬l.Spent r := fun hspent => by simp [hspent.chosen w hw] at hfree
      rw [hpeek]
      simp only [Except.ok.injEq, exists_eq_left', hw, hnot, Option.some.injEq, false_or]
      by_cases hname : w = l.natural r
      · rw [hname] at hfree
        simp [hname, hfree]
      · simp [hname, hfree]
    · have hnot : ¬l.Spent r := fun hspent => by simp [hspent.taken] at hfree
      rw [hpeek]
      simp only [Except.ok.injEq, exists_eq_left', hnot, hfree, false_or, true_and, true_iff]
      rintro ⟨w, hw, -, hwfree⟩
      simp [hchosen w hw] at hwfree
    · have hnot : ¬l.Spent r := fun hspent => by simp [(peek_eq_error_iff hr).2 ⟨hspent, rfl⟩] at hpeek
      rw [hpeek]
      simp [hnot, htaken]
    · rw [hpeek]
      simp [hspent]

end Ledger

/-- The request with which a member of a view is tried on the surface. -/
def Request.trial (t : TypeSymbol) (id : MemberId) (info : MemberInfo) : Request :=
  .of (.member id) info.baseName (.ofSurface t.id info.isStatic)

namespace NamingStep

/-- What a step asks for, if it comes to ask. -/
def asks? (l : Ledger) (s : NamingStep) : Option String :=
  (s.request l).toOption.map (·.base)

theorem asks?_eq_none_iff {l : Ledger} {s : NamingStep} : s.asks? l = none ↔ ∃ e, s.request l = .error e := by
  unfold asks?
  cases s.request l <;> simp [Except.toOption]

/-- A member of a view asks for its base with the marker if its natural name is taken on the surface, and without if it
is not. -/
def MarksTaken (l : Ledger) : NamingStep → Prop
  | .viewed surface r => (viewed surface r).asks? l =
      some (if l.isTaken surface.scope (l.natural surface) then r.base ++ viewMarker else r.base)
  | .fixed _ | .renamed .. => True

instance (l : Ledger) : DecidablePred (MarksTaken l)
  | .viewed .. => inferInstanceAs (Decidable (_ = _))
  | .fixed _ | .renamed .. => inferInstanceAs (Decidable True)

theorem asks?_viewed (l : Ledger) (surface r : Request) :
    (viewed surface r).asks? l = (l.peek surface).toOption.map fun name =>
      if name = l.naturalName surface.base .member then r.base else r.base ++ viewMarker := by
  simp only [asks?, request]
  cases l.peek surface with
  | error e => rfl
  | ok name =>
    simp only [bind, Except.bind, pure, Except.pure, Except.toOption, Option.map_some]
    split <;> rfl

/-- The marker is there just in case the natural name is taken, unless the trial is misleading. -/
theorem marksTaken_iff {l : Ledger} {surface r : Request} (hsurface : surface.Lone) (hkind : surface.kind = .member) :
    MarksTaken l (.viewed surface r) ↔ ¬l.Misleads surface := by
  have hnatural : l.naturalName surface.base .member = l.natural surface := by rw [Ledger.natural, hkind]
  have hmarked : r.base ≠ r.base ++ viewMarker := by
    intro h
    simpa [viewMarker] using congrArg String.length h
  rw [← Ledger.peek_telling_iff hsurface, MarksTaken, asks?_viewed, hnatural]
  cases l.peek surface with
  | error e => simp [Except.toOption]
  | ok name =>
    simp only [Except.toOption, Option.map_some, Option.some.injEq, Except.ok.injEq, exists_eq_left']
    by_cases hname : name = l.natural surface <;> cases htaken : l.isTaken surface.scope (l.natural surface) <;>
      simp [hname, hmarked, hmarked.symm]

/-- A step for a member of a view comes to ask for nothing only if the trial fails. -/
theorem request_viewed_eq_error_iff {l : Ledger} {surface r : Request} {e : NameError} :
    (viewed surface r).request l = .error e ↔ l.peek surface = .error e := by
  simp only [request]
  cases l.peek surface with
  | error cause => simp [bind, Except.bind]
  | ok name => simp [bind, Except.bind, pure, Except.pure]

end NamingStep

/-! ## Runs -/

namespace NamingRun

variable {l here : Ledger} {s : NamingStep} {steps : List NamingStep} {e : NameError}

/-- The run comes to the step and has the ledger when it does. -/
def Reaches (l : Ledger) (steps : List NamingStep) (s : NamingStep) (here : Ledger) : Prop :=
  ∃ before after, steps = before ++ s :: after ∧ (run l before).failure = none ∧ (run l before).ledger = here

/-- A run that comes to a step that cannot ask fails there. -/
theorem Reaches.failure_of_request (h : Reaches l steps s here) (he : s.request here = .error e) :
    (run l steps).failure = some e := by
  obtain ⟨before, after, rfl, hnone, rfl⟩ := h
  have hstep : (step (run l before).ledger s).failure = some e := by simp [step, he, bind, Except.bind]
  simp [run_append, run_cons, andThen, hnone, hstep]

/-- A run that does not fail comes to all of its steps. -/
theorem exists_reaches (hrun : (run l steps).failure = none) (hs : s ∈ steps) : ∃ here, Reaches l steps s here := by
  obtain ⟨before, after, rfl⟩ := List.append_of_mem hs
  exact ⟨_, before, after, rfl, (run_append_failure hrun).1, rfl⟩

theorem reaches_of_getElem? {n : Nat} (hs : steps[n]? = some s) (hnone : (run l (steps.take n)).failure = none) :
    Reaches l steps s (run l (steps.take n)).ledger := by
  obtain ⟨hn, rfl⟩ := List.getElem?_eq_some_iff.1 hs
  exact ⟨steps.take n, steps.drop (n + 1), by rw [← List.drop_eq_getElem_cons hn, List.take_append_drop], hnone, rfl⟩

/-- What the run has decided when it comes to a step comes from one of the steps. -/
theorem Reaches.origin {settings : NameSettings} (h : Reaches (.empty settings) steps s here) {d : Decision}
    (hd : d ∈ here.decisions) : ∃ s' ∈ steps, d.id = s'.subject ∧ d.scope = s'.scope := by
  obtain ⟨before, after, rfl, -, rfl⟩ := h
  obtain ⟨s', hs', hid, hscope, -⟩ := origin_of_run hd
  exact ⟨s', List.mem_append_left _ hs', hid, hscope⟩

theorem Reaches.settings_eq (h : Reaches l steps s here) : here.settings = l.settings := by
  obtain ⟨before, -, -, -, rfl⟩ := h
  exact settings_run l before

end NamingRun

namespace SymbolGraph

variable {g : SymbolGraph} {settings : NameSettings} {t : TypeSymbol} {v : View} {id : MemberId}
  {x : MemberKind × MemberInfo} {here : Ledger}

/-- A member that is listed by a planned view has no name on the surface when its turn comes. -/
theorem Planned.decision?_surface (hg : g.Planned) (ht : t ∈ g.types) (hv : v ∈ t.views) (hid : id ∈ v.members)
    (hfind : t.members.find? id = some x) {s : NamingStep}
    (hreach : NamingRun.Reaches (.empty settings) (NamingStep.plan g) s here) (isStatic : Bool) :
    here.decision? (.member id) (.ofSurface t.id isStatic) = none := by
  obtain ⟨hx, hsame⟩ := Members.mem_of_find? hfind
  have hplacement : x.2.placement = .viewOnly :=
    (hg.views t ht).placement_of_holds (hg.consistent.members t ht) hx hv
      (List.any_eq_true.2 ⟨id, hid, by rwa [MemberId.same_comm]⟩)
  rw [← Ledger.decision?_congr (SymbolId.same_member.trans hsame), Ledger.decision?_eq_none_iff]
  intro d hd hscope
  by_contra hdid
  rw [Bool.not_eq_false] at hdid
  obtain ⟨s', hs', hsubject, hsscope⟩ := hreach.origin hd
  have hsurface := (NamingStep.eq_ofMember hg hs' ht hx (hsscope.symm.trans hscope) (hsubject ▸ hdid)).2
  simp [MemberInfo.onPrimarySurface, hplacement, Placement.isPrimary] at hsurface

/-- When a run comes to a member of a view, the marker says whether the natural name of the member is taken on the
surface, unless the trial is misleading. If the trial fails, then because no name is left on the surface, and the run
fails with it. In a graph whose views were planned the member itself has no name there. -/
theorem marks_iff_of_reaches (ht : t ∈ g.types) (hv : v ∈ t.views) (hid : id ∈ v.members)
    (hfind : t.members.find? id = some x)
    (hreach : NamingRun.Reaches (.empty settings) (NamingStep.plan g) (.ofViewMember t v id x.1 x.2) here) :
    ((NamingStep.ofViewMember t v id x.1 x.2).MarksTaken here ↔ ¬here.Misleads (.trial t id x.2)) ∧
      (∀ e, (NamingStep.ofViewMember t v id x.1 x.2).request here = .error e ↔ here.Spent (.trial t id x.2) ∧
        e = .suffixExhausted (.ofSurface t.id x.2.isStatic) (here.naturalName x.2.baseName .member)
          settings.maxSuffixAttempts (here.scopeDump (.ofSurface t.id x.2.isStatic))) ∧
      (∀ e, (NamingStep.ofViewMember t v id x.1 x.2).request here = .error e →
        (g.reserveNames (.empty settings)).failure = some e) ∧
      (g.Planned → here.decision? (.member id) (.ofSurface t.id x.2.isStatic) = none) := by
  have hlone : (Request.trial t id x.2).Lone := Request.lone_of _ _ _
  have hsettings : here.settings = settings := hreach.settings_eq
  refine ⟨NamingStep.marksTaken_iff hlone rfl, fun e => ?_, fun e he => hreach.failure_of_request he,
    fun hg => hg.decision?_surface ht hv hid hfind hreach _⟩
  rw [NamingStep.ofViewMember, NamingStep.request_viewed_eq_error_iff, ← hsettings]
  exact Ledger.peek_eq_error_iff hlone

/-- A method and an explicit implementation of one name: when the run comes to the explicit one, its name is taken. -/
theorem marks_iff_of_reaches_of_store :
    ∃ g, build Gallery.store [] = .ok g ∧ ∃ t ∈ g.planViews.1.types, ∃ v ∈ t.views, ∃ id ∈ v.members, ∃ x,
      t.members.find? id = some x ∧ ∃ here,
        NamingRun.Reaches (.empty .default) (NamingStep.plan g.planViews.1) (.ofViewMember t v id x.1 x.2) here ∧
        ((NamingStep.ofViewMember t v id x.1 x.2).MarksTaken here ↔ ¬here.Misleads (.trial t id x.2)) ∧
        (g.planViews.1.reserveNames (.empty .default)).ledger.decisions.any
          (fun d => d.id.same (.member id) && d.requested == "Dispose$view") = true := by
  have hrun : (build Gallery.store []).toOption.any (fun g =>
      (g.planViews.1.reserveNames (.empty .default)).failure.isNone &&
        decide (∃ t ∈ g.planViews.1.types, ∃ v ∈ t.views, ∃ id ∈ v.members, (t.members.find? id).isSome = true ∧
          (g.planViews.1.reserveNames (.empty .default)).ledger.decisions.any
            (fun d => d.id.same (.member id) && d.requested == "Dispose$view") = true)) = true := by
    simp only [build, sortTypes, settle_eq, sortAliases, planViews, TypeSymbol.planViews, sortMembers, reserveNames,
      NamingStep.plan, NamingStep.ofMembers, NamingStep.surfaceMembers, mergeSort_eq_sortTo]
    decide +kernel
  obtain ⟨g, hbuild, hrun⟩ := exists_of_any hrun
  obtain ⟨hnone, hmember⟩ := Bool.and_eq_true_iff.1 hrun
  obtain ⟨t, ht, v, hv, id, hid, hfound, hmarked⟩ := of_decide_eq_true hmember
  obtain ⟨x, hfind⟩ := Option.isSome_iff_exists.1 hfound
  obtain ⟨here, hreach⟩ := NamingRun.exists_reaches (Option.isNone_iff_eq_none.1 hnone)
    (NamingStep.mem_plan_iff.2 (.viewed ht hv hid hfind))
  exact ⟨g, hbuild, t, ht, v, hv, id, hid, x, hfind, here, hreach,
    (marks_iff_of_reaches ht hv hid hfind hreach).1, hmarked⟩

/-- A type with nothing but an explicit implementation. -/
def shelf : List TypeSymbol := [
  (Gallery.draft "App.Shelf" .classType
    |>.explicitMethod (Gallery.system "IDisposable") "Dispose" (Gallery.system "Void")).type]

/-- A free name of the user's for the explicit implementation. -/
def closing : NameSettings :=
  { NameSettings.default with overrides := .ofList [("app:App.Shelf::System.IDisposable.Dispose()", "Close")] }

/-- The explicit implementation is marked though `Dispose` is free, for the sake of the user's choice. And where no
suffix may be tried, the run for a method and an explicit implementation of one name fails on behalf of the explicit
one, for want of a name on the surface that it is not on. -/
theorem mismarked_of_shelf :
    (∃ g s here, build shelf [] = .ok g ∧
      NamingRun.Reaches (.empty closing) (NamingStep.plan g.planViews.1) s here ∧ ¬s.MarksTaken here ∧
      s.asks? here = some "Dispose$view" ∧ here.isTaken (.ofSurface ⟨"app", "App.Shelf"⟩ false) "Dispose" = false) ∧
    ∃ g s here e, build Gallery.store [] = .ok g ∧
      NamingRun.Reaches (.empty { NameSettings.default with maxSuffixAttempts := 0 })
        (NamingStep.plan g.planViews.1) s here ∧ ¬s.MarksTaken here ∧ s.request here = .error e ∧
      (g.planViews.1.reserveNames (.empty { NameSettings.default with maxSuffixAttempts := 0 })).failure = some e ∧
      e.message = "no free name for `Dispose` in type:app:App.Store#instance after 0 attempts" := by
  have hmarked : (build shelf []).toOption.any (fun g =>
      let before := NamingRun.run (.empty closing) ((NamingStep.plan g.planViews.1).take 3)
      before.failure.isNone && (NamingStep.plan g.planViews.1)[3]?.any fun s =>
        decide (¬s.MarksTaken before.ledger ∧ s.asks? before.ledger = some "Dispose$view" ∧
          before.ledger.isTaken (.ofSurface ⟨"app", "App.Shelf"⟩ false) "Dispose" = false)) = true := by
    simp only [build, sortTypes, settle_eq, sortAliases, planViews, TypeSymbol.planViews, sortMembers,
      NamingStep.plan, NamingStep.ofMembers, NamingStep.surfaceMembers, mergeSort_eq_sortTo]
    decide +kernel
  have hfailed : (build Gallery.store []).toOption.any (fun g =>
      let before := NamingRun.run (.empty { NameSettings.default with maxSuffixAttempts := 0 })
        ((NamingStep.plan g.planViews.1).take 4)
      before.failure.isNone &&
        ((NamingStep.plan g.planViews.1)[4]?.any fun s =>
          decide (¬s.MarksTaken before.ledger ∧ s.asks? before.ledger = none)) &&
        (g.planViews.1.reserveNames (.empty { NameSettings.default with maxSuffixAttempts := 0 })).failure.any
          (·.message = "no free name for `Dispose` in type:app:App.Store#instance after 0 attempts")) = true := by
    simp only [build, sortTypes, settle_eq, sortAliases, planViews, TypeSymbol.planViews, sortMembers, reserveNames,
      NamingStep.plan, NamingStep.ofMembers, NamingStep.surfaceMembers, mergeSort_eq_sortTo]
    decide +kernel
  refine ⟨?_, ?_⟩
  · obtain ⟨g, hbuild, hrun⟩ := exists_of_any hmarked
    obtain ⟨hnone, hstep⟩ := Bool.and_eq_true_iff.1 hrun
    obtain ⟨s, hs, hstep⟩ := (Option.any_eq_true _ _).1 hstep
    exact ⟨g, s, _, hbuild, NamingRun.reaches_of_getElem? hs (Option.isNone_iff_eq_none.1 hnone),
      of_decide_eq_true hstep⟩
  · obtain ⟨g, hbuild, hrun⟩ := exists_of_any hfailed
    obtain ⟨hrun, hmessage⟩ := Bool.and_eq_true_iff.1 hrun
    obtain ⟨hnone, hstep⟩ := Bool.and_eq_true_iff.1 hrun
    obtain ⟨s, hs, hstep⟩ := (Option.any_eq_true _ _).1 hstep
    obtain ⟨hmarks, hsilent⟩ := of_decide_eq_true hstep
    have hreach := NamingRun.reaches_of_getElem? hs (Option.isNone_iff_eq_none.1 hnone)
    obtain ⟨e, he⟩ := NamingStep.asks?_eq_none_iff.1 hsilent
    have hfailure := hreach.failure_of_request he
    refine ⟨g, s, _, e, hbuild, hreach, hmarks, he, hfailure, ?_⟩
    simpa [reserveNames, hfailure] using hmessage

end SymbolGraph

end Exonym
