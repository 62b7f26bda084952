import Exonym.Proofs.Ledger.Words
import Exonym.Proofs.Naming.Plan

/-!
# Reserved words among the names of a run

Constructors on a surface are all called by one word, which is reserved, and ask for it as it is. The first of them in
a scope is given the word as asked for; those after it are given it as the name of their group. Imports ask for names
as they are, and all other names are derived, so they are no reserved words. A run keeps this up without overrides and
without reserved words of the user's own.

Main statements:

* `NamingStep.manner_of_mem_plan`: the three manners in which the steps of a plan ask for names.
* `Ledger.WordsKept`: which decisions may have a reserved word for a name.
* `SymbolGraph.wordsKept_reserveNames`: this holds after any run of a plan.
-/

namespace Exonym

/-- The decision is about a constructor on a surface. -/
def Decision.IsConstructor (d : Decision) : Prop :=
  d.group = some "ctor"

/-- If both are about constructors of one scope, the second has taken its name over. -/
def Decision.TakenOver (d e : Decision) : Prop :=
  d.IsConstructor → e.IsConstructor → d.scope = e.scope → e.source = .automatic

/-- How a request comes by its name. -/
inductive Request.Manner (r : Request) : Prop
  | constructor : r.group = some "ctor" → r.verbatim = true → r.base = "constructor" →
      (∀ target, r.scope ≠ .imports target) → Manner r
  | derived : r.group ≠ some "ctor" → r.verbatim = false → Manner r
  | imported (target : String) : r.group = none → r.verbatim = true → r.scope = .imports target → Manner r

namespace NamingStep

theorem viewGroup_ne_ctor (kind : MemberKind) (info : MemberInfo) : viewGroup kind info ≠ some "ctor" := by
  unfold viewGroup
  split
  · simpa using methodGroup_ne_ctor info
  · simp

theorem manner_of_mem_plan {g : SymbolGraph} {s : NamingStep} (hs : s ∈ plan g) {l : Ledger} {r : Request}
    (h : s.request l = .ok r) : r.Manner := by
  obtain ⟨-, hscope, hgroup, hverbatim⟩ := request_about h
  cases mem_plan_iff.1 hs with
  | type ht hmem =>
    obtain ⟨isInternal, reason, rfl⟩ := eq_of_mem_ofType hmem
    exact .derived (by simp [hgroup, group, Request.of]) hverbatim
  | @surface t x ht hx hp =>
    obtain ⟨kind, info⟩ := x
    cases kind with
    | constructor =>
      obtain rfl := Except.ok.inj h
      exact .constructor rfl rfl rfl fun _ => Scope.noConfusion
    | method => exact .derived (by simpa [hgroup, group_ofMember, surfaceGroup] using methodGroup_ne_ctor info) hverbatim
    | property | field | event => exact .derived (by simp [hgroup, group_ofMember, surfaceGroup]) hverbatim
  | accessor ht hv => exact .derived (by simp [hgroup, ofAccessor, group, Request.of]) hverbatim
  | @viewed t v id x ht hv hid hf => exact .derived (hgroup ▸ viewGroup_ne_ctor x.1 x.2) hverbatim
  | @«import» ns _ hns hmem =>
    obtain ⟨hs, hg, hv⟩ := of_mem_ofImports hmem
    exact .imported ns.name (hgroup.trans hg) (hverbatim.trans hv) (hscope.trans hs)

end NamingStep

namespace Ledger

/-- The names in the ledger that may be reserved words are those of imports and of constructors; a constructor has the
word as its name by right if it is the first of its scope. -/
structure WordsKept (l : Ledger) : Prop where
  derived : ∀ d ∈ l.decisions, ¬d.IsConstructor → l.reservedWords.contains d.finalName = false ∨
    (d.source = .verbatim ∧ d.group = none ∧ ∃ target, d.scope = .imports target)
  constructor : ∀ d ∈ l.decisions, d.IsConstructor →
    d.finalName = "constructor" ∧ ∀ target, d.scope ≠ .imports target
  first : ∀ d ∈ l.decisions, d.IsConstructor → d.source = .verbatim ∨
    ∃ e ∈ l.decisions, e.IsConstructor ∧ e.scope = d.scope ∧ e.id.same d.id = false
  later : l.decisions.Pairwise Decision.TakenOver

/-- What a decision that comes after those of the ledger has to be like so that this goes on. -/
structure WordsKeptBy (l : Ledger) (d : Decision) : Prop where
  derived : ¬d.IsConstructor → l.reservedWords.contains d.finalName = false ∨
    (d.source = .verbatim ∧ d.group = none ∧ ∃ target, d.scope = .imports target)
  constructor : d.IsConstructor → d.finalName = "constructor" ∧ ∀ target, d.scope ≠ .imports target
  source : d.IsConstructor → (d.source = .verbatim ∧ l.groupName? d.scope "ctor" = none) ∨
    (d.source = .automatic ∧ ∃ e ∈ l.decisions, e.IsConstructor ∧ e.scope = d.scope ∧ e.id.same d.id = false)

theorem wordsKept_empty (settings : NameSettings) : (empty settings).WordsKept :=
  ⟨by simp [empty], by simp [empty], by simp [empty], .nil⟩

/-- Of two constructors of one scope, one has taken its name over. -/
theorem WordsKept.automatic_of_ne {l : Ledger} (hl : l.WordsKept) {d e : Decision} (hd : d ∈ l.decisions)
    (he : e ∈ l.decisions) (hne : d ≠ e) (hdc : d.IsConstructor) (hec : e.IsConstructor) (hs : d.scope = e.scope) :
    d.source = .automatic ∨ e.source = .automatic := by
  have hpair : l.decisions.Pairwise fun d e => d.TakenOver e ∨ e.TakenOver d := hl.later.imp Or.inl
  have : Std.Symm fun d e : Decision => d.TakenOver e ∨ e.TakenOver d := ⟨fun _ _ => Or.symm⟩
  rcases hpair.forall hd he hne with h | h
  · exact .inr (h hdc hec hs)
  · exact .inl (h hec hdc hs.symm)

section Answered

variable {l : Ledger} {r : Request} {a : Answer}

/-- Nothing but a constructor is called by the word for constructors outside imports. -/
theorem WordsKept.isFree_constructor (hl : l.WordsKept) (hwords : l.settings.extraReservedWords = [])
    {s : Scope} (hs : ∀ target, s ≠ .imports target) (hg : l.groupName? s "ctor" = none) :
    l.isFree s "constructor" (some "ctor") = true := by
  have hnone : l.holder? s "constructor" = none := by
    rw [holder?_eq_none_iff]
    intro d hd hname
    simp only [decisionsIn, List.mem_filter, decide_eq_true_eq] at hd
    rcases hl.derived d hd.1 (groupName?_eq_none_iff.1 hg d hd.1 hd.2) with h | ⟨-, -, target, htarget⟩
    · have hreserved : l.reservedWords.contains "constructor" = true := by
        rw [reservedWords, hwords]
        decide
      simp [hname, hreserved] at h
    · exact hs target (hd.2.symm.trans htarget)
  unfold isFree
  rw [hnone]

/-- The answer for a constructor is the word for constructors; it is given verbatim to the first of a scope and
taken over from the group by the others. -/
theorem WordsKept.answer_constructor (hl : l.WordsKept) (hwords : l.settings.extraReservedWords = [])
    (hoverrides : l.settings.overrides = .empty) (hnew : l.decision? r.id r.scope = none)
    (hgroup : r.group = some "ctor") (hverbatim : r.verbatim = true) (hbase : r.base = "constructor")
    (hscope : ∀ target, r.scope ≠ .imports target) (ha : l.answer r = .ok a) :
    a.finalName = "constructor" ∧
      ((a.source = .verbatim ∧ l.groupName? r.scope "ctor" = none) ∨
        (a.source = .automatic ∧
          ∃ e ∈ l.decisions, e.IsConstructor ∧ e.scope = r.scope ∧ e.id.same r.id = false)) := by
  -- the group has its name from a constructor that came first, or this one is the first
  cases hg : l.groupName? r.scope "ctor" with
  | some name =>
    have hbind : r.group.bind (l.groupName? r.scope) = some name := by rw [hgroup, Option.bind_some, hg]
    unfold answer at ha
    rw [hbind] at ha
    cases ha
    obtain ⟨e, he, hes, heg, rfl⟩ := mem_of_groupName? hg
    exact ⟨(hl.constructor e he heg).1, .inr ⟨rfl, e, he, heg, hes, decision?_eq_none_iff.1 hnew e he hes⟩⟩
  | none =>
    have hbind : r.group.bind (l.groupName? r.scope) = none := by rw [hgroup, Option.bind_some, hg]
    have hcandidate : (l.candidate r).1 = "constructor" := (candidate_of_verbatim hverbatim).trans hbase
    have hfree : l.freeVariant? r "constructor" = some ("constructor", .none) := by
      unfold freeVariant?
      simp only [hgroup, hl.isFree_constructor hwords hscope hg, if_true]
    rw [answer_of_open hbind (override?_eq_none hoverrides r), hcandidate, hfree] at ha
    cases ha
    exact ⟨rfl, .inl ⟨by rw [if_pos hverbatim], rfl⟩⟩

/-- The answer to a request whose name is derived is no reserved word. -/
theorem WordsKept.answer_derived (hl : l.WordsKept) (hwords : l.settings.extraReservedWords = [])
    (hoverrides : l.settings.overrides = .empty) (hgroup : r.group ≠ some "ctor") (hverbatim : r.verbatim = false)
    (ha : l.answer r = .ok a) : l.reservedWords.contains a.finalName = false := by
  cases answer_origin ha with
  | @shared group name hrg hname =>
    obtain ⟨e, he, -, heg, rfl⟩ := mem_of_groupName? hname
    have hother : ¬e.IsConstructor := by
      intro h
      exact hgroup (hrg.trans (heg.symm.trans h))
    rcases hl.derived e he hother with h | ⟨-, hnone, -⟩
    · exact h
    · simp [heg] at hnone
  | chosen hg ho => simp [override?_eq_none hoverrides r] at ho
  | derived hg ho hfree hvariant =>
    exact not_reserved_of_variant hwords (not_reserved_of_candidate hverbatim) hvariant

/-- What is asked for verbatim, and for no group, is given as asked for. -/
theorem source_of_ungrouped (hoverrides : l.settings.overrides = .empty) (hgroup : r.group = none)
    (hverbatim : r.verbatim = true) (ha : l.answer r = .ok a) : a.source = .verbatim := by
  cases answer_origin ha with
  | shared hrg _ => simp [hgroup] at hrg
  | chosen hg ho => simp [override?_eq_none hoverrides r] at ho
  | derived => exact if_pos hverbatim

theorem WordsKept.by_record (hl : l.WordsKept) (hwords : l.settings.extraReservedWords = [])
    (hoverrides : l.settings.overrides = .empty) (hnew : l.decision? r.id r.scope = none) (hr : r.Manner)
    (ha : l.answer r = .ok a) : l.WordsKeptBy (Ledger.record r a) := by
  cases hr with
  | constructor hgroup hverbatim hbase hscope =>
    obtain ⟨hname, hsource⟩ := hl.answer_constructor hwords hoverrides hnew hgroup hverbatim hbase hscope ha
    exact ⟨fun hnot => absurd hgroup hnot, fun _ => ⟨hname, hscope⟩, fun _ => hsource⟩
  | derived hgroup hverbatim =>
    have hfree := hl.answer_derived hwords hoverrides hgroup hverbatim ha
    exact ⟨fun _ => .inl hfree, fun hc => absurd hc hgroup, fun hc => absurd hc hgroup⟩
  | imported target hgroup hverbatim hscope =>
    have hsource := source_of_ungrouped hoverrides hgroup hverbatim ha
    have hnot : ¬(Ledger.record r a).IsConstructor := by
      intro hc
      have hctor : r.group = some "ctor" := hc
      simp [hgroup] at hctor
    exact ⟨fun _ => .inr ⟨hsource, hgroup, target, hscope⟩, fun hc => absurd hc hnot, fun hc => absurd hc hnot⟩

theorem WordsKept.concat {d : Decision} (hl : l.WordsKept) (hd : l.WordsKeptBy d) :
    ({ l with decisions := l.decisions ++ [d] } : Ledger).WordsKept where
  derived := by
    intro e he hnot
    rcases List.mem_append.1 he with he | he
    · exact hl.derived e he hnot
    · obtain rfl := List.mem_singleton.1 he
      exact hd.derived hnot
  constructor := by
    intro e he hc
    rcases List.mem_append.1 he with he | he
    · exact hl.constructor e he hc
    · obtain rfl := List.mem_singleton.1 he
      exact hd.constructor hc
  first := by
    -- the constructor that a name was taken over from is among the earlier decisions, for old ones as for the new one
    intro e he hc
    rcases List.mem_append.1 he with he | he
    · rcases hl.first e he hc with h | ⟨earlier, hearlier, hfirst⟩
      · exact .inl h
      · exact .inr ⟨earlier, List.mem_append_left _ hearlier, hfirst⟩
    · obtain rfl := List.mem_singleton.1 he
      rcases hd.source hc with ⟨h, -⟩ | ⟨-, earlier, hearlier, hfirst⟩
      · exact .inl h
      · exact .inr ⟨earlier, List.mem_append_left _ hearlier, hfirst⟩
  later := by
    refine List.pairwise_append.2 ⟨hl.later, List.pairwise_singleton _ _, ?_⟩
    intro earlier hearlier e he hec hdc hscope
    obtain rfl := List.mem_singleton.1 he
    rcases hd.source hdc with ⟨-, hnone⟩ | ⟨h, -⟩
    · exact absurd hec (groupName?_eq_none_iff.1 hnone earlier hearlier hscope)
    · exact h

end Answered

end Ledger

theorem SymbolGraph.wordsKept_reserveNames (g : SymbolGraph) {settings : NameSettings}
    (hwords : settings.extraReservedWords = []) (hoverrides : settings.overrides = .empty) :
    (g.reserveNames (.empty settings)).ledger.WordsKept := by
  have hkept : (g.reserveNames (.empty settings)).ledger.settings = settings ∧
      (g.reserveNames (.empty settings)).ledger.WordsKept := by
    refine NamingRun.run_induction (P := fun l => l.settings = settings ∧ l.WordsKept)
      ⟨rfl, Ledger.wordsKept_empty settings⟩ ?_
    rintro s hs l r a ⟨hsettings, hl⟩ hr hnew ha
    have hwords : l.settings.extraReservedWords = [] := by rw [hsettings, hwords]
    have hoverrides : l.settings.overrides = .empty := by rw [hsettings, hoverrides]
    exact ⟨hsettings, hl.concat (hl.by_record hwords hoverrides hnew (NamingStep.manner_of_mem_plan hs hr) ha)⟩
  exact hkept.2

end Exonym
