import Exonym.Proofs.Ledger.Words
import Exonym.Proofs.Naming.Plan
import Exonym.Proofs.Naming.Stamped
import Exonym.Sample.Gallery

/-!
# Names that are identifiers

Where names are kept as they are, a ledger adds to them nothing but underscores, markers and numbers, so it makes
identifiers of identifiers. Types and members ask for identifiers. Accessors of views do not, and neither is the short
name of an interface one that is put behind the name of a member to tell it apart. So whether all names are identifiers
is a matter of the views.

Main statements:

* `isIdentifier_naturalName`, `Ledger.isIdentifier_of_answer`: what a ledger makes of an identifier.
* `NamingStep.asked_of_reason`: what is asked for in the name of a graph.
* `SymbolGraph.isIdentifier_iff_planned`: when all names of a graph are identifiers.
* `Pipeline.isIdentifier_iff_views`, `Pipeline.isIdentifier_iff_shortNames`: the names that a run gives.
-/

namespace Exonym

/-- Texts that are well-formed names. -/
def IsIdentifier (name : String) : Prop :=
  WellFormedName name.toList

instance (name : String) : Decidable (IsIdentifier name) :=
  decidable_of_iff (name.toList ≠ [] ∧ name.toList.all isIdentifierChar = true ∧
    (name.toList.head?.all fun c => !c.isDigit) = true) <| by
      unfold IsIdentifier WellFormedName
      cases name.toList <;> simp

/-! ## Putting identifiers together -/

theorem isIdentifierChar_of_isDigit {c : Char} (h : c.isDigit = true) : isIdentifierChar c = true := by
  have hc : c.isAlphanum = true := by simp [Char.isAlphanum, h]
  simp [isIdentifierChar, CharClass.isAlphanumeric_of_isAlphanum hc]

theorem isIdentifier_identifier (name : String) : IsIdentifier (identifier name) := by
  unfold IsIdentifier identifier
  rw [String.toList_ofList]
  exact identifier_wellFormed name.toList

/-- Behind the first character only the kind of characters matters. -/
theorem isIdentifier_append_iff {front rest : String} (h : front ≠ "") :
    IsIdentifier (front ++ rest) ↔ IsIdentifier front ∧ rest.toList.all isIdentifierChar = true := by
  have hfront : front.toList ≠ [] := by simpa using h
  unfold IsIdentifier WellFormedName
  rw [String.toList_append, List.head?_append_of_ne_nil _ hfront, List.all_eq_true]
  simp only [List.mem_append, ne_eq, List.append_eq_nil_iff, hfront, false_and, not_false_eq_true, true_and]
  grind

theorem IsIdentifier.ne_empty {name : String} (h : IsIdentifier name) : name ≠ "" := by
  rintro rfl
  exact h.1 rfl

theorem IsIdentifier.append {front rest : String} (h : IsIdentifier front)
    (hrest : rest.toList.all isIdentifierChar = true) : IsIdentifier (front ++ rest) :=
  (isIdentifier_append_iff h.ne_empty).2 ⟨h, hrest⟩

/-- A number makes no identifier of what is none, not even of the empty text. -/
theorem isIdentifier_append_number {name : String} {n : Nat} :
    IsIdentifier (name ++ toString n) ↔ IsIdentifier name := by
  have hdigits : ∀ c ∈ (toString n).toList, c.isDigit = true := fun _ => Digits.isDigit_of_mem_toString
  by_cases hname : name = ""
  · subst hname
    refine iff_of_false (fun h => ?_) (fun h => h.ne_empty rfl)
    rw [String.empty_append] at h
    cases hn : (toString n).toList with
    | nil => exact h.1 hn
    | cons c rest =>
      have hhead := h.2.2 c (by rw [hn]; rfl)
      rw [hdigits c (hn ▸ List.mem_cons_self)] at hhead
      cases hhead
  · rw [isIdentifier_append_iff hname]
    exact and_iff_left (List.all_eq_true.2 fun c hc => isIdentifierChar_of_isDigit (hdigits c hc))

/-! ## What a ledger makes of identifiers -/

/-- Names stay as they are asked for, as far as they can. -/
structure NameSettings.KeepsNames (settings : NameSettings) : Prop where
  memberStyle : settings.memberStyle = .preserve
  typeStyle : settings.typeStyle = .preserve
  overrides : settings.overrides = .empty

theorem all_isIdentifierChar_underscores (k : Nat) :
    (String.ofList (.replicate k '_')).toList.all isIdentifierChar = true := by
  rw [String.toList_ofList, List.all_eq_true]
  intro c hc
  rw [List.eq_of_mem_replicate hc]
  exact isIdentifierChar_underscore

namespace Ledger

variable {l : Ledger} {r : Request} {a : Answer}

/-- A natural name is what was asked for, with underscores behind it. -/
theorem naturalName_eq_padded (hl : l.settings.KeepsNames) (base : String) (kind : NameKind) :
    ∃ k, l.naturalName base kind = ReservedWords.padded base k := by
  have hstyle : (l.settings.style kind).apply base = base := by
    cases kind <;> simp only [NameSettings.style, hl.memberStyle, hl.typeStyle, NameStyle.apply]
  obtain ⟨k, -, hk, -⟩ := l.reservedWords.exists_lengthen_eq_padded base
  exact ⟨k, by rw [naturalName_eq_lengthen, hstyle, hk]⟩

theorem isIdentifier_naturalName_iff (hl : l.settings.KeepsNames) {base : String} (hbase : base ≠ "")
    (kind : NameKind) : IsIdentifier (l.naturalName base kind) ↔ IsIdentifier base := by
  obtain ⟨k, hk⟩ := naturalName_eq_padded hl base kind
  rw [hk, ReservedWords.padded, isIdentifier_append_iff hbase]
  exact and_iff_left (all_isIdentifierChar_underscores k)

theorem isIdentifier_naturalName (hl : l.settings.KeepsNames) {base : String} (hbase : IsIdentifier base)
    (kind : NameKind) : IsIdentifier (l.naturalName base kind) :=
  (isIdentifier_naturalName_iff hl hbase.ne_empty kind).2 hbase

theorem isIdentifier_candidate (hl : l.settings.KeepsNames) (hbase : IsIdentifier r.base) :
    IsIdentifier (l.candidate r).1 := by
  cases hv : r.verbatim with
  | false =>
    rw [candidate_of_not_verbatim hv]
    exact isIdentifier_naturalName hl hbase _
  | true => rwa [candidate_of_verbatim hv]

/-- Among identifiers, an identifier is given a name that is one, unless an interface is put behind it whose short name
has other characters. -/
theorem isIdentifier_of_answer (hl : l.settings.KeepsNames) (hall : ∀ d ∈ l.decisions, IsIdentifier d.finalName)
    (hr : IsIdentifier (l.candidate r).1) (ha : l.answer r = .ok a) :
    IsIdentifier a.finalName ∨ ∃ short, r.qualifier = some short ∧ a.strategy = .interfaceQualified ∧
      a.finalName = (l.candidate r).1 ++ "_" ++ short ∧ ¬ short.toList.all isIdentifierChar = true := by
  cases answer_origin ha with
  | shared _ hname =>
    obtain ⟨d, hd, -, -, rfl⟩ := mem_of_groupName? hname
    exact .inl (hall d hd)
  | chosen _ hchosen => simp [override?_eq_none hl.overrides r] at hchosen
  | derived _ _ _ hvariant =>
    cases hvariant with
    | plain => exact .inl hr
    | suffixed n => exact .inl (isIdentifier_append_number.2 hr)
    | @qualified short hshort =>
      have hfront : IsIdentifier ((l.candidate r).1 ++ "_") := hr.append (by decide)
      by_cases hchars : short.toList.all isIdentifierChar = true
      · exact .inl (hfront.append hchars)
      · exact .inr ⟨short, hshort, rfl, rfl, hchars⟩

/-- A request of no group and with no interface gets an identifier only if it asks for one. -/
theorem isIdentifier_candidate_of_answer (hl : l.settings.KeepsNames) (hgroup : r.group = none)
    (hq : r.qualifier = none) (ha : l.answer r = .ok a) (h : IsIdentifier a.finalName) :
    IsIdentifier (l.candidate r).1 := by
  cases answer_origin ha with
  | shared hsome _ => simp [hgroup] at hsome
  | chosen _ hchosen => simp [override?_eq_none hl.overrides r] at hchosen
  | derived _ _ _ hvariant =>
    cases hvariant with
    | plain => exact h
    | suffixed n => exact isIdentifier_append_number.1 h
    | qualified hshort => simp [hq] at hshort

end Ledger

theorem Ledger.mem_of_finalName {l : Ledger} {id : SymbolId} {s : Scope} {name : String}
    (h : l.finalName id s = .ok name) : ∃ d ∈ l.decisions, d.finalName = name := by
  unfold finalName at h
  cases hd : l.decision? id s with
  | none => simp [hd] at h
  | some d => exact ⟨d, (mem_of_decision? hd).1, by simpa [hd] using h⟩

/-! ## What is asked for -/

namespace NamingStep

variable {g : SymbolGraph} {l : Ledger} {s : NamingStep} {r : Request}

/-- What is asked for in the name of a graph: the own name of a type or member, the name of an accessor, the own name of
a member in a view, or a name that has been given. -/
inductive Asked (g : SymbolGraph) (l : Ledger) (r : Request) : Prop
  | own : IsIdentifier r.base → r.qualifier = none → Asked g l r
  | accessor {t : TypeSymbol} {v : View} : t ∈ g.types → v ∈ t.views → r.base = v.accessorId.name →
      r.kind = .member → r.verbatim = false → r.group = none → r.qualifier = none → Asked g l r
  | viewed {t : TypeSymbol} {v : View} : t ∈ g.types → v ∈ t.views → IsIdentifier r.base → r.kind = .member →
      r.verbatim = false → r.scope = .ofView t.id v.interfaceId r.isStatic →
      (∀ short, r.qualifier = some short → v.interface.shortName = short) → Asked g l r
  | given {d : Decision} : d ∈ l.decisions → r.base = d.finalName → r.verbatim = true → r.group = none →
      r.qualifier = none → Asked g l r

theorem isIdentifier_baseName (info : MemberInfo) : IsIdentifier info.baseName :=
  isIdentifier_identifier _

theorem asked_ofMember {t : TypeSymbol} {kind : MemberKind} {info : MemberInfo}
    (hr : (ofMember t kind info).request l = .ok r) : Asked g l r := by
  have hconstructor : IsIdentifier "constructor" := by decide
  cases kind with
  | constructor =>
    cases hr
    exact .own hconstructor rfl
  | method | property | field | event =>
    cases hr
    exact .own (isIdentifier_baseName info) rfl

/-- A member of a view asks for its own name, marked or not. -/
theorem asked_ofViewMember {t : TypeSymbol} (ht : t ∈ g.types) {v : View} (hv : v ∈ t.views) {id : MemberId}
    {kind : MemberKind} {info : MemberInfo} (hr : (ofViewMember t v id kind info).request l = .ok r) :
    Asked g l r := by
  obtain ⟨name, -, hr⟩ := bind_eq_ok hr
  have hshort : ∀ short, (if info.isExplicit then some v.interface.shortName else none) = some short →
      v.interface.shortName = short := by
    intro short h
    split at h <;> simp_all
  have hbase := isIdentifier_baseName info
  have hmarked : IsIdentifier (info.baseName ++ viewMarker) := hbase.append (by decide)
  simp only [pure, Except.pure, Except.ok.injEq] at hr
  split at hr
  · subst hr
    exact .viewed ht hv hbase rfl rfl rfl hshort
  · subst hr
    exact .viewed ht hv hmarked rfl rfl rfl hshort

theorem asked_of_reason (hs : Reason g s) (hr : s.request l = .ok r) : Asked g l r := by
  cases hs with
  | type ht hmem =>
    obtain ⟨isInternal, reason, rfl⟩ := eq_of_mem_ofType hmem
    cases hr
    exact .own (isIdentifier_identifier _) rfl
  | surface ht hx hp => exact asked_ofMember hr
  | accessor ht hv =>
    cases hr
    exact .accessor ht hv rfl rfl rfl rfl rfl
  | viewed ht hv hid hf => exact asked_ofViewMember ht hv hr
  | «import» hns hmem =>
    obtain ⟨id, reason, rfl, -⟩ := eq_of_mem_ofImports hmem
    obtain ⟨name, hname, hr⟩ := bind_eq_ok hr
    cases hr
    obtain ⟨d, hd, rfl⟩ := Ledger.mem_of_finalName hname
    exact .given hd rfl rfl rfl rfl

end NamingStep

/-! ## Decisions -/

/-- The decision puts the interface of a view of `owner` behind the natural name of a member, to tell it apart. -/
def View.Qualifies (settings : NameSettings) (owner : TypeId) (v : View) (d : Decision) : Prop :=
  d.strategy = .interfaceQualified ∧ d.scope = .ofView owner v.interfaceId d.isStatic ∧
    d.finalName = (Ledger.empty settings).naturalName d.requested .member ++ "_" ++ v.interface.shortName

/-- The accessor is an identifier where nothing else has its name. -/
def View.AccessorClean (settings : NameSettings) (v : View) : Prop :=
  IsIdentifier ((Ledger.empty settings).naturalName v.accessorId.name .member)

instance (settings : NameSettings) (v : View) : Decidable (v.AccessorClean settings) :=
  inferInstanceAs (Decidable (IsIdentifier _))

/-- The short name of the interface could stand in an identifier. -/
def View.ShortNameClean (v : View) : Prop :=
  v.interface.shortName.toList.all isIdentifierChar = true

instance (v : View) : Decidable v.ShortNameClean :=
  inferInstanceAs (Decidable (_ = true))

namespace NamingStep

variable {g : SymbolGraph} {l : Ledger} {r : Request} {a : Ledger.Answer}

theorem Asked.isIdentifier_candidate (h : Asked g l r) (hl : l.settings.KeepsNames)
    (hall : ∀ d ∈ l.decisions, IsIdentifier d.finalName)
    (hclean : ∀ t ∈ g.types, ∀ v ∈ t.views, v.AccessorClean l.settings) : IsIdentifier (l.candidate r).1 := by
  cases h with
  | own hbase _ => exact Ledger.isIdentifier_candidate hl hbase
  | accessor ht hv hbase hkind hverbatim _ _ =>
    rw [Ledger.candidate_of_not_verbatim hverbatim, hbase, hkind]
    exact hclean _ ht _ hv
  | viewed _ _ hbase _ _ _ _ => exact Ledger.isIdentifier_candidate hl hbase
  | given hd hbase _ _ _ => exact Ledger.isIdentifier_candidate hl (hbase ▸ hall _ hd)

/-- A new decision among identifiers is for an identifier, or puts an interface behind a name that could not stand in
one. -/
theorem Asked.isIdentifier_or_qualifies (h : Asked g l r) (hl : l.settings.KeepsNames)
    (hall : ∀ d ∈ l.decisions, IsIdentifier d.finalName)
    (hclean : ∀ t ∈ g.types, ∀ v ∈ t.views, v.AccessorClean l.settings) (ha : l.answer r = .ok a) :
    IsIdentifier a.finalName ∨ ∃ t ∈ g.types, ∃ v ∈ t.views,
      v.Qualifies l.settings t.id (Ledger.record r a) ∧ ¬ v.ShortNameClean := by
  obtain hname | ⟨short, hq, hstrategy, hname, hchars⟩ :=
    Ledger.isIdentifier_of_answer hl hall (h.isIdentifier_candidate hl hall hclean) ha
  · exact .inl hname
  · cases h with
    | own _ hnone | accessor _ _ _ _ _ _ hnone | given _ _ _ _ hnone => simp [hnone] at hq
    | @viewed t v ht hv _ hkind hverbatim hscope hshort =>
      obtain rfl := hshort short hq
      rw [Ledger.candidate_of_not_verbatim hverbatim, hkind] at hname
      exact .inr ⟨t, ht, v, hv, ⟨hstrategy, hscope, hname⟩, hchars⟩

/-- Where an identifier is given, the natural name of what was asked for is one. -/
theorem Asked.isIdentifier_naturalName (h : Asked g l r) (hl : l.settings.KeepsNames) (ha : l.answer r = .ok a)
    (hname : IsIdentifier a.finalName) : IsIdentifier (l.naturalName r.base .member) := by
  cases h with
  | own hbase _ => exact Ledger.isIdentifier_naturalName hl hbase _
  | viewed _ _ hbase _ _ _ _ => exact Ledger.isIdentifier_naturalName hl hbase _
  | accessor _ _ _ hkind hverbatim hgroup hq =>
    have hcandidate := Ledger.isIdentifier_candidate_of_answer hl hgroup hq ha hname
    rwa [Ledger.candidate_of_not_verbatim hverbatim, hkind] at hcandidate
  | given _ _ hverbatim hgroup hq =>
    have hcandidate := Ledger.isIdentifier_candidate_of_answer hl hgroup hq ha hname
    rw [Ledger.candidate_of_verbatim hverbatim] at hcandidate
    exact Ledger.isIdentifier_naturalName hl hcandidate _

end NamingStep

/-! ## Runs -/

namespace SymbolGraph

variable {g : SymbolGraph} {settings : NameSettings}

/-- With clean accessors, a run names identifiers only, or an interface behind a name has spoilt one. -/
theorem isIdentifier_or_qualifies (hs : settings.KeepsNames)
    (hclean : ∀ t ∈ g.types, ∀ v ∈ t.views, v.AccessorClean settings) :
    (∀ d ∈ (g.reserveNames (.empty settings)).ledger.decisions, IsIdentifier d.finalName) ∨
      ∃ d ∈ (g.reserveNames (.empty settings)).ledger.decisions, ∃ t ∈ g.types, ∃ v ∈ t.views,
        v.Qualifies settings t.id d ∧ ¬ v.ShortNameClean := by
  -- once a name is spoilt it stays among the decisions, so only runs without one need a step
  refine (NamingRun.run_induction (P := fun l => l.settings = settings ∧
    ((∀ d ∈ l.decisions, IsIdentifier d.finalName) ∨ ∃ d ∈ l.decisions, ∃ t ∈ g.types, ∃ v ∈ t.views,
      v.Qualifies settings t.id d ∧ ¬ v.ShortNameClean)) ⟨rfl, .inl (by simp [Ledger.empty])⟩ ?_).2
  rintro s hmem l r a ⟨rfl, hl⟩ hr - ha
  refine ⟨rfl, ?_⟩
  rcases hl with hall | ⟨d, hd, hspoilt⟩
  · have hasked := NamingStep.asked_of_reason (NamingStep.mem_plan_iff.1 hmem) hr
    rcases hasked.isIdentifier_or_qualifies hs hall hclean ha with hname | hspoilt
    · refine .inl fun d hd => ?_
      rcases List.mem_append.1 hd with hd | hd
      · exact hall d hd
      · obtain rfl := List.mem_singleton.1 hd
        exact hname
    · exact .inr ⟨Ledger.record r a, by simp, hspoilt⟩
  · exact .inr ⟨d, List.mem_append_left _ hd, hspoilt⟩

/-- Whoever got an identifier asked for something whose natural name is one. -/
theorem isIdentifier_naturalName_of_decided (hs : settings.KeepsNames) :
    ∀ d ∈ (g.reserveNames (.empty settings)).ledger.decisions, IsIdentifier d.finalName →
      IsIdentifier ((Ledger.empty settings).naturalName d.requested .member) := by
  refine (NamingRun.run_induction (P := fun l => l.settings = settings ∧ ∀ d ∈ l.decisions,
    IsIdentifier d.finalName → IsIdentifier ((Ledger.empty settings).naturalName d.requested .member))
    ⟨rfl, by simp [Ledger.empty]⟩ ?_).2
  rintro s hmem l r a ⟨rfl, hl⟩ hr - ha
  refine ⟨rfl, fun d hd => ?_⟩
  rcases List.mem_append.1 hd with hd | hd
  · exact hl d hd
  · obtain rfl := List.mem_singleton.1 hd
    exact (NamingStep.asked_of_reason (NamingStep.mem_plan_iff.1 hmem) hr).isIdentifier_naturalName hs ha

/-- After a run that did not fail, all names are identifiers exactly when accessors have clean names and interfaces that
were put behind names do. -/
theorem isIdentifier_iff_planned (hs : settings.KeepsNames) (hrun : (g.reserveNames (.empty settings)).failure = none) :
    (∀ d ∈ (g.reserveNames (.empty settings)).ledger.decisions, IsIdentifier d.finalName) ↔
      ∀ t ∈ g.types, ∀ v ∈ t.views, v.AccessorClean settings ∧
        ∀ d ∈ (g.reserveNames (.empty settings)).ledger.decisions, v.Qualifies settings t.id d → v.ShortNameClean := by
  constructor
  · intro hall t ht v hv
    refine ⟨?_, fun d hd hqualifies => ?_⟩
    · obtain ⟨l, r, d, hd, hr, -, -, hrequested⟩ :=
        NamingRun.requested_of_run hrun _ (NamingStep.mem_plan_iff.2 (.accessor ht hv))
      cases hr
      have hnatural := isIdentifier_naturalName_of_decided hs d hd (hall d hd)
      rwa [hrequested] at hnatural
    · have hname := hall d hd
      rw [hqualifies.2.2] at hname
      exact ((isIdentifier_append_iff (by simp)).1 hname).2
  · intro hviews
    rcases isIdentifier_or_qualifies hs fun t ht v hv => (hviews t ht v hv).1 with hall | ⟨d, hd, t, ht, v, hv, hq, hnot⟩
    · exact hall
    · exact absurd ((hviews t ht v hv).2 d hd hq) hnot

/-- What holds of the views of a graph holds of them when names are stamped on it, if it is not about their names. -/
theorem forall_views_stampNames {l : Ledger} {stamped : SymbolGraph} (h : g.stampNames l = .ok stamped)
    {P : TypeId → View → Prop} (hP : ∀ id v name, P id { v with accessorName := name } ↔ P id v) :
    (∀ t ∈ stamped.types, ∀ v ∈ t.views, P t.id v) ↔ ∀ t ∈ g.types, ∀ v ∈ t.views, P t.id v := by
  constructor
  · intro hall t ht v hv
    obtain ⟨after, hafter, hstamp⟩ := Stamp.exists_type_of_stampNames h ht
    obtain ⟨accessorName, hw⟩ := Stamp.exists_view_of_stampType hstamp hv
    refine (hP t.id v accessorName).1 ?_
    rw [← Stamp.id_of_stampType hstamp]
    exact hall after hafter _ hw
  · intro hall after hafter w hw
    obtain ⟨t, ht, hstamp⟩ := Stamp.type_of_stampNames h hafter
    obtain ⟨v, hv, hvw⟩ := Stamp.view_of_stampType hstamp hw
    obtain ⟨accessorName, -, rfl⟩ := Stamp.stampView_eq_ok_iff.1 hvw
    rw [Stamp.id_of_stampType hstamp]
    exact (hP t.id v _).2 (hall t ht v hv)

/-- The accessor of a planned view is clean when the interface is. -/
theorem accessorClean_iff (hs : settings.KeepsNames) {t : TypeSymbol} (ht : t.ViewsPlanned) {v : View} (hv : v ∈ t.views) :
    v.AccessorClean settings ↔ v.ShortNameClean := by
  have hname : v.accessorId.name = "As_" ++ v.interface.shortName := by
    rw [ht.accessor v hv]
    rfl
  have hfront : IsIdentifier "As_" := by decide
  unfold View.AccessorClean
  rw [hname, Ledger.isIdentifier_naturalName_iff hs (by simp), isIdentifier_append_iff hfront.ne_empty]
  exact and_iff_right hfront

end SymbolGraph

namespace Pipeline

variable {g : SymbolGraph} {budget : Nat} {settings : Settings} {named : Named}

/-- Where names are kept as they are, a run gives nothing but identifiers exactly when its views allow it: their
accessors are identifiers where nothing else has their names, and interfaces that were put behind the names of members
have short names that could stand in one. -/
theorem isIdentifier_iff_views (hs : settings.naming.KeepsNames) (hrun : run budget settings g = .ok named) :
    (∀ d ∈ named.ledger.decisions, IsIdentifier d.finalName) ↔
      ∀ t ∈ named.graph.types, ∀ v ∈ t.views, v.AccessorClean settings.naming ∧
        ∀ d ∈ named.ledger.decisions, v.Qualifies settings.naming t.id d → v.ShortNameClean := by
  obtain ⟨planned, said, -, hn, -⟩ := run_eq_ok_iff.1 hrun
  obtain ⟨hfailure, stamped, hstamp, rfl⟩ := name_eq_ok_iff.1 hn
  rw [SymbolGraph.isIdentifier_iff_planned hs hfailure]
  refine (SymbolGraph.forall_views_stampNames hstamp (P := fun id v => v.AccessorClean settings.naming ∧
    ∀ d ∈ (planned.reserveNames (.empty settings.naming)).ledger.decisions,
      v.Qualifies settings.naming id d → v.ShortNameClean) ?_).symm
  exact fun _ _ _ => Iff.rfl

theorem isIdentifier_of_store :
    ∃ g named, SymbolGraph.build Gallery.store [] = .ok g ∧ run 10 .default g = .ok named ∧
      Settings.default.naming.KeepsNames ∧ (∃ d ∈ named.ledger.decisions, d.finalName = "As_IDisposable") ∧
      ∀ d ∈ named.ledger.decisions, IsIdentifier d.finalName := by
  have hkeeps : Settings.default.naming.KeepsNames := ⟨rfl, rfl, rfl⟩
  have hruns : (SymbolGraph.build Gallery.store []).toOption.any (fun g => (run 10 .default g).toOption.any fun named =>
      (∃ d ∈ named.ledger.decisions, d.finalName = "As_IDisposable") ∧
        ∀ t ∈ named.graph.types, ∀ v ∈ t.views, v.AccessorClean Settings.default.naming ∧ v.ShortNameClean) = true := by
    simp only [SymbolGraph.build, SymbolGraph.extend, SymbolGraph.sortTypes, SymbolGraph.settle_eq,
      SymbolGraph.sortAliases, run, analyze, SymbolGraph.analyzeInterfaces, SymbolGraph.resolveOverloads,
      TypeSymbol.conflicts, TypeSymbol.buckets, TypeSymbol.candidates, Conflict.inBucket, Conflict.among,
      SymbolGraph.planViews, TypeSymbol.planViews, sortMembers, name, SymbolGraph.reserveNames, NamingStep.plan,
      NamingStep.ofMembers, NamingStep.surfaceMembers, SymbolGraph.violations, Gate.uniqueness, Gate.reservedWords,
      Ledger.sortedDecisions, mergeSort_eq_sortTo]
    decide +kernel
  obtain ⟨g, hbuild, hruns⟩ := exists_of_any hruns
  obtain ⟨named, hrun, hnames⟩ := exists_of_any hruns
  obtain ⟨haccessor, hviews⟩ := of_decide_eq_true hnames
  refine ⟨g, named, hbuild, hrun, hkeeps, haccessor, (isIdentifier_iff_views hkeeps hrun).2 ?_⟩
  exact fun t ht v hv => ⟨(hviews t ht v hv).1, fun _ _ _ => (hviews t ht v hv).2⟩

/-- A method that is reached through an interface of another one, which the type does not list. -/
def closer : List TypeSymbol := [
  (Gallery.draft "App.Store" .classType
    |>.method "Close" [] (Gallery.system "Void") fun info =>
      { info with placement := .viewOnly, provenance := .fromInterface,
                  sourceInterface := some ⟨"app", "App.Outer+ICloser"⟩ }).type]

/-- The accessor of its view is named after the interface, with the sign between the two names. -/
theorem not_isIdentifier_of_closer :
    ∃ g named, SymbolGraph.build closer [] = .ok g ∧ run 10 .default g = .ok named ∧
      Settings.default.naming.KeepsNames ∧
      ∃ d ∈ named.ledger.decisions, d.finalName = "As_Outer+ICloser" ∧ ¬ IsIdentifier d.finalName := by
  have hruns : (SymbolGraph.build closer []).toOption.any (fun g => (run 10 .default g).toOption.any fun named =>
      ∃ d ∈ named.ledger.decisions, d.finalName = "As_Outer+ICloser" ∧ ¬ IsIdentifier d.finalName) = true := by
    simp only [SymbolGraph.build, SymbolGraph.extend, SymbolGraph.sortTypes, SymbolGraph.settle_eq,
      SymbolGraph.sortAliases, run, analyze, SymbolGraph.analyzeInterfaces, SymbolGraph.resolveOverloads,
      TypeSymbol.conflicts, TypeSymbol.buckets, TypeSymbol.candidates, Conflict.inBucket, Conflict.among,
      SymbolGraph.planViews, TypeSymbol.planViews, sortMembers, name, SymbolGraph.reserveNames, NamingStep.plan,
      NamingStep.ofMembers, NamingStep.surfaceMembers, SymbolGraph.violations, Gate.uniqueness, Gate.reservedWords,
      Ledger.sortedDecisions, mergeSort_eq_sortTo]
    decide +kernel
  obtain ⟨g, hbuild, hruns⟩ := exists_of_any hruns
  obtain ⟨named, hrun, hspoilt⟩ := exists_of_any hruns
  exact ⟨g, named, hbuild, hrun, ⟨rfl, rfl, rfl⟩, of_decide_eq_true hspoilt⟩

/-- A graph of plain types gets nothing but identifiers exactly when its views are of interfaces whose short names could
stand in one. -/
theorem isIdentifier_iff_shortNames {types : List TypeSymbol} {aliases : List Alias}
    (hbuild : SymbolGraph.build types aliases = .ok g) (hplain : ∀ t ∈ types, t.Plain) (hs : settings.naming.KeepsNames)
    (hrun : run budget settings g = .ok named) :
    (∀ d ∈ named.ledger.decisions, IsIdentifier d.finalName) ↔
      ∀ t ∈ named.graph.types, ∀ v ∈ t.views, v.ShortNameClean := by
  obtain ⟨planned, said, ha, hn, -⟩ := run_eq_ok_iff.1 hrun
  obtain ⟨hfailure, stamped, hstamp, rfl⟩ := name_eq_ok_iff.1 hn
  have hplanned := planned_of_analyze hbuild hplain ha
  rw [SymbolGraph.isIdentifier_iff_planned hs hfailure,
    SymbolGraph.forall_views_stampNames hstamp (P := fun _ v => v.ShortNameClean) fun _ _ _ => Iff.rfl]
  refine forall₂_congr fun t ht => forall₂_congr fun v hv => ?_
  rw [SymbolGraph.accessorClean_iff hs (hplanned.views t ht) hv]
  exact and_iff_left_of_imp fun hclean _ _ _ => hclean

end Pipeline

end Exonym
