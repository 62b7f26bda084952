import Exonym.Proofs.Ledger.Words
import Mathlib.Data.List.Basic

/-!
# Derived names and words of the user's own

A name is derived when neither the user nor an overload group nor the request itself has settled it. It is the
natural name of what was requested, which is made safe from reserved words, or that name with an interface or a
number added, which is looked at no more. So a reserved word of the user's own comes out of a ledger as a derived
name exactly when it is such an addition to a natural name, and a ledger in which the natural name is taken shows it.

Main statements:

* `Ledger.derived_record_iff`: which requests lead to derived names.
* `Ledger.accounted_afterRequests`: after any requests, how each derived name is made.
* `Ledger.afterRequests_contest`: requests for one base are given the suffixes one after the other.
* `Ledger.derived_not_reserved_iff`: for which settings no derived name is ever a reserved word.
-/

namespace Exonym

/-- The name follows from the requested one: no overload group, no choice of the user's and no request to take it
as it is. -/
def Decision.Derived (d : Decision) : Prop :=
  d.source = .automatic ∧ d.group = none

instance (d : Decision) : Decidable d.Derived :=
  inferInstanceAs (Decidable (_ ∧ _))

namespace Ledger

/-! ## How derived names are made -/

/-- A decision is of a derived name just when the request leaves it open and the user has not chosen it. -/
theorem derived_record_iff {l : Ledger} {r : Request} {a : Answer} (h : l.answer r = .ok a) :
    (record r a).Derived ↔ r.verbatim = false ∧ r.group = none ∧ a.source ≠ .override := by
  change a.source = .automatic ∧ r.group = none ↔ _
  cases answer_origin h with
  | shared hgroup => simp [hgroup]
  | chosen => simp
  | derived => cases r.verbatim <;> simp

/-- A natural name with something added to keep it apart from those of a scope. -/
inductive Extended (settings : NameSettings) (natural : String) : String → Prop
  | qualified (short : String) : Extended settings natural (natural ++ "_" ++ short)
  | suffixed {n : Nat} : 0 < settings.maxSuffixAttempts.toNat → 2 ≤ n → n ≤ maxSuffix →
      Extended settings natural (natural ++ toString n)

/-- What is known of every decision: its suffix is one of those tried, and a derived name is natural or extended. -/
structure Accounted (settings : NameSettings) (d : Decision) : Prop where
  suffix : ∀ n, d.strategy = .numericSuffix n → 2 ≤ n.toNat
  derived : d.Derived → ∃ kind, d.finalName = (empty settings).naturalName d.requested kind ∨
    Extended settings ((empty settings).naturalName d.requested kind) d.finalName

theorem two_le_nextSuffix {l : Ledger}
    (hl : ∀ d ∈ l.decisions, ∀ n, d.strategy = .numericSuffix n → 2 ≤ n.toNat) (s : Scope) (base : String) :
    2 ≤ l.nextSuffix s base := by
  have hmax : 2 ≤ maxSuffix := by decide
  unfold nextSuffix
  cases hlast : ((l.decisionsIn s).filterMap (suffixGiven? base)).getLast? with
  | none => exact Nat.le_refl 2
  | some n =>
    obtain ⟨d, hd, hgiven⟩ := List.mem_filterMap.1 (List.mem_of_getLast? hlast)
    obtain ⟨suffix, hstrategy, -, rfl⟩ := suffixGiven?_eq_some_iff.1 hgiven
    have hn := hl d (List.mem_filter.1 hd).1 suffix hstrategy
    simp only
    omega

/-- A free variant of a base is the base, or extends it. -/
theorem extended_of_freeVariant? {l : Ledger}
    (hl : ∀ d ∈ l.decisions, ∀ n, d.strategy = .numericSuffix n → 2 ≤ n.toNat) {r : Request} {base name : String}
    {strategy : Strategy} (h : l.freeVariant? r base = some (name, strategy)) :
    (∀ n, strategy = .numericSuffix n → 2 ≤ n.toNat) ∧ (name = base ∨ Extended l.settings base name) := by
  unfold freeVariant? at h
  simp only at h
  split at h
  · obtain ⟨rfl, rfl⟩ : base = name ∧ Strategy.none = strategy := by simpa using h
    exact ⟨by simp, .inl rfl⟩
  · split at h
    · rename_i qualified hq
      obtain ⟨rfl, rfl⟩ : qualified = name ∧ Strategy.interfaceQualified = strategy := by simpa using h
      obtain ⟨short, -, rfl⟩ := Option.map_eq_some_iff.1 (Option.filter_eq_some_iff.1 hq).1
      exact ⟨by simp, .inr (.qualified short)⟩
    · obtain ⟨n, hn, heq⟩ := Option.map_eq_some_iff.1 h
      obtain ⟨rfl, rfl⟩ := Prod.mk.inj heq
      -- the search begins at 2 or later, and what it finds is not before its beginning
      have hnext := two_le_nextSuffix hl r.scope base
      obtain ⟨hattempts, hle, hmax⟩ := searchSuffix_bounds hn (l.nextSuffix_le_maxSuffix r.scope base)
      refine ⟨?_, .inr (.suffixed hattempts (by omega) hmax)⟩
      rintro k hk
      obtain rfl := Strategy.numericSuffix.inj hk
      rw [toNat_ofNat_of_le_maxSuffix hmax]
      omega

theorem accounted_record {l : Ledger} (hl : ∀ d ∈ l.decisions, Accounted l.settings d) {r : Request} {a : Answer}
    (h : l.answer r = .ok a) : Accounted l.settings (record r a) := by
  have hsuffix : ∀ d ∈ l.decisions, ∀ n, d.strategy = .numericSuffix n → 2 ≤ n.toNat :=
    fun d hd => (hl d hd).suffix
  obtain ⟨name, hg, rfl⟩ | ⟨-, name, -, rfl⟩ | ⟨-, -, name, strategy, hfree, rfl⟩ := answer_cases h
  · obtain ⟨group, hgroup, -⟩ := Option.bind_eq_some_iff.1 hg
    exact ⟨by simp [record], fun hd => absurd hd.2 (by simp [record, hgroup])⟩
  · exact ⟨by simp [record], fun hd => absurd hd.1 (by simp [record])⟩
  · obtain ⟨hn, hname⟩ := extended_of_freeVariant? hsuffix hfree
    refine ⟨hn, fun hd => ⟨r.kind, ?_⟩⟩
    have hverbatim : r.verbatim = false := by
      have hsource : (if r.verbatim then NameSource.verbatim else .automatic) = .automatic := hd.1
      cases hv : r.verbatim <;> simp_all
    have hnatural : (l.candidate r).1 = (empty l.settings).naturalName r.base r.kind :=
      candidate_of_not_verbatim hverbatim
    rw [hnatural] at hname
    exact hname

/-- Decisions that are written down keep every decision accounted for. -/
theorem accounted_afterRequests {l : Ledger} (hl : ∀ d ∈ l.decisions, Accounted l.settings d)
    (requests : List Request) : ∀ d ∈ (l.afterRequests requests).decisions, Accounted l.settings d := by
  refine (afterRequests_induction (motive := fun later => later.settings = l.settings ∧
    ∀ d ∈ later.decisions, Accounted l.settings d) requests ⟨rfl, hl⟩ ?_).2
  rintro later r a ⟨hsettings, hall⟩ - ha
  refine ⟨hsettings, fun d hd => ?_⟩
  rcases List.mem_append.1 hd with hd | hd
  · exact hall d hd
  · obtain rfl := List.mem_singleton.1 hd
    rw [← hsettings] at hall ⊢
    exact accounted_record hall ha

/-! ## Taken names -/

/-- A name that a decision has is free for no symbol. -/
theorem isFree_of_held {l : Ledger} {s : Scope} {d : Decision} (hd : d ∈ l.decisionsIn s) :
    l.isFree s d.finalName none = false := by
  have htaken : l.isTaken s d.finalName = true := isTaken_iff.2 ⟨d, hd, rfl⟩
  simpa [isTaken] using htaken

theorem freeVariant?_of_qualifier {l : Ledger} {r : Request} {base short : String}
    (hbase : l.isFree r.scope base r.group = false) (hq : r.qualifier = some short)
    (hfree : l.isFree r.scope (base ++ "_" ++ short) r.group = true) :
    l.freeVariant? r base = some (base ++ "_" ++ short, .interfaceQualified) := by
  unfold freeVariant?
  simp only [hq, Option.map_some, Option.filter_some, hfree, if_true, hbase]
  rfl

theorem freeVariant?_of_suffix {l : Ledger} {r : Request} {base : String} {n : Nat}
    (hbase : l.isFree r.scope base r.group = false) (hq : r.qualifier = none)
    (hattempts : 0 < l.settings.maxSuffixAttempts.toNat) (hn : l.nextSuffix r.scope base = n)
    (hfree : l.isFree r.scope (base ++ toString n) r.group = true) :
    l.freeVariant? r base = some (base ++ toString n, .numericSuffix (.ofNat n)) := by
  subst hn
  obtain ⟨attempts, hattempts⟩ := Nat.exists_eq_add_of_lt hattempts
  unfold freeVariant?
  simp only [hq, Option.map_none, Option.filter_none, hbase, hattempts, Nat.zero_add, searchSuffix, hfree, if_true]
  rfl

/-- What a request of a new symbol does that is in no group, when the user has not chosen a name for it. -/
theorem afterRequest_of_freeVariant? {l : Ledger} {r : Request} {name : String} {strategy : Strategy}
    (hnew : l.decision? r.id r.scope = none) (hgroup : r.group = none) (ho : l.override? r = none)
    (h : l.freeVariant? r (l.candidate r).1 = some (name, strategy)) :
    l.afterRequest r = { l with decisions := l.decisions ++ [record r
      (Answer.mk name (if r.verbatim then .verbatim else .automatic) strategy (l.candidate r).2)] } := by
  have hg : r.group.bind (l.groupName? r.scope) = none := by rw [hgroup, Option.bind_none]
  unfold afterRequest reserve
  rw [hnew, answer_of_open hg ho, h]
  rfl

/-! ## Contests for one base -/

/-- Symbols without end about which the user has said nothing: their texts are longer than those of the overrides. -/
def spare (overrides : Overrides) (k : Nat) : SymbolId :=
  .type ⟨"", .ofList (overrides.entries.flatMap (·.1.toList) ++ .replicate k 'x')⟩

theorem find?_spare (overrides : Overrides) (k : Nat) : overrides.find? (spare overrides k).text = none := by
  unfold Overrides.find?
  rw [Option.map_eq_none_iff, List.find?_eq_none]
  intro e he heq
  replace heq : e.1 = (spare overrides k).text := by simpa using heq
  have hlength := congrArg String.length heq
  have hle : e.1.toList.length ≤ (overrides.entries.flatMap (·.1.toList)).length := by
    rw [List.flatMap_def]
    exact (List.sublist_flatten_of_mem (List.mem_map_of_mem (f := fun e => e.1.toList) he)).length_le
  have hcolon : ":".length = 1 := rfl
  rw [String.length_toList] at hle
  simp only [spare, SymbolId.text, TypeId.text, String.length_append, hcolon, String.length_ofList,
    List.length_append] at hlength
  omega

theorem spare_same {overrides : Overrides} {j k : Nat} :
    (spare overrides j).same (spare overrides k) = true ↔ j = k := by
  rw [SymbolId.same_iff]
  constructor
  · intro h
    have hlength := congrArg (fun id : SymbolId => (id.type?.map (·.fullName.length)).getD 0) h
    simpa [spare, SymbolId.bare, SymbolId.type?] using hlength
  · rintro rfl
    rfl

section Contest

variable (settings : NameSettings) (base : String) (kind : NameKind)

/-- The natural name of the base, taken as it is. -/
def occupant : Request :=
  { Request.of (spare settings.overrides 0) ((empty settings).naturalName base kind) default with verbatim := true }

/-- A request that leaves its name to be derived from the base. -/
def contender (qualifier : Option String) (k : Nat) : Request :=
  { Request.of (spare settings.overrides k) base default with kind := kind, qualifier := qualifier }

/-- The natural name is taken, and `count` requests ask for the base after that. -/
def contest (count : Nat) : List Request :=
  occupant settings base kind :: (List.range' 2 count).map (contender settings base kind none)

/-- What is written down for the occupant. -/
def occupied : Decision :=
  record (occupant settings base kind)
    (Answer.mk ((empty settings).naturalName base kind) .verbatim .none false)

/-- What is written down for the contender that gets the suffix `k`. -/
def numbered (k : Nat) : Decision :=
  record (contender settings base kind none k)
    (Answer.mk ((empty settings).naturalName base kind ++ toString k) .automatic (.numericSuffix (.ofNat k))
      ((empty settings).styled base kind).2)

variable {settings base kind}

theorem afterRequest_occupant :
    (empty settings).afterRequest (occupant settings base kind) = ⟨settings, [occupied settings base kind]⟩ := by
  have hfree : (empty settings).isFree default ((empty settings).naturalName base kind) none = true :=
    isFree_of_unheld (by simp [decisionsIn, empty]) none
  refine afterRequest_of_freeVariant? rfl rfl rfl ?_
  unfold freeVariant?
  change (if (empty settings).isFree default ((empty settings).naturalName base kind) none = true then _ else _) = _
  rw [if_pos hfree]
  rfl

/-- A contender is written down with a free variant of the natural name, after other spare symbols. -/
theorem afterRequest_contender {l : Ledger} {qualifier : Option String} {k : Nat} {name : String}
    {strategy : Strategy} (hl : l.settings = settings)
    (hnew : ∀ d ∈ l.decisions, ∃ j, j ≠ k ∧ d.id = spare settings.overrides j)
    (h : l.freeVariant? (contender settings base kind qualifier k) ((empty settings).naturalName base kind) =
      some (name, strategy)) :
    l.afterRequest (contender settings base kind qualifier k) = { l with decisions := l.decisions ++
      [record (contender settings base kind qualifier k)
        (Answer.mk name .automatic strategy ((empty settings).styled base kind).2)] } := by
  subst hl
  refine afterRequest_of_freeVariant? (l := l) ?_ rfl ?_ h
  · rw [decision?_eq_none_iff]
    rintro d hd -
    obtain ⟨j, hj, hid⟩ := hnew d hd
    rw [hid, ← Bool.not_eq_true]
    exact fun h => hj (spare_same.1 h)
  · change (l.settings.overrides.find? (spare l.settings.overrides k).text).filter _ = none
    rw [find?_spare]
    rfl

/-- The natural name is not free once the occupant has it. -/
theorem isFree_naturalName {l : Ledger} (h : occupied settings base kind ∈ l.decisions) :
    l.isFree default ((empty settings).naturalName base kind) none = false :=
  isFree_of_held (List.mem_filter.2 ⟨h, decide_eq_true rfl⟩)

theorem afterRequest_qualified (short : String) :
    (⟨settings, [occupied settings base kind]⟩ : Ledger).afterRequest
        (contender settings base kind (some short) 1) =
      ⟨settings, [occupied settings base kind, record (contender settings base kind (some short) 1)
        (Answer.mk ((empty settings).naturalName base kind ++ "_" ++ short) .automatic .interfaceQualified
          ((empty settings).styled base kind).2)]⟩ := by
  refine afterRequest_contender rfl ?_ ?_
  · rintro d hd
    obtain rfl := List.mem_singleton.1 hd
    exact ⟨0, by decide, rfl⟩
  · have hfree : (⟨settings, [occupied settings base kind]⟩ : Ledger).isFree default
        ((empty settings).naturalName base kind ++ "_" ++ short) none = true := by
      refine isFree_of_unheld (fun d hd => ?_) none
      obtain rfl := List.mem_singleton.1 (List.mem_filter.1 hd).1
      intro heq
      have hlength := congrArg String.length heq
      have hunderscore : "_".length = 1 := rfl
      simp only [occupied, record, String.length_append, hunderscore] at hlength
      omega
    exact freeVariant?_of_qualifier (r := contender settings base kind (some short) 1)
      (isFree_naturalName List.mem_cons_self) rfl hfree

/-- The occupant and the contenders that have a suffix so far. -/
def contested (settings : NameSettings) (base : String) (kind : NameKind) (count : Nat) : Ledger :=
  ⟨settings, occupied settings base kind :: (List.range' 2 count).map (numbered settings base kind)⟩

theorem decisionsIn_contested (count : Nat) :
    (contested settings base kind count).decisionsIn default = (contested settings base kind count).decisions := by
  unfold decisionsIn
  rw [List.filter_eq_self]
  intro d hd
  rcases List.mem_cons.1 hd with rfl | hd
  · exact decide_eq_true rfl
  · obtain ⟨k, -, rfl⟩ := List.mem_map.1 hd
    exact decide_eq_true rfl

theorem suffixGiven?_numbered {k : Nat} (hk : k ≤ maxSuffix) :
    suffixGiven? ((empty settings).naturalName base kind) (numbered settings base kind k) = some k := by
  unfold suffixGiven?
  simp [numbered, record, toNat_ofNat_of_le_maxSuffix hk]

/-- The suffix after those of the contenders so far. -/
theorem nextSuffix_contested {count : Nat} (hcount : count + 1 < maxSuffix) :
    (contested settings base kind count).nextSuffix default ((empty settings).naturalName base kind) = count + 2 := by
  have hgiven : ((contested settings base kind count).decisionsIn default).filterMap
      (suffixGiven? ((empty settings).naturalName base kind)) = List.range' 2 count := by
    rw [decisionsIn_contested]
    change (List.map _ _).filterMap _ = _
    rw [List.filterMap_map]
    refine (List.filterMap_congr (g := some) fun k hk => ?_).trans List.filterMap_some
    have hk := List.mem_range'_1.1 hk
    exact suffixGiven?_numbered (by omega)
  unfold nextSuffix
  rw [hgiven, List.getLast?_range']
  rcases Nat.eq_zero_or_pos count with rfl | hpos
  · rfl
  · rw [if_neg (by omega)]
    simp only
    omega

theorem afterRequest_contested {count : Nat} (hattempts : 0 < settings.maxSuffixAttempts.toNat)
    (hcount : count + 1 < maxSuffix) :
    (contested settings base kind count).afterRequest (contender settings base kind none (count + 2)) =
      contested settings base kind (count + 1) := by
  have hspare : ∀ d ∈ (contested settings base kind count).decisions,
      ∃ j, j ≠ count + 2 ∧ d.id = spare settings.overrides j := by
    intro d hd
    rcases List.mem_cons.1 hd with rfl | hd
    · exact ⟨0, by omega, rfl⟩
    · obtain ⟨k, hk, rfl⟩ := List.mem_map.1 hd
      have hk := List.mem_range'_1.1 hk
      exact ⟨k, by omega, rfl⟩
  -- no holder has the name: the first has it without digits, and the others have smaller numbers
  have hfree : (contested settings base kind count).isFree default
      ((empty settings).naturalName base kind ++ toString (count + 2)) none = true := by
    refine isFree_of_unheld (fun d hd heq => ?_) none
    rcases List.mem_cons.1 (List.mem_filter.1 hd).1 with rfl | hd
    · have hlength := congrArg String.length heq
      have hdigits : 0 < (toString (count + 2)).length := by
        simp [← String.length_toList, Nat.toList_repr, Nat.length_toDigits_pos]
      simp only [occupied, record, String.length_append] at hlength
      omega
    · obtain ⟨k, hk, rfl⟩ := List.mem_map.1 hd
      have hk := List.mem_range'_1.1 hk
      have := suffixed_inj.1 (show _ ++ toString k = _ ++ toString (count + 2) from heq)
      omega
  have hvariant := freeVariant?_of_suffix (r := contender settings base kind none (count + 2))
    (isFree_naturalName List.mem_cons_self) rfl hattempts (nextSuffix_contested hcount) hfree
  refine (afterRequest_contender rfl hspare hvariant).trans ?_
  simp [contested, numbered, List.range'_1_concat, Nat.add_comm]

/-- Requests for one base are given the suffixes one after the other, as far as suffixes go. -/
theorem afterRequests_contest {count : Nat} (hattempts : 0 < settings.maxSuffixAttempts.toNat)
    (hcount : count < maxSuffix) :
    (empty settings).afterRequests (contest settings base kind count) = contested settings base kind count := by
  induction count with
  | zero => exact afterRequest_occupant
  | succ count ih =>
    have hsplit : contest settings base kind (count + 1) =
        contest settings base kind count ++ [contender settings base kind none (count + 2)] := by
      simp [contest, List.range'_1_concat, Nat.add_comm]
    unfold afterRequests at ih ⊢
    rw [hsplit, List.foldl_append, ih (by omega)]
    exact afterRequest_contested hattempts hcount

/-- Every extension of a natural name is the name of some decision of a ledger, as a derived name. -/
theorem exists_derived_of_extended {name : String}
    (h : Extended settings ((empty settings).naturalName base kind) name) :
    ∃ requests, ∃ d ∈ ((empty settings).afterRequests requests).decisions, d.Derived ∧ d.finalName = name := by
  cases h with
  | qualified short =>
    refine ⟨[occupant settings base kind, contender settings base kind (some short) 1], ?_⟩
    change ∃ d ∈ (((empty settings).afterRequest _).afterRequest _).decisions, _
    rw [afterRequest_occupant, afterRequest_qualified]
    exact ⟨_, List.mem_cons_of_mem _ List.mem_cons_self, ⟨rfl, rfl⟩, rfl⟩
  | @suffixed n hattempts hle hmax =>
    refine ⟨contest settings base kind (n - 1), numbered settings base kind n, ?_, ⟨rfl, rfl⟩, rfl⟩
    rw [afterRequests_contest hattempts (by omega)]
    exact List.mem_cons_of_mem _ (List.mem_map_of_mem (List.mem_range'_1.2 (by omega)))

end Contest

/-! ## Reserved words among derived names -/

/-- No derived name is ever a reserved word exactly when no reserved word extends a natural name, by an underscore
and more or by one of the suffixes. -/
theorem derived_not_reserved_iff (settings : NameSettings) :
    (∀ requests, ∀ d ∈ ((empty settings).afterRequests requests).decisions, d.Derived →
      (empty settings).reservedWords.contains d.finalName = false) ↔
    ∀ base kind word, Extended settings ((empty settings).naturalName base kind) word →
      (empty settings).reservedWords.contains word = false := by
  constructor
  · intro hsafe base kind word hword
    obtain ⟨requests, d, hd, hderived, rfl⟩ := exists_derived_of_extended hword
    exact hsafe requests d hd hderived
  · intro hwords requests d hd hderived
    have haccounted := accounted_afterRequests (l := empty settings) (by simp [empty]) requests d hd
    obtain ⟨kind, hname | hname⟩ := haccounted.derived hderived
    · rw [hname]
      exact not_reserved_naturalName _ _ _
    · exact hwords d.requested kind d.finalName hname

/-- A property and a field that both ask for `Value`. -/
def valueRequests : List Request :=
  let request signature := Request.of (.member (.of "app" "App.Widget" "Value" signature)) "Value"
    (.ofSurface ⟨"app", "App.Widget"⟩ false)
  [request "()", request ""]

theorem derived_reserved_of_valueRequests :
    let settings := { NameSettings.default with extraReservedWords := ["Value2"] }
    (∀ r ∈ valueRequests, r.verbatim = false ∧ r.group = none) ∧
      ∃ d ∈ ((empty settings).afterRequests valueRequests).decisions, d.Derived ∧
        (empty settings).reservedWords.contains d.finalName = true := by
  decide +kernel

end Ledger

end Exonym
