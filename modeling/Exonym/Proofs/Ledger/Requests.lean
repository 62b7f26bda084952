import Exonym.Ledger

/-!
# What a request is answered with

An answer has one of three origins: the name of the overload group, a name that the user has chosen, or a free
variant of the requested name. A request that is granted writes down one decision, unless the symbol has a name in
the scope already; a request that is refused leaves the ledger alone.

Main statements:

* `Ledger.answer_cases`, `Ledger.answer_origin`: every answer has one of the three origins.
* `Ledger.isFree_eq_not_isTaken`: a free name is held by nothing in the scope, for a request whose group has no name there.
* `Ledger.not_free_of_searchSuffix`, `Ledger.not_free_of_searchSuffix_eq_none`: what a search for a suffix has passed over.
* `Ledger.reserve_eq_ok_iff`, `Ledger.commits_iff`: what a granted request does to the ledger.
* `Ledger.answer_eq_error_iff`, `Ledger.reserve_eq_error_iff`: why a request is refused.
* `Ledger.afterRequests_induction`: how to show that something holds after any sequence of requests.
-/

namespace Exonym

namespace Ledger

/-! ## Looking decisions up -/

theorem mem_decisionsIn {l : Ledger} {s : Scope} {d : Decision} : d ∈ l.decisionsIn s ↔ d ∈ l.decisions ∧ d.scope = s := by
  unfold decisionsIn
  rw [List.mem_filter, decide_eq_true_eq]

theorem decision?_eq_none_iff {l : Ledger} {id : SymbolId} {s : Scope} :
    l.decision? id s = none ↔ ∀ d ∈ l.decisions, d.scope = s → d.id.same id = false := by
  simp [decision?]

theorem mem_of_decision? {l : Ledger} {id : SymbolId} {s : Scope} {d : Decision}
    (h : l.decision? id s = some d) : d ∈ l.decisions ∧ d.scope = s ∧ d.id.same id = true := by
  have hp := List.find?_some h
  simp only [Bool.and_eq_true, decide_eq_true_eq] at hp
  exact ⟨List.mem_of_find?_eq_some h, hp⟩

theorem groupName?_eq_none_iff {l : Ledger} {s : Scope} {group : String} :
    l.groupName? s group = none ↔ ∀ d ∈ l.decisions, d.scope = s → d.group ≠ some group := by
  simp [groupName?]

theorem mem_of_groupName? {l : Ledger} {s : Scope} {group name : String}
    (h : l.groupName? s group = some name) :
    ∃ d ∈ l.decisions, d.scope = s ∧ d.group = some group ∧ d.finalName = name := by
  obtain ⟨d, hd, rfl⟩ := Option.map_eq_some_iff.1 h
  have hp := List.find?_some hd
  simp only [Bool.and_eq_true, decide_eq_true_eq] at hp
  exact ⟨d, List.mem_of_find?_eq_some hd, hp.1, hp.2, rfl⟩

/-- A name that may be had is held by nothing, unless it is the name of the group. -/
theorem unheld_of_isFree {l : Ledger} {s : Scope} {name : String} {group : Option String}
    (hg : group.bind (l.groupName? s) = none) (h : l.isFree s name group = true) :
    ∀ d ∈ l.decisions, d.scope = s → d.finalName ≠ name := by
  intro d hd hs hn
  unfold isFree holder? at h
  cases hf : l.decisions.find? (fun d => d.scope = s && d.finalName = name) with
  | none => simpa [hs, hn] using List.find?_eq_none.1 hf d hd
  | some first =>
    have hp := List.find?_some hf
    simp only [Bool.and_eq_true, decide_eq_true_eq] at hp
    simp only [hf, Option.map_some] at h
    cases hfg : first.group with
    | none => simp [Decision.holder, hfg] at h
    | some held =>
      -- the holder is the group of the request, so the group has a name in the scope
      have hheld : group = some held := by simpa [Decision.holder, hfg] using h
      subst hheld
      exact groupName?_eq_none_iff.1 hg first (List.mem_of_find?_eq_some hf) hp.1 hfg

/-- The suffix that a decision gave to a base, and the name it made. -/
theorem suffixGiven?_eq_some_iff {base : String} {d : Decision} {n : Nat} :
    suffixGiven? base d = some n ↔
      ∃ suffix, d.strategy = .numericSuffix suffix ∧ d.finalName = base ++ toString n ∧ suffix.toNat = n := by
  unfold suffixGiven?
  split
  · rename_i suffix hstrategy
    rw [hstrategy, Option.ite_none_right_eq_some, Option.some_inj]
    constructor
    · rintro ⟨hname, rfl⟩
      exact ⟨suffix, rfl, hname, rfl⟩
    · rintro ⟨_, hsuffix, hname, rfl⟩
      obtain rfl := Strategy.numericSuffix.inj hsuffix
      exact ⟨hname, rfl⟩
  · rename_i hplain
    refine ⟨fun h => (Option.some_ne_none n h.symm).elim, ?_⟩
    rintro ⟨suffix, hstrategy, -⟩
    exact (hplain suffix hstrategy).elim

/-! ## Names that are held -/

/-- A name that no decision of the scope has is free. -/
theorem isFree_of_unheld {l : Ledger} {s : Scope} {name : String}
    (h : ∀ d ∈ l.decisionsIn s, d.finalName ≠ name) (group : Option String) : l.isFree s name group = true := by
  unfold isFree
  rw [holder?_eq_none_iff.2 h]

/-- For a request whose group has no name in the scope, names are free that are not held. -/
theorem isFree_eq_not_isTaken {l : Ledger} {s : Scope} {group : Option String}
    (hg : group.bind (l.groupName? s) = none) (name : String) : l.isFree s name group = !l.isTaken s name := by
  cases htaken : l.isTaken s name with
  | true =>
    obtain ⟨d, hd, hname⟩ := isTaken_iff.1 htaken
    obtain ⟨hd, hs⟩ := List.mem_filter.1 hd
    rw [Bool.not_true, Bool.eq_false_iff]
    exact fun hfree => unheld_of_isFree hg hfree d hd (of_decide_eq_true hs) hname
  | false =>
    refine isFree_of_unheld (fun d hd hname => ?_) group
    rw [isTaken_iff.2 ⟨d, hd, hname⟩] at htaken
    cases htaken

/-- Names that are held stay held as decisions are added. -/
theorem isTaken_mono {l later : Ledger} (h : l.decisions <+: later.decisions) {s : Scope} {name : String}
    (htaken : l.isTaken s name = true) : later.isTaken s name = true := by
  obtain ⟨d, hd, hname⟩ := isTaken_iff.1 htaken
  exact isTaken_iff.2 ⟨d, (h.filter _).subset hd, hname⟩

/-! ## Origins of answers -/

/-- The requested name in its style and made safe, and whether that changed it; a verbatim name is left alone. -/
def candidate (l : Ledger) (r : Request) : String × Bool :=
  if r.verbatim then (r.base, false) else l.styled r.base r.kind

theorem candidate_of_verbatim {l : Ledger} {r : Request} (h : r.verbatim = true) : (l.candidate r).1 = r.base := by
  unfold candidate
  rw [if_pos h]

theorem candidate_of_not_verbatim {l : Ledger} {r : Request} (h : r.verbatim = false) :
    (l.candidate r).1 = l.naturalName r.base r.kind := by
  unfold candidate
  rw [if_neg (by simp [h])]
  rfl

/-- How a name comes about that is a free variant of `base`. -/
inductive Variant (r : Request) (base : String) : String → Strategy → Prop
  | plain : Variant r base base .none
  | qualified {short : String} : r.qualifier = some short →
      Variant r base (base ++ "_" ++ short) .interfaceQualified
  | suffixed (n : Nat) : Variant r base (base ++ toString n) (.numericSuffix (.ofNat n))

/-- Where the answer to a request comes from. -/
inductive Origin (l : Ledger) (r : Request) : Answer → Prop
  | shared {group name : String} : r.group = some group → l.groupName? r.scope group = some name →
      Origin l r ⟨name, .automatic, .overloadShared, false⟩
  | chosen {name : String} : r.group.bind (l.groupName? r.scope) = none → l.override? r = some name →
      Origin l r ⟨name, .override, .none, false⟩
  | derived {name : String} {strategy : Strategy} : r.group.bind (l.groupName? r.scope) = none →
      l.override? r = none → l.isFree r.scope name r.group = true →
      Variant r (l.candidate r).1 name strategy →
      Origin l r ⟨name, if r.verbatim then .verbatim else .automatic, strategy, (l.candidate r).2⟩

section Search

variable {free : String → Bool} {base : String} {attempts suffix n k : Nat}

/-- One attempt of a search: the number at hand makes a name that is free, or the search goes on with the next one. -/
theorem searchSuffix_succ_eq_some_iff : searchSuffix free base (attempts + 1) suffix = some n ↔
    (free (base ++ toString suffix) = true ∧ suffix = n) ∨
      (free (base ++ toString suffix) = false ∧
        searchSuffix free base attempts (min (suffix + 1) maxSuffix) = some n) := by
  rw [searchSuffix]
  cases free (base ++ toString suffix) <;> simp

theorem searchSuffix_free (h : searchSuffix free base attempts suffix = some n) :
    free (base ++ toString n) = true := by
  induction attempts generalizing suffix with
  | zero => cases h
  | succ attempts ih =>
    obtain ⟨hfree, rfl⟩ | ⟨-, hnext⟩ := searchSuffix_succ_eq_some_iff.1 h
    · exact hfree
    · exact ih hnext

/-- Numbers from the first suffix on that the search has passed over make names that are not free. -/
theorem not_free_of_searchSuffix (h : searchSuffix free base attempts suffix = some n) (hk : suffix ≤ k) (hn : k < n) :
    free (base ++ toString k) = false := by
  induction attempts generalizing suffix with
  | zero => cases h
  | succ attempts ih =>
    obtain ⟨-, rfl⟩ | ⟨hheld, hnext⟩ := searchSuffix_succ_eq_some_iff.1 h
    · omega
    · rcases Nat.eq_or_lt_of_le hk with rfl | hlt
      · exact hheld
      · exact ih hnext (Nat.le_trans (Nat.min_le_left _ _) hlt)

theorem searchSuffix_bounds (h : searchSuffix free base attempts suffix = some n) (hmax : suffix ≤ maxSuffix) :
    0 < attempts ∧ suffix ≤ n ∧ n ≤ maxSuffix := by
  induction attempts generalizing suffix with
  | zero => cases h
  | succ attempts ih =>
    obtain ⟨-, rfl⟩ | ⟨-, hnext⟩ := searchSuffix_succ_eq_some_iff.1 h
    · exact ⟨by omega, Nat.le_refl _, hmax⟩
    · obtain ⟨-, hle, hn⟩ := ih hnext (Nat.min_le_right _ _)
      exact ⟨by omega, by omega, hn⟩

/-- A search comes to nothing when none of the names that it looks at is free. -/
theorem searchSuffix_eq_none_iff (h : suffix ≤ maxSuffix) : searchSuffix free base attempts suffix = none ↔
    ∀ k < attempts, free (base ++ toString (min (suffix + k) maxSuffix)) = false := by
  induction attempts generalizing suffix with
  | zero => simp [searchSuffix]
  | succ attempts ih =>
    have hfirst : min (suffix + 0) maxSuffix = suffix := Nat.min_eq_left h
    have hnext : ∀ k, min (min (suffix + 1) maxSuffix + k) maxSuffix = min (suffix + (k + 1)) maxSuffix := by omega
    have hrest : searchSuffix free base attempts (min (suffix + 1) maxSuffix) = none ↔ ∀ k < attempts,
        free (base ++ toString (min (min (suffix + 1) maxSuffix + k) maxSuffix)) = false :=
      ih (Nat.min_le_right _ _)
    simp only [hnext] at hrest
    rw [Nat.forall_lt_succ_left, hfirst, ← hrest]
    simp only [searchSuffix]
    cases free (base ++ toString suffix) <;> simp

/-- A search that finds nothing has tried as many numbers as it may, unless suffixes end before that. -/
theorem not_free_of_searchSuffix_eq_none (h : searchSuffix free base attempts suffix = none) (hk : suffix ≤ k)
    (hlt : k < suffix + attempts) (hmax : k ≤ maxSuffix) : free (base ++ toString k) = false := by
  have hheld := (searchSuffix_eq_none_iff (Nat.le_trans hk hmax)).1 h (k - suffix) (by omega)
  rwa [show min (suffix + (k - suffix)) maxSuffix = k by omega] at hheld

end Search

/-- Different suffixes make different names. -/
theorem suffixed_inj {base : String} {m n : Nat} : base ++ toString m = base ++ toString n ↔ m = n := by
  refine ⟨fun h => ?_, fun h => h ▸ rfl⟩
  have hdigits : Nat.toDigits 10 m = Nat.toDigits 10 n := by
    have := congrArg String.toList ((String.append_right_inj base).1 h)
    simpa using this
  rw [← Nat.ofDigitChars_ten_toDigits (n := m), hdigits, Nat.ofDigitChars_ten_toDigits]

theorem toNat_ofNat_of_le_maxSuffix {n : Nat} (h : n ≤ maxSuffix) : (UInt32.ofNat n).toNat = n := by
  have : maxSuffix < UInt32.size := by decide
  exact UInt32.toNat_ofNat_of_lt' (by omega)

theorem nextSuffix_le_maxSuffix (l : Ledger) (s : Scope) (base : String) : l.nextSuffix s base ≤ maxSuffix := by
  have hmax : 2 ≤ maxSuffix := by decide
  unfold nextSuffix
  split
  · exact Nat.min_le_right _ _
  · exact hmax

theorem freeVariant?_eq_some {l : Ledger} {r : Request} {base name : String} {strategy : Strategy}
    (h : l.freeVariant? r base = some (name, strategy)) :
    l.isFree r.scope name r.group = true ∧ Variant r base name strategy := by
  unfold freeVariant? at h
  simp only at h
  split at h
  · rename_i hfree
    obtain ⟨rfl, rfl⟩ : base = name ∧ Strategy.none = strategy := by simpa using h
    exact ⟨hfree, .plain⟩
  · split at h
    · rename_i qualified hq
      obtain ⟨rfl, rfl⟩ : qualified = name ∧ Strategy.interfaceQualified = strategy := by simpa using h
      obtain ⟨hq, hfree⟩ := Option.filter_eq_some_iff.1 hq
      obtain ⟨short, hshort, rfl⟩ := Option.map_eq_some_iff.1 hq
      exact ⟨hfree, .qualified hshort⟩
    · obtain ⟨n, hn, heq⟩ := Option.map_eq_some_iff.1 h
      obtain ⟨rfl, rfl⟩ := Prod.mk.inj heq
      exact ⟨searchSuffix_free hn, .suffixed n⟩

/-- A variant with a suffix is what the search came to, for a base that is not free itself. -/
theorem searchSuffix_of_freeVariant? {l : Ledger} {r : Request} {base name : String} {n : UInt32}
    (h : l.freeVariant? r base = some (name, .numericSuffix n)) :
    name = base ++ toString n.toNat ∧ l.isFree r.scope base r.group = false ∧
      searchSuffix (l.isFree r.scope · r.group) base l.settings.maxSuffixAttempts.toNat
        (l.nextSuffix r.scope base) = some n.toNat := by
  unfold freeVariant? at h
  simp only at h
  split at h
  · simp at h
  · rename_i hbase
    split at h
    · simp at h
    · obtain ⟨k, hk, heq⟩ := Option.map_eq_some_iff.1 h
      obtain ⟨rfl, hn⟩ := Prod.mk.inj heq
      obtain ⟨-, -, hmax⟩ := searchSuffix_bounds hk (l.nextSuffix_le_maxSuffix r.scope base)
      rw [← Strategy.numericSuffix.inj hn, toNat_ofNat_of_le_maxSuffix hmax]
      exact ⟨rfl, by simpa using hbase, hk⟩

/-- Without a free variant, the base is not free and the search has come to nothing. -/
theorem searchSuffix_of_freeVariant?_eq_none {l : Ledger} {r : Request} {base : String}
    (h : l.freeVariant? r base = none) :
    l.isFree r.scope base r.group = false ∧
      searchSuffix (l.isFree r.scope · r.group) base l.settings.maxSuffixAttempts.toNat
        (l.nextSuffix r.scope base) = none := by
  unfold freeVariant? at h
  simp only at h
  split at h
  · simp at h
  · rename_i hbase
    split at h
    · simp at h
    · exact ⟨by simpa using hbase, Option.map_eq_none_iff.1 h⟩

theorem isFree_of_override? {l : Ledger} {r : Request} {name : String} (h : l.override? r = some name) :
    l.isFree r.scope name r.group = true := by
  unfold override? at h
  split at h
  · simp at h
  · exact (Option.filter_eq_some_iff.1 h).2

theorem override?_eq_none {l : Ledger} (h : l.settings.overrides = .empty) (r : Request) : l.override? r = none := by
  unfold override?
  split
  · rfl
  · simp [h, Overrides.empty, Overrides.find?]

/-- An answer that is not forced by the group or chosen by the user is a variant of the candidate. -/
theorem answer_of_open {l : Ledger} {r : Request} (hg : r.group.bind (l.groupName? r.scope) = none)
    (ho : l.override? r = none) :
    l.answer r = match l.freeVariant? r (l.candidate r).1 with
      | some (name, strategy) =>
        .ok (Answer.mk name (if r.verbatim then .verbatim else .automatic) strategy (l.candidate r).2)
      | none => .error (.suffixExhausted r.scope (l.candidate r).1 l.settings.maxSuffixAttempts
          (l.scopeDump r.scope)) := by
  unfold answer
  rw [hg, ho]
  rfl

/-- An answer is the name of the group, or what the user has chosen, or a free variant of the candidate. -/
theorem answer_cases {l : Ledger} {r : Request} {a : Answer} (h : l.answer r = .ok a) :
    (∃ name, r.group.bind (l.groupName? r.scope) = some name ∧
      a = Answer.mk name .automatic .overloadShared false) ∨
    (r.group.bind (l.groupName? r.scope) = none ∧ ∃ name, l.override? r = some name ∧
      a = Answer.mk name .override .none false) ∨
    (r.group.bind (l.groupName? r.scope) = none ∧ l.override? r = none ∧ ∃ name strategy,
      l.freeVariant? r (l.candidate r).1 = some (name, strategy) ∧
      a = Answer.mk name (if r.verbatim then .verbatim else .automatic) strategy (l.candidate r).2) := by
  cases hg : r.group.bind (l.groupName? r.scope) with
  | some name =>
    unfold answer at h
    rw [hg] at h
    cases h
    exact .inl ⟨name, rfl, rfl⟩
  | none =>
    cases ho : l.override? r with
    | some name =>
      unfold answer at h
      rw [hg, ho] at h
      cases h
      exact .inr (.inl ⟨rfl, name, rfl, rfl⟩)
    | none =>
      rw [answer_of_open hg ho] at h
      split at h
      · rename_i name strategy hfree
        cases h
        exact .inr (.inr ⟨rfl, rfl, name, strategy, hfree, rfl⟩)
      · cases h

theorem answer_origin {l : Ledger} {r : Request} {a : Answer} (h : l.answer r = .ok a) : Origin l r a := by
  obtain ⟨name, hg, rfl⟩ | ⟨hg, name, ho, rfl⟩ | ⟨hg, ho, name, strategy, hfree, rfl⟩ := answer_cases h
  · obtain ⟨group, hgroup, hfound⟩ := Option.bind_eq_some_iff.1 hg
    exact .shared hgroup hfound
  · exact .chosen hg ho
  · obtain ⟨hfree, hvariant⟩ := freeVariant?_eq_some hfree
    exact .derived hg ho hfree hvariant

/-- There is no answer just when nothing settles the name and the candidate has no free variant. -/
theorem answer_eq_error_iff {l : Ledger} {r : Request} {e : NameError} :
    l.answer r = .error e ↔ r.group.bind (l.groupName? r.scope) = none ∧ l.override? r = none ∧
      l.freeVariant? r (l.candidate r).1 = none ∧
      e = .suffixExhausted r.scope (l.candidate r).1 l.settings.maxSuffixAttempts (l.scopeDump r.scope) := by
  cases hg : r.group.bind (l.groupName? r.scope) with
  | some name =>
    unfold answer
    rw [hg]
    simp
  | none =>
    cases ho : l.override? r with
    | some name =>
      unfold answer
      rw [hg, ho]
      simp
    | none =>
      rw [answer_of_open hg ho]
      cases l.freeVariant? r (l.candidate r).1 <;> simp [eq_comm (b := e)]

/-! ## Requests that are granted or refused -/

theorem reserve_eq_ok_iff {l after : Ledger} {r : Request} {name : String} :
    l.reserve r = .ok (name, after) ↔
      (∃ d, l.decision? r.id r.scope = some d ∧ d.requested = r.base ∧ d.finalName = name ∧ after = l) ∨
      (l.decision? r.id r.scope = none ∧ ∃ a, l.answer r = .ok a ∧ a.finalName = name ∧
        after = { l with decisions := l.decisions ++ [record r a] }) := by
  unfold reserve
  cases hd : l.decision? r.id r.scope with
  | some d =>
    by_cases hb : d.requested = r.base
    · simp [hb, eq_comm]
    · have hb' : r.base ≠ d.requested := Ne.symm hb
      simp [hb, hb', eq_comm]
  | none =>
    cases ha : l.answer r <;> simp [bind, Except.bind, pure, Except.pure, eq_comm]

/-- A request is refused when its symbol has a name that was requested as something else, or when there is no answer. -/
theorem reserve_eq_error_iff {l : Ledger} {r : Request} {e : NameError} :
    l.reserve r = .error e ↔
      (∃ d, l.decision? r.id r.scope = some d ∧ d.requested ≠ r.base ∧
        e = .conflictingReservation r.id r.scope d.requested r.base) ∨
      (l.decision? r.id r.scope = none ∧ l.answer r = .error e) := by
  unfold reserve
  cases l.decision? r.id r.scope with
  | some d => by_cases hb : d.requested = r.base <;> simp [hb, eq_comm (b := e)]
  | none => cases ha : l.answer r <;> simp [bind, Except.bind, pure, Except.pure]

/-- A request that is refused for want of a suffix is for a new symbol, and has no answer. -/
theorem answer_of_suffixExhausted {l : Ledger} {r : Request} {scope : Scope} {base : String} {attempts : UInt32}
    {dump : List String} (h : l.reserve r = .error (.suffixExhausted scope base attempts dump)) :
    l.decision? r.id r.scope = none ∧ l.answer r = .error (.suffixExhausted scope base attempts dump) := by
  obtain ⟨d, -, -, he⟩ | hrefused := reserve_eq_error_iff.1 h
  · cases he
  · exact hrefused

/-- The request is granted, and the decision is what is written down for it. -/
def Commits (l : Ledger) (r : Request) (d : Decision) : Prop :=
  l.reserve r = .ok (d.finalName, { l with decisions := l.decisions ++ [d] })

theorem commits_iff {l : Ledger} {r : Request} {d : Decision} :
    l.Commits r d ↔ l.decision? r.id r.scope = none ∧ ∃ a, l.answer r = .ok a ∧ d = record r a := by
  unfold Commits
  rw [reserve_eq_ok_iff]
  constructor
  · rintro (⟨-, -, -, -, hsame⟩ | ⟨hnew, a, ha, -, hadded⟩)
    · have hlength := congrArg (fun l : Ledger => l.decisions.length) hsame
      simp at hlength
    · have hdecisions : l.decisions ++ [d] = l.decisions ++ [record r a] := congrArg Ledger.decisions hadded
      exact ⟨hnew, a, ha, by simpa using hdecisions⟩
  · rintro ⟨hnew, a, ha, rfl⟩
    exact .inr ⟨hnew, a, ha, rfl, rfl⟩

/-- A decision is written down for a new symbol whenever there is an answer. -/
theorem exists_commits {l : Ledger} {r : Request} (name : String) (strategy : Strategy)
    (hnew : (l.decision? r.id r.scope).isNone = true)
    (h : (l.answer r).toOption.map (fun a => (a.finalName, a.strategy)) = some (name, strategy)) :
    ∃ d, l.Commits r d ∧ d.finalName = name ∧ d.strategy = strategy := by
  cases ha : l.answer r with
  | error e => simp [ha, Except.toOption] at h
  | ok a =>
    obtain ⟨rfl, rfl⟩ : a.finalName = name ∧ a.strategy = strategy := by simpa [ha, Except.toOption] using h
    exact ⟨record r a, commits_iff.2 ⟨Option.isNone_iff_eq_none.1 hnew, a, ha, rfl⟩, rfl, rfl⟩

/-- A new symbol is refused for want of a suffix whenever there is no answer. -/
theorem reserve_eq_suffixExhausted {l : Ledger} {r : Request} (hnew : (l.decision? r.id r.scope).isNone = true)
    (h : (l.answer r).toOption.isNone = true) :
    l.reserve r =
      .error (.suffixExhausted r.scope (l.candidate r).1 l.settings.maxSuffixAttempts (l.scopeDump r.scope)) := by
  cases ha : l.answer r with
  | ok a => simp [ha, Except.toOption] at h
  | error e =>
    obtain ⟨-, -, -, rfl⟩ := answer_eq_error_iff.1 ha
    exact reserve_eq_error_iff.2 (.inr ⟨Option.isNone_iff_eq_none.1 hnew, ha⟩)

/-- The ledger after a request, granted or refused. -/
def afterRequest (l : Ledger) (r : Request) : Ledger :=
  match l.reserve r with
  | .ok (_, after) => after
  | .error _ => l

/-- The ledger after a sequence of requests, each of them granted or refused. -/
def afterRequests (l : Ledger) (requests : List Request) : Ledger :=
  requests.foldl afterRequest l

theorem afterRequests_append (l : Ledger) (requests more : List Request) :
    l.afterRequests (requests ++ more) = (l.afterRequests requests).afterRequests more :=
  List.foldl_append

theorem afterRequests_append_cons (l : Ledger) (requests between : List Request) (r : Request) :
    l.afterRequests (requests ++ r :: between) = ((l.afterRequests requests).afterRequest r).afterRequests between :=
  afterRequests_append l requests (r :: between)

theorem Commits.afterRequest_eq {l : Ledger} {r : Request} {d : Decision} (h : l.Commits r d) :
    l.afterRequest r = { l with decisions := l.decisions ++ [d] } := by
  unfold afterRequest
  rw [h]

theorem afterRequest_cases (l : Ledger) (r : Request) :
    l.afterRequest r = l ∨ (l.decision? r.id r.scope = none ∧ ∃ a, l.answer r = .ok a ∧
      l.afterRequest r = { l with decisions := l.decisions ++ [record r a] }) := by
  unfold afterRequest
  cases h : l.reserve r with
  | error e => exact .inl rfl
  | ok granted =>
    obtain ⟨name, after⟩ := granted
    rcases reserve_eq_ok_iff.1 h with ⟨d, -, -, -, rfl⟩ | ⟨hnew, a, ha, -, rfl⟩
    · exact .inl rfl
    · exact .inr ⟨hnew, a, ha, rfl⟩

/-- What every decision that is written down keeps true of a ledger is true after any sequence of requests. -/
theorem afterRequests_induction {motive : Ledger → Prop} {l : Ledger} (requests : List Request) (hl : motive l)
    (hrecord : ∀ (l : Ledger) (r : Request) (a : Answer), motive l → l.decision? r.id r.scope = none →
      l.answer r = .ok a → motive { l with decisions := l.decisions ++ [record r a] }) :
    motive (l.afterRequests requests) := by
  unfold afterRequests
  induction requests generalizing l with
  | nil => exact hl
  | cons r rest ih =>
    refine ih ?_
    obtain h | ⟨hnew, a, ha, h⟩ := l.afterRequest_cases r
    · rwa [h]
    · rw [h]
      exact hrecord l r a hl hnew ha

theorem settings_afterRequests (l : Ledger) (requests : List Request) :
    (l.afterRequests requests).settings = l.settings :=
  afterRequests_induction (motive := fun later => later.settings = l.settings) requests rfl fun _ _ _ h _ _ => h

end Ledger

end Exonym
