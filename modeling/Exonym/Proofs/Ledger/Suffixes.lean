import Exonym.Proofs.Ledger.Derived
import Exonym.Proofs.Ledger.Permanence
import Mathlib.Order.Bounds.Defs

/-!
# Suffixes without gaps

The search for a suffix does not start at 2 each time but after the suffix that the base was given last. It comes to
the same: when a suffix was given, every smaller one from 2 on made a name that was held, and names are not given back.
Where suffixes end, the search stays at the largest one, which it passes over like any other.

Main statements:

* `Ledger.gapless_afterRequests`: below a suffix that was given, all names are held, after any requests.
* `Ledger.Gapless.isTaken_of_lt_nextSuffix`: nothing is missed below the suffix that is tried first.
* `Ledger.suffix_isLeast_and_increases`: a request is given the least suffix whose name is not held, and a later one for
  the same candidate a larger one.
-/

namespace Exonym

namespace Ledger

/-- Every number from 2 up to a suffix that was given makes a name that is held. -/
def Gapless (l : Ledger) : Prop :=
  ∀ d ∈ l.decisions, ∀ base n, suffixGiven? base d = some n → ∀ k, 2 ≤ k → k ≤ n →
    l.isTaken d.scope (base ++ toString k) = true

/-- The suffix that is tried first comes right after one that was given, unless it is 2. -/
theorem exists_suffixGiven?_of_lt_nextSuffix {l : Ledger} {s : Scope} {base : String} {k : Nat} (h2 : 2 ≤ k)
    (hk : k < l.nextSuffix s base) : ∃ d ∈ l.decisionsIn s, ∃ n, suffixGiven? base d = some n ∧ k ≤ n := by
  unfold nextSuffix at hk
  cases hlast : ((l.decisionsIn s).filterMap (suffixGiven? base)).getLast? with
  | none =>
    rw [hlast] at hk
    simp only at hk
    omega
  | some n =>
    rw [hlast] at hk
    obtain ⟨d, hd, hgiven⟩ := List.mem_filterMap.1 (List.mem_of_getLast? hlast)
    exact ⟨d, hd, n, hgiven, by simp only at hk; omega⟩

/-! ## One request -/

namespace Gapless

variable {l : Ledger} {r : Request} {a : Answer}

/-- Nothing is missed below the suffix that is tried first. -/
theorem isTaken_of_lt_nextSuffix (hl : l.Gapless) {s : Scope} {base : String} {k : Nat} (h2 : 2 ≤ k)
    (hk : k < l.nextSuffix s base) : l.isTaken s (base ++ toString k) = true := by
  obtain ⟨d, hd, n, hgiven, hkn⟩ := exists_suffixGiven?_of_lt_nextSuffix h2 hk
  obtain ⟨hd, hs⟩ := List.mem_filter.1 hd
  rw [← of_decide_eq_true hs]
  exact hl d hd base n hgiven k h2 hkn

/-- An answer with a suffix has the first one, from 2 on, that makes a name which is not held. -/
theorem first_of_answer (hl : l.Gapless) (h : l.answer r = .ok a) {n : UInt32} (hn : a.strategy = .numericSuffix n) :
    a.finalName = (l.candidate r).1 ++ toString n.toNat ∧ l.nextSuffix r.scope (l.candidate r).1 ≤ n.toNat ∧
      l.isTaken r.scope ((l.candidate r).1 ++ toString n.toNat) = false ∧
      ∀ k, 2 ≤ k → k < n.toNat → l.isTaken r.scope ((l.candidate r).1 ++ toString k) = true := by
  obtain ⟨name, -, rfl⟩ | ⟨-, name, -, rfl⟩ | ⟨hg, -, name, strategy, hvariant, rfl⟩ := answer_cases h
  · cases hn
  · cases hn
  · obtain rfl : strategy = .numericSuffix n := hn
    obtain ⟨hname, -, hsearch⟩ := searchSuffix_of_freeVariant? hvariant
    obtain ⟨-, hle, -⟩ := searchSuffix_bounds hsearch (l.nextSuffix_le_maxSuffix _ _)
    refine ⟨hname, hle, ?_, fun k h2 hk => ?_⟩
    · have hfree := searchSuffix_free hsearch
      rwa [isFree_eq_not_isTaken hg, Bool.not_eq_true'] at hfree
    · rcases Nat.lt_or_ge k (l.nextSuffix r.scope (l.candidate r).1) with hlt | hge
      · exact hl.isTaken_of_lt_nextSuffix h2 hlt
      · have hheld := not_free_of_searchSuffix hsearch hge hk
        rwa [isFree_eq_not_isTaken hg, Bool.not_eq_false'] at hheld

/-- Writing an answer down leaves no gap. -/
theorem record (hl : l.Gapless) (h : l.answer r = .ok a) :
    ({ l with decisions := l.decisions ++ [Ledger.record r a] } : Ledger).Gapless := by
  have hgrow : l.decisions <+: l.decisions ++ [Ledger.record r a] := List.prefix_append _ _
  intro d hd base n hgiven k h2 hk
  rcases List.mem_append.1 hd with hd | hd
  · exact isTaken_mono hgrow (hl d hd base n hgiven k h2 hk)
  · obtain rfl := List.mem_singleton.1 hd
    obtain ⟨suffix, hstrategy, hname, rfl⟩ := suffixGiven?_eq_some_iff.1 hgiven
    obtain ⟨hmade, -, -, hbelow⟩ := hl.first_of_answer h hstrategy
    obtain rfl : (l.candidate r).1 = base := (String.append_left_inj _).1 (hmade.symm.trans hname)
    rcases Nat.lt_or_eq_of_le hk with hlt | rfl
    · exact isTaken_mono hgrow (hbelow k h2 hlt)
    · have hadded : Ledger.record r a ∈ l.decisions ++ [Ledger.record r a] := List.mem_append_right _ (.head _)
      exact isTaken_iff.2 ⟨_, List.mem_filter.2 ⟨hadded, decide_eq_true rfl⟩, hname⟩

end Gapless

/-! ## After any requests -/

theorem gapless_afterRequests (settings : NameSettings) (requests : List Request) :
    ((empty settings).afterRequests requests).Gapless :=
  afterRequests_induction requests (by simp [Gapless, empty]) fun _ _ _ hl _ h => hl.record h

theorem two_le_nextSuffix_afterRequests (settings : NameSettings) (requests : List Request) (s : Scope)
    (base : String) : 2 ≤ ((empty settings).afterRequests requests).nextSuffix s base := by
  have haccounted := accounted_afterRequests (l := empty settings) (by simp [empty]) requests
  exact two_le_nextSuffix (fun d hd => (haccounted d hd).suffix) s base

theorem isLeast_of_answer {settings : NameSettings} {requests : List Request} {r : Request} {a : Answer} {n : UInt32}
    (h : ((empty settings).afterRequests requests).answer r = .ok a) (hn : a.strategy = .numericSuffix n) :
    let l := (empty settings).afterRequests requests
    IsLeast {k | 2 ≤ k ∧ l.isTaken r.scope ((l.candidate r).1 ++ toString k) = false} n.toNat := by
  obtain ⟨-, hle, hfree, hbelow⟩ := (gapless_afterRequests settings requests).first_of_answer h hn
  refine ⟨⟨Nat.le_trans (two_le_nextSuffix_afterRequests settings requests _ _) hle, hfree⟩, ?_⟩
  rintro k ⟨h2, hk⟩
  by_contra hlt
  rw [hbelow k h2 (Nat.lt_of_not_le hlt)] at hk
  cases hk

/-- An answer with a suffix has a larger one than any that the candidate was given in the scope before. -/
theorem lt_of_answer {settings : NameSettings} {requests : List Request} {r : Request} {a : Answer} {n : UInt32}
    (h : ((empty settings).afterRequests requests).answer r = .ok a) (hn : a.strategy = .numericSuffix n)
    {d : Decision} (hd : d ∈ ((empty settings).afterRequests requests).decisions) (hs : d.scope = r.scope) {given : Nat}
    (hgiven : suffixGiven? (((empty settings).afterRequests requests).candidate r).1 d = some given) :
    given < n.toNat := by
  obtain ⟨⟨h2, hfree⟩, -⟩ := isLeast_of_answer h hn
  by_contra hle
  have hheld := gapless_afterRequests settings requests d hd _ given hgiven n.toNat h2 (Nat.le_of_not_lt hle)
  rw [← hs, hheld] at hfree
  cases hfree

/-- After any requests, a request that is granted a suffix is given the least one, from 2 on, that makes a name which
nothing in the scope has; so it is with a register, which keeps the suffix to try first in a table. Whatever is requested
after that, a request for the scope with the same candidate that is granted a suffix is given a larger one. -/
theorem suffix_isLeast_and_increases (settings : NameSettings) (requests : List Request) {r : Request}
    {d : Decision} {n : UInt32} (hd : ((empty settings).afterRequests requests).Commits r d)
    (hn : d.strategy = .numericSuffix n) :
    let l := (empty settings).afterRequests requests
    let l' : Ledger := { l with decisions := l.decisions ++ [d] }
    let g := (IndexedRegister.empty settings).afterRequests requests
    let base := (l.candidate r).1
    (d.finalName = base ++ toString n.toNat ∧
        IsLeast {k | 2 ≤ k ∧ l.isTaken r.scope (base ++ toString k) = false} n.toNat) ∧
      ((g.reserve r).1 = .ok d.finalName ∧ (g.reserve r).2.Shows l' ∧
        IsLeast {k | 2 ≤ k ∧ g.isTaken r.scope (base ++ toString k) = false} n.toNat) ∧
      ∀ between r' d' n', (l'.afterRequests between).Commits r' d' → d'.strategy = .numericSuffix n' →
        r'.scope = r.scope → ((l'.afterRequests between).candidate r').1 = base → n < n' := by
  intro l l' g base
  obtain ⟨-, a, ha, hda⟩ := commits_iff.1 hd
  have hna : a.strategy = .numericSuffix n := by rwa [hda] at hn
  obtain ⟨hname, -⟩ := (gapless_afterRequests settings requests).first_of_answer ha hna
  replace hname : d.finalName = base ++ toString n.toNat := by rw [hda]; exact hname
  have hscope : d.scope = r.scope := by rw [hda]; rfl
  have hleast := isLeast_of_answer ha hna
  have hmirrors : g.Mirrors l := (IndexedRegister.mirrors_empty settings).afterRequests requests
  obtain ⟨htold, hafter⟩ := hmirrors.reserve_of_ok hd
  refine ⟨⟨hname, hleast⟩, ⟨htold, hafter.shows, ?_⟩, ?_⟩
  · simp only [hmirrors.shows.isTaken]
    exact hleast
  · intro between r' d' n' hd' hn' hscope' hbase
    -- the later ledger is reached by requests as well, and still has what the first request was given
    have hlater : l'.afterRequests between = (empty settings).afterRequests (requests ++ r :: between) := by
      rw [afterRequests_append_cons, hd.afterRequest_eq]
    have hkept := hd.mem_afterRequests between
    rw [hlater] at hd' hbase
    obtain ⟨-, a', ha', hda'⟩ := commits_iff.1 hd'
    have hna' : a'.strategy = .numericSuffix n' := by rwa [hda'] at hn'
    have hgiven : suffixGiven? base d = some n.toNat := suffixGiven?_eq_some_iff.2 ⟨n, hn, hname, rfl⟩
    rw [← hbase] at hgiven
    exact UInt32.lt_iff_toNat_lt.2 (lt_of_answer ha' hna' hkept (hscope.trans hscope'.symm) hgiven)

/-- A request for a name of an item of the widget, on its instance surface. -/
def itemRequest (signature base : String) : Request :=
  .of (.member (.of "app" "App.Widget" "Item" signature)) base (.ofSurface ⟨"app", "App.Widget"⟩ false)

/-- Two items that would both be `Item`, and one that is to be `Item3`. -/
def itemRequests : List Request :=
  [itemRequest "(A)" "Item", itemRequest "(B)" "Item", itemRequest "(C)" "Item3"]

/-- `Item2` was given out as a suffix and `Item3` was asked for as such, so the next member is `Item4`, and the one after it
has a larger suffix. -/
theorem suffix_isLeast_of_itemRequests :
    let l := (empty .default).afterRequests itemRequests
    ∃ d, l.Commits (itemRequest "(D)" "Item") d ∧ d.strategy = .numericSuffix 4 ∧
      IsLeast {k | 2 ≤ k ∧ l.isTaken (.ofSurface ⟨"app", "App.Widget"⟩ false) ("Item" ++ toString k) = false} 4 ∧
      ∃ d' n', ({ l with decisions := l.decisions ++ [d] } : Ledger).Commits (itemRequest "(E)" "Item") d' ∧
        d'.strategy = .numericSuffix n' ∧ 4 < n' := by
  intro l
  obtain ⟨d, hd, -, hn⟩ := exists_commits (l := l) (r := itemRequest "(D)" "Item") "Item4" (.numericSuffix 4)
    (by decide +kernel) (by decide +kernel)
  obtain ⟨d', hd', -, hn'⟩ := exists_commits (l := l.afterRequest (itemRequest "(D)" "Item"))
    (r := itemRequest "(E)" "Item") "Item5" (.numericSuffix 5) (by decide +kernel) (by decide +kernel)
  rw [hd.afterRequest_eq] at hd'
  obtain ⟨⟨-, hleast⟩, -, hlater⟩ := suffix_isLeast_and_increases .default itemRequests hd hn
  have hbase : (l.candidate (itemRequest "(D)" "Item")).1 = "Item" := by decide +kernel
  rw [hbase] at hleast
  exact ⟨d, hd, hn, hleast, d', 5, hd', hn', hlater [] _ d' 5 hd' hn' rfl rfl⟩

end Ledger

end Exonym
