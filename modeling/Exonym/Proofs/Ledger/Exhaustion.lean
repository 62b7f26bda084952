import Exonym.Proofs.Grouping
import Exonym.Proofs.Ledger.Suffixes

/-!
# When suffixes run out

Some suffixes may be tried for a request, and it is refused if none of them makes a free name. They follow on from each
other, and below the first of them no suffix is free either. So a refusal says that the candidate is held and that at
least as many names made from it are, which is more names than a scope has that holds fewer.

The numbers in such a run are different ones as long as suffixes do not end in it. With at most half of all suffixes to
try that makes no difference: where they end, more than enough names are held.

Main statements:

* `Ledger.Gapless.isTaken_of_answer_eq_error`: the names that are held when a request gets no answer.
* `Ledger.exists_scopeDump_perm`: the listing of a scope has one line for each name that is held.
* `Ledger.exhausted_only_in_full_scope`: a request is refused for want of a suffix only in a scope that is full.
-/

namespace Exonym

namespace Ledger

/-! ## The names of a scope -/

/-- The names that are held in a scope, each of them once. -/
def heldNames (l : Ledger) (s : Scope) : List String :=
  ((l.decisionsIn s).map (·.finalName)).eraseDups

theorem mem_heldNames {l : Ledger} {s : Scope} {name : String} :
    name ∈ l.heldNames s ↔ l.isTaken s name = true := by
  rw [heldNames, List.mem_eraseDups, List.mem_map, isTaken_iff]

theorem nodup_heldNames (l : Ledger) (s : Scope) : (l.heldNames s).Nodup :=
  Grouping.nodup_eraseDups _

/-- The listing of a scope has one line for each name that is held, with its holder. -/
theorem exists_scopeDump_perm (l : Ledger) (s : Scope) :
    ∃ entries : List (String × Holder), entries.map (·.1) = l.heldNames s ∧
      (∀ e ∈ entries, l.holder? s e.1 = some e.2) ∧
      (l.scopeDump s).Perm (entries.map fun e => e.1 ++ " -> " ++ e.2.text) := by
  refine ⟨Decision.holders (l.decisionsIn s), Decision.map_fst_holders _, fun e he => ?_, ?_⟩
  · rw [holder?_eq_find?, ← Decision.lookup_holders, Decision.lookup_of_mem_holders _ e he]
  · rw [scopeDump_eq_holders]
    exact List.mergeSort_perm _ _

/-! ## Refusals -/

/-- Names made from a base, as many as there are numbers. -/
def suffixedNames (base : String) (count : Nat) : List String :=
  (List.range' 2 count).map fun k => base ++ toString k

theorem length_suffixedNames (base : String) (count : Nat) : (suffixedNames base count).length = count := by
  simp [suffixedNames]

theorem mem_suffixedNames {base name : String} {count : Nat} :
    name ∈ suffixedNames base count ↔ ∃ k, (2 ≤ k ∧ k < 2 + count) ∧ base ++ toString k = name := by
  simp [suffixedNames, List.mem_range'_1]

theorem nodup_suffixedNames (base : String) (count : Nat) : (suffixedNames base count).Nodup :=
  List.Pairwise.map _ (fun _ _ hne he => hne (suffixed_inj.1 he)) List.nodup_range'

theorem base_notMem_suffixedNames (base : String) (count : Nat) : base ∉ suffixedNames base count := by
  intro hmem
  obtain ⟨k, -, hk⟩ := mem_suffixedNames.1 hmem
  have hdigits : 0 < (toString k).length := by
    simp [← String.length_toList, Nat.toList_repr, Nat.length_toDigits_pos]
  have hlength := congrArg String.length hk
  rw [String.length_append] at hlength
  omega

/-- Without an answer, the candidate is held, and so are as many names with suffixes as may be tried, from 2 on. -/
theorem Gapless.isTaken_of_answer_eq_error {l : Ledger} (hl : l.Gapless) {r : Request} {e : NameError}
    (hfirst : 2 ≤ l.nextSuffix r.scope (l.candidate r).1)
    (hm : l.settings.maxSuffixAttempts.toNat + 1 ≤ maxSuffix) (h : l.answer r = .error e) :
    l.isTaken r.scope (l.candidate r).1 = true ∧
      ∀ name ∈ suffixedNames (l.candidate r).1 l.settings.maxSuffixAttempts.toNat,
        l.isTaken r.scope name = true := by
  obtain ⟨hg, -, hnone, -⟩ := answer_eq_error_iff.1 h
  obtain ⟨hbase, hsearch⟩ := searchSuffix_of_freeVariant?_eq_none hnone
  have hheld : ∀ name, l.isFree r.scope name r.group = false → l.isTaken r.scope name = true := by
    intro name hname
    rwa [isFree_eq_not_isTaken hg, Bool.not_eq_false'] at hname
  refine ⟨hheld _ hbase, fun name hname => ?_⟩
  obtain ⟨k, ⟨h2, hk⟩, rfl⟩ := mem_suffixedNames.1 hname
  rcases Nat.lt_or_ge k (l.nextSuffix r.scope (l.candidate r).1) with hlt | hge
  · exact hl.isTaken_of_lt_nextSuffix h2 hlt
  · exact hheld _ (not_free_of_searchSuffix_eq_none hsearch hge (by omega) (by omega))

/-- So the scope has more names than suffixes may be tried. -/
theorem Gapless.lt_length_heldNames {l : Ledger} (hl : l.Gapless) {r : Request} {e : NameError}
    (hfirst : 2 ≤ l.nextSuffix r.scope (l.candidate r).1)
    (hm : l.settings.maxSuffixAttempts.toNat + 1 ≤ maxSuffix) (h : l.answer r = .error e) :
    l.settings.maxSuffixAttempts.toNat < (l.heldNames r.scope).length := by
  obtain ⟨hbase, hsuffixed⟩ := hl.isTaken_of_answer_eq_error hfirst hm h
  have hnodup : ((l.candidate r).1 :: suffixedNames (l.candidate r).1 l.settings.maxSuffixAttempts.toNat).Nodup :=
    List.nodup_cons.2 ⟨base_notMem_suffixedNames _ _, nodup_suffixedNames _ _⟩
  have hsubset : (l.candidate r).1 :: suffixedNames (l.candidate r).1 l.settings.maxSuffixAttempts.toNat ⊆
      l.heldNames r.scope :=
    List.cons_subset.2 ⟨mem_heldNames.2 hbase, fun name hname => mem_heldNames.2 (hsuffixed name hname)⟩
  have hle := hnodup.length_le_of_subset hsubset
  rw [List.length_cons, length_suffixedNames] at hle
  exact hle

/-- After any requests, with at most half of all suffixes to try: a request is not refused for want of a suffix if fewer
names are held in the scope than may be tried. If it is refused, its candidate is held, and so are at least as many
different names that are the candidate with a number, and the listing has one line for each name that is held. A register
tells the request the same. -/
theorem exhausted_only_in_full_scope (settings : NameSettings)
    (hm : settings.maxSuffixAttempts.toNat ≤ Nat.pow 2 31) (requests : List Request) (r : Request) :
    let l := (empty settings).afterRequests requests
    let g := (IndexedRegister.empty settings).afterRequests requests
    ((l.heldNames r.scope).length < settings.maxSuffixAttempts.toNat →
      ∀ scope base attempts dump, l.reserve r ≠ .error (.suffixExhausted scope base attempts dump)) ∧
    (∀ scope base attempts dump, l.reserve r = .error (.suffixExhausted scope base attempts dump) →
      base = (l.candidate r).1 ∧ base ∈ l.heldNames r.scope ∧
      (∃ suffixed : List String, suffixed.Nodup ∧ settings.maxSuffixAttempts.toNat ≤ suffixed.length ∧
        ∀ name ∈ suffixed, name ∈ l.heldNames r.scope ∧ ∃ k : Nat, name = base ++ toString k) ∧
      (l.heldNames r.scope).Nodup ∧
      ∃ entries : List (String × Holder), entries.map (·.1) = l.heldNames r.scope ∧
        (∀ e ∈ entries, l.holder? r.scope e.1 = some e.2) ∧
        dump.Perm (entries.map fun e => e.1 ++ " -> " ++ e.2.text)) ∧
    (g.reserve r).1 = l.outcome r := by
  intro l g
  have hsettings : l.settings = settings := settings_afterRequests _ _
  have hl : l.Gapless := gapless_afterRequests settings requests
  have hfirst : 2 ≤ l.nextSuffix r.scope (l.candidate r).1 := two_le_nextSuffix_afterRequests settings requests _ _
  have hbound : l.settings.maxSuffixAttempts.toNat + 1 ≤ maxSuffix := by
    rw [hsettings]
    exact Nat.le_trans (Nat.succ_le_succ hm) (by decide)
  refine ⟨fun hfew scope base attempts dump h => ?_, fun scope base attempts dump h => ?_,
    (((IndexedRegister.mirrors_empty settings).afterRequests requests).reserve r).1⟩
  · have hmany := hl.lt_length_heldNames hfirst hbound (answer_of_suffixExhausted h).2
    rw [hsettings] at hmany
    exact Nat.lt_asymm hfew hmany
  · obtain ⟨-, ha⟩ := answer_of_suffixExhausted h
    obtain ⟨-, -, -, he⟩ := answer_eq_error_iff.1 ha
    obtain ⟨rfl, rfl, rfl, rfl⟩ := NameError.suffixExhausted.inj he
    obtain ⟨hbase, hsuffixed⟩ := hl.isTaken_of_answer_eq_error hfirst hbound ha
    refine ⟨rfl, mem_heldNames.2 hbase, ?_, nodup_heldNames _ _, l.exists_scopeDump_perm r.scope⟩
    refine ⟨suffixedNames (l.candidate r).1 l.settings.maxSuffixAttempts.toNat, nodup_suffixedNames _ _, ?_,
      fun name hname => ?_⟩
    · exact Nat.le_of_eq (by rw [length_suffixedNames, hsettings])
    · obtain ⟨k, -, hk⟩ := mem_suffixedNames.1 hname
      exact ⟨mem_heldNames.2 (hsuffixed name hname), k, hk.symm⟩

/-- With one suffix to try, the member after the three there are is refused, and the listing has three lines. With four
to try it is not. -/
theorem exhausted_of_itemRequests :
    let few := { NameSettings.default with maxSuffixAttempts := 1 }
    let many := { NameSettings.default with maxSuffixAttempts := 4 }
    let r := itemRequest "(D)" "Item"
    (few.maxSuffixAttempts.toNat ≤ Nat.pow 2 31 ∧
      ∃ scope base attempts dump, ((empty few).afterRequests itemRequests).reserve r =
          .error (.suffixExhausted scope base attempts dump) ∧
        base ∈ ((empty few).afterRequests itemRequests).heldNames r.scope ∧ dump.length = 3) ∧
    many.maxSuffixAttempts.toNat ≤ Nat.pow 2 31 ∧
      (((empty many).afterRequests itemRequests).heldNames r.scope).length < many.maxSuffixAttempts.toNat ∧
      ∀ scope base attempts dump, ((empty many).afterRequests itemRequests).reserve r ≠
        .error (.suffixExhausted scope base attempts dump) := by
  intro few many r
  refine ⟨⟨by decide, ?_⟩, by decide, by decide +kernel,
    (exhausted_only_in_full_scope many (by decide) itemRequests r).1 (by decide +kernel)⟩
  have hrefused := reserve_eq_suffixExhausted (l := (empty few).afterRequests itemRequests) (r := r)
    (by decide +kernel) (by decide +kernel)
  obtain ⟨-, hbase, -, -, entries, hentries, -, hdump⟩ :=
    (exhausted_only_in_full_scope few (by decide) itemRequests r).2.1 _ _ _ _ hrefused
  refine ⟨_, _, _, _, hrefused, hbase, ?_⟩
  have hlength : (((empty few).afterRequests itemRequests).heldNames r.scope).length = 3 := by decide +kernel
  rw [hdump.length_eq, List.length_map, ← List.length_map, hentries, hlength]

end Ledger

end Exonym
