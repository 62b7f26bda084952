import Exonym.Proofs.TypeRef.Bare

/-!
# Parameters that are put in for

The parameters of a reference are those that stand outside constraints: where all of them are put in for, nothing of
the constraints is left. Then closing the arguments of a reference and closing what the arguments were put into come
to the same.

Main statements:

* `Substitution.lookup?_forArguments`: which argument is put in for a parameter.
* `Substitution.mem_params_applyWithin`: where the parameters of a closed reference come from.
* `Substitution.applyWithin_forArguments_map`: arguments may be closed before they are put in or after it.
-/

namespace Exonym

namespace TypeRef

mutual

/-- The parameters that occur in a reference, outside constraints. -/
def params : TypeRef → List ParamKey
  | .named _ args _ => paramsAll args
  | .param key _ _ => [key]
  | .array element _ => element.params
  | .pointer pointee _ => pointee.params
  | .byRef referenced => referenced.params
  | .nested declaring _ => declaring.params

def paramsAll : List TypeRef → List ParamKey
  | [] => []
  | r :: rest => r.params ++ paramsAll rest

end

theorem paramsAll_eq (rs : List TypeRef) : paramsAll rs = rs.flatMap params := by
  induction rs with
  | nil => rfl
  | cons r rest ih => simp [paramsAll, ih]

mutual

theorem params_bare : ∀ r : TypeRef, r.bare.params = r.params.map ParamKey.bare
  | .named _ args _ => by simp [bare, params, paramsAll_bareAll args]
  | .param _ _ _ => rfl
  | .array e _ => by simp [bare, params, params_bare e]
  | .pointer p _ => by simp [bare, params, params_bare p]
  | .byRef r => by simp [bare, params, params_bare r]
  | .nested d _ => by simp [bare, params, params_bare d]

theorem paramsAll_bareAll : ∀ rs : List TypeRef, paramsAll (bareAll rs) = (paramsAll rs).map ParamKey.bare
  | [] => rfl
  | r :: rest => by simp [bareAll, paramsAll, params_bare r, paramsAll_bareAll rest]

end

mutual

/-- The identities of the definitions that are named in a reference, outside constraints. -/
def names : TypeRef → List TypeId
  | .named target args _ => target.id :: namesAll args
  | .param _ _ _ => []
  | .array element _ => element.names
  | .pointer pointee _ => pointee.names
  | .byRef referenced => referenced.names
  | .nested declaring _ => declaring.names

def namesAll : List TypeRef → List TypeId
  | [] => []
  | r :: rest => r.names ++ namesAll rest

end

theorem namesAll_eq (rs : List TypeRef) : namesAll rs = rs.flatMap names := by
  induction rs with
  | nil => rfl
  | cons r rest ih => simp [namesAll, ih]

mutual

theorem names_bare : ∀ r : TypeRef, r.bare.names = r.names
  | .named _ args _ => by simp [bare, names, namesAll_bareAll args]
  | .param _ _ _ => rfl
  | .array e _ => by simp [bare, names, names_bare e]
  | .pointer p _ => by simp [bare, names, names_bare p]
  | .byRef r => by simp [bare, names, names_bare r]
  | .nested d _ => by simp [bare, names, names_bare d]

theorem namesAll_bareAll : ∀ rs : List TypeRef, namesAll (bareAll rs) = namesAll rs
  | [] => rfl
  | r :: rest => by simp [bareAll, namesAll, names_bare r, namesAll_bareAll rest]

end

mutual

/-- What is named is mentioned. -/
theorem names_subset_mentions : ∀ r : TypeRef, r.names ⊆ r.mentions
  | .named _ args _ => List.cons_subset_cons _ (namesAll_subset_mentionsAll args)
  | .param _ _ _ => List.Subset.refl _
  | .array e _ => names_subset_mentions e
  | .pointer p _ => names_subset_mentions p
  | .byRef r => names_subset_mentions r
  | .nested d _ => List.Subset.trans (names_subset_mentions d) (List.subset_append_right _ _)

theorem namesAll_subset_mentionsAll : ∀ rs : List TypeRef, namesAll rs ⊆ mentionsAll rs
  | [] => List.Subset.refl _
  | r :: rest => by
    intro id hid
    rcases List.mem_append.1 hid with hid | hid
    · exact List.mem_append_left _ (names_subset_mentions r hid)
    · exact List.mem_append_right _ (namesAll_subset_mentionsAll rest hid)

end

end TypeRef

namespace Substitution

open TypeRef

/-! ## Looking arguments up -/

theorem find?_zipIdx {owner : SymbolId} {key : ParamKey} (hkey : owner.same key.owner = true) (args : List TypeRef)
    {start : Nat} (hstart : start ≤ key.position.toNat) :
    ((args.zipIdx start).map fun x => (ParamKey.mk owner (UInt32.ofNat x.2), x.1)).find? (·.1.same key) =
      args[key.position.toNat - start]?.map fun arg => (⟨owner, key.position⟩, arg) := by
  induction args generalizing start with
  | nil => simp
  | cons arg rest ih =>
    have hlt : start < UInt32.size := Nat.lt_of_le_of_lt hstart key.position.toNat_lt
    -- positions are counted in 32 bits, and up to the one that is looked for none of them wraps
    have hsame : (ParamKey.mk owner (UInt32.ofNat start)).same key = decide (start = key.position.toNat) := by
      rw [Bool.eq_iff_iff, ParamKey.same_iff, decide_eq_true_iff]
      simp only [ParamKey.bare, ParamKey.mk.injEq, SymbolId.same_iff.1 hkey, true_and]
      rw [← UInt32.toNat_inj, UInt32.toNat_ofNat_of_lt' hlt]
    rw [List.zipIdx_cons, List.map_cons, List.find?_cons, hsame]
    by_cases heq : start = key.position.toNat
    · subst heq
      simp
    · rw [decide_eq_false heq]
      simp only
      rw [ih (by omega)]
      have hsub : key.position.toNat - start = (key.position.toNat - (start + 1)) + 1 := by omega
      rw [hsub, List.getElem?_cons_succ]

/-- The argument in the position of a parameter is put in for it. -/
theorem lookup?_forArguments (owner : SymbolId) (args : List TypeRef) (key : ParamKey) :
    (forArguments owner args).lookup? key = if owner.same key.owner then args[key.position.toNat]? else none := by
  unfold lookup? forArguments
  split
  · rename_i hkey
    have hfind := find?_zipIdx hkey args (Nat.zero_le _)
    rw [Nat.sub_zero] at hfind
    rw [hfind]
    simp [Function.comp_def]
  · rename_i hkey
    rw [Option.map_eq_none_iff, List.find?_eq_none]
    intro entry hentry
    obtain ⟨x, -, rfl⟩ := List.mem_map.1 hentry
    intro hsame
    refine hkey (SymbolId.same_iff.2 ?_)
    exact congrArg ParamKey.owner (ParamKey.same_iff.1 hsame)

/-! ## What is in a closed reference -/

mutual

/-- A parameter of a closed reference was there before or is one of what was put in. -/
theorem mem_params_applyWithin {s : Substitution} {path : List ParamKey} {k : ParamKey} : ∀ {r : TypeRef},
    k ∈ (s.applyWithin path r).params →
      (k ∈ r.params ∧ s.lookup? k = none) ∨ ∃ key ∈ r.params, ∃ x, s.lookup? key = some x ∧ k ∈ x.params
  | .param key name constraints, h => by
    unfold applyWithin at h
    cases hlookup : s.lookup? key with
    | some x =>
      simp only [hlookup] at h
      exact .inr ⟨key, by simp [params], x, hlookup, h⟩
    | none =>
      have hk : k = key := by
        simp only [hlookup] at h
        split at h <;> simpa [params] using h
      exact .inl ⟨by simp [params, hk], by rw [hk, hlookup]⟩
  | .named _ args _, h => @mem_params_applyAll s path k args h
  | .array e _, h => mem_params_applyWithin (r := e) h
  | .pointer p _, h => mem_params_applyWithin (r := p) h
  | .byRef r, h => mem_params_applyWithin (r := r) h
  | .nested d _, h => mem_params_applyWithin (r := d) h

theorem mem_params_applyAll {s : Substitution} {path : List ParamKey} {k : ParamKey} : ∀ {rs : List TypeRef},
    k ∈ paramsAll (s.applyAll path rs) →
      (k ∈ paramsAll rs ∧ s.lookup? k = none) ∨ ∃ key ∈ paramsAll rs, ∃ x, s.lookup? key = some x ∧ k ∈ x.params
  | [], h => by cases h
  | r :: rest, h => by
    simp only [paramsAll, List.mem_append]
    rcases List.mem_append.1 h with h | h
    · rcases mem_params_applyWithin h with ⟨hk, hnone⟩ | ⟨key, hkey, hx⟩
      · exact .inl ⟨.inl hk, hnone⟩
      · exact .inr ⟨key, .inl hkey, hx⟩
    · rcases mem_params_applyAll h with ⟨hk, hnone⟩ | ⟨key, hkey, hx⟩
      · exact .inl ⟨.inr hk, hnone⟩
      · exact .inr ⟨key, .inr hkey, hx⟩

end

mutual

theorem mem_names_applyWithin {s : Substitution} {path : List ParamKey} {id : TypeId} : ∀ {r : TypeRef},
    id ∈ (s.applyWithin path r).names → id ∈ r.names ∨ ∃ key x, s.lookup? key = some x ∧ id ∈ x.names
  | .param key name constraints, h => by
    unfold applyWithin at h
    cases hlookup : s.lookup? key with
    | some x =>
      simp only [hlookup] at h
      exact .inr ⟨key, x, hlookup, h⟩
    | none =>
      simp only [hlookup] at h
      split at h <;> cases h
  | .named target args _, h => by
    rcases List.mem_cons.1 h with rfl | h
    · exact .inl List.mem_cons_self
    · exact (mem_names_applyAll h).imp (List.mem_cons_of_mem _) fun h => h
  | .array e _, h => mem_names_applyWithin (r := e) h
  | .pointer p _, h => mem_names_applyWithin (r := p) h
  | .byRef r, h => mem_names_applyWithin (r := r) h
  | .nested d _, h => mem_names_applyWithin (r := d) h

theorem mem_names_applyAll {s : Substitution} {path : List ParamKey} {id : TypeId} : ∀ {rs : List TypeRef},
    id ∈ namesAll (s.applyAll path rs) → id ∈ namesAll rs ∨ ∃ key x, s.lookup? key = some x ∧ id ∈ x.names
  | [], h => by cases h
  | r :: rest, h => by
    simp only [namesAll, List.mem_append]
    rcases List.mem_append.1 h with h | h
    · exact (mem_names_applyWithin h).imp .inl fun h => h
    · exact (mem_names_applyAll h).imp .inr fun h => h

end

/-! ## Closing twice -/

mutual

/-- Nothing is put into a reference without parameters. -/
theorem applyWithin_of_params (s : Substitution) (path : List ParamKey) : ∀ {r : TypeRef}, r.params = [] →
    s.applyWithin path r = r
  | .param _ _ _, h => by cases h
  | .named _ args _, h => by simp [applyWithin, @applyAll_of_params s path args h]
  | .array e _, h => by simp [applyWithin, applyWithin_of_params s path (r := e) h]
  | .pointer p _, h => by simp [applyWithin, applyWithin_of_params s path (r := p) h]
  | .byRef r, h => by simp [applyWithin, applyWithin_of_params s path (r := r) h]
  | .nested d _, h => by simp [applyWithin, applyWithin_of_params s path (r := d) h]

theorem applyAll_of_params (s : Substitution) (path : List ParamKey) : ∀ {rs : List TypeRef}, paramsAll rs = [] →
    s.applyAll path rs = rs
  | [], _ => rfl
  | r :: rest, h => by
    obtain ⟨hr, hrest⟩ := List.append_eq_nil_iff.1 h
    simp [applyAll, applyWithin_of_params s path hr, applyAll_of_params s path hrest]

end

section Compose

variable {owner : SymbolId} {args : List TypeRef}

mutual

/-- Where every parameter is put in for, closing the arguments first is closing the result. -/
theorem applyWithin_forArguments_map (s : Substitution) (path : List ParamKey) : ∀ {r : TypeRef},
    (∀ k ∈ r.params, owner.same k.owner = true ∧ k.position.toNat < args.length) →
      (forArguments owner (args.map s.apply)).applyWithin path r =
        s.apply ((forArguments owner args).applyWithin path r)
  | .param key name constraints, h => by
    obtain ⟨hkey, hposition⟩ := h key (by simp [params])
    simp [applyWithin, lookup?_forArguments, hkey, hposition]
  | .named _ as _, h => by
    rw [applyWithin, applyWithin, @applyAll_forArguments_map s path as h]
    rfl
  | .array e _, h => by
    rw [applyWithin, applyWithin, applyWithin_forArguments_map s path (r := e) h]
    rfl
  | .pointer p _, h => by
    rw [applyWithin, applyWithin, applyWithin_forArguments_map s path (r := p) h]
    rfl
  | .byRef r, h => by
    rw [applyWithin, applyWithin, applyWithin_forArguments_map s path (r := r) h]
    rfl
  | .nested d _, h => by
    rw [applyWithin, applyWithin, applyWithin_forArguments_map s path (r := d) h]
    rfl

theorem applyAll_forArguments_map (s : Substitution) (path : List ParamKey) : ∀ {rs : List TypeRef},
    (∀ k ∈ paramsAll rs, owner.same k.owner = true ∧ k.position.toNat < args.length) →
      (forArguments owner (args.map s.apply)).applyAll path rs =
        s.applyAll [] ((forArguments owner args).applyAll path rs)
  | [], _ => rfl
  | r :: rest, h => by
    have hr := applyWithin_forArguments_map s path (r := r) fun k hk => h k (List.mem_append_left _ hk)
    have hrest := @applyAll_forArguments_map s path rest fun k hk => h k (List.mem_append_right _ hk)
    simp only [applyAll, hr, hrest]
    rfl

end

end Compose

/-- Closing a reference does not change the definition that it points at. -/
theorem id?_applyWithin {s : Substitution} {path : List ParamKey} {id : TypeId} : ∀ {r : TypeRef}, r.id? = some id →
    (s.applyWithin path r).id? = some id
  | .named _ _ _, h => h
  | .nested d name, h => by
    obtain ⟨outer, houter, rfl⟩ := Option.map_eq_some_iff.1 h
    simp [applyWithin, id?, id?_applyWithin houter]
  | .param _ _ _, h => by cases h
  | .array _ _, h => by cases h
  | .pointer _ _, h => by cases h
  | .byRef _, h => by cases h

end Substitution

end Exonym
