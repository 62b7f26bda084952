import Exonym.Proofs.Ledger.Independence
import Exonym.Text.Interner
import Mathlib.Data.List.Forall2
import Mathlib.Data.List.Induction

/-!
# Tables of names

Who holds a name in a scope, what an overload group is called there and which suffix a base had last can be kept in
tables, filled decision by decision, in which the first entry for a key stays. Names can stand in such tables as the
numbers that an interner gave them: numbers that have been given out keep their texts, so the tables say the same
however many other texts get numbers.

Main statements:

* `lookup_putNew`, `map_fst_putNew`: what is in a table that an entry was made in.
* `Interner.Decodes.lookup`, `Interner.Spells.lookup`: looking up in a table that holds numbers.
* `Decision.lookup_holders`, `Decision.lookup_groupNames`, `Ledger.scopeDump_eq_holders`: the tables of a scope's
  decisions.
-/

namespace Exonym

/-! ## Tables -/

section Tables

variable {κ α : Type} [BEq κ]

/-- The table with a value for the key, which is the given one if it had none. -/
def putNew (entries : List (κ × α)) (key : κ) (value : α) : List (κ × α) :=
  if (entries.lookup key).isSome then entries else entries ++ [(key, value)]

theorem lookup_putNew [LawfulBEq κ] (entries : List (κ × α)) (key other : κ) (value : α) :
    (putNew entries key value).lookup other = (entries.lookup other).or (if key == other then some value else none) := by
  unfold putNew
  split
  · rename_i h
    obtain ⟨known, hknown⟩ := Option.isSome_iff_exists.1 h
    by_cases he : key = other
    · subst he
      rw [hknown, Option.some_or]
    · have he' : (key == other) = false := by simpa using he
      rw [he', if_neg Bool.false_ne_true, Option.or_none]
  · rw [List.lookup_append, List.lookup_cons, BEq.comm]
    cases key == other <;> rfl

/-- In a table that has been filled in this way, every entry is what its key is looked up to. -/
theorem lookup_of_mem_putNew [LawfulBEq κ] {entries : List (κ × α)}
    (h : ∀ e ∈ entries, entries.lookup e.1 = some e.2) {key : κ} {value : α} :
    ∀ e ∈ putNew entries key value, (putNew entries key value).lookup e.1 = some e.2 := by
  intro e he
  rw [lookup_putNew]
  unfold putNew at he
  split at he
  · rw [h e he, Option.some_or]
  · rename_i hnew
    rcases List.mem_append.1 he with he | he
    · rw [h e he, Option.some_or]
    · obtain rfl := List.mem_singleton.1 he
      rw [Option.not_isSome_iff_eq_none.1 hnew, Option.none_or, if_pos (beq_self_eq_true key)]

/-- The keys of such a table are in the order of their first values. -/
theorem map_fst_putNew [LawfulBEq κ] {entries : List (κ × α)} {keys : List κ}
    (h : entries.map (·.1) = keys.eraseDups) (key : κ) (value : α) :
    (putNew entries key value).map (·.1) = (keys ++ [key]).eraseDups := by
  have hknown : (entries.lookup key).isSome = true ↔ key ∈ keys := by
    rw [← List.mem_eraseDups, ← h, ← Option.ne_none_iff_isSome, ne_eq, List.lookup_eq_none_iff]
    simp
  unfold putNew
  rw [List.eraseDups_append]
  by_cases hk : key ∈ keys
  · simp [hknown.2 hk, List.removeAll, hk, h]
  · simp [mt hknown.1 hk, List.removeAll, List.eraseDups_cons, hk, h]

end Tables

/-! ## Texts and numbers -/

namespace Interner

variable {α : Type} {i j : Interner}

/-- Numbers given out by the first interner have the same texts in the second. -/
def Extends (i j : Interner) : Prop :=
  ∀ number text, i.resolve? number = some text → j.resolve? number = some text

theorem extends_intern (i : Interner) (text : String) : i.Extends (i.intern text).2 :=
  fun _ _ h => resolve?_intern_of_eq_some text h

/-- A table by numbers that is one by texts. -/
def Decodes (i : Interner) : List (Nat × α) → List (String × α) → Prop :=
  List.Forall₂ fun e f => i.resolve? e.1 = some f.1 ∧ e.2 = f.2

theorem Decodes.mono {entries : List (Nat × α)} {named : List (String × α)} (h : i.Decodes entries named)
    (hij : i.Extends j) : j.Decodes entries named :=
  List.Forall₂.imp (fun _ _ hef => ⟨hij _ _ hef.1, hef.2⟩) h

/-- What a table has for a number it has for the text. -/
theorem Decodes.lookup_number {entries : List (Nat × α)} {named : List (String × α)} (h : i.Decodes entries named)
    {number : Nat} {text : String} (ht : i.resolve? number = some text) :
    entries.lookup number = named.lookup text := by
  induction h with
  | nil => rfl
  | @cons e f _ _ hef _ ih =>
    obtain ⟨he, hvalue⟩ := hef
    have hsame : (number == e.1) = (text == f.1) := by
      rw [Bool.eq_iff_iff, beq_iff_eq, beq_iff_eq]
      constructor
      · rintro rfl
        exact Option.some.inj (ht.symm.trans he)
      · rintro rfl
        exact Option.some.inj ((get?_eq_some_iff.2 ht).symm.trans (get?_eq_some_iff.2 he))
    rw [List.lookup_cons, List.lookup_cons, hsame, hvalue, ih]

/-- A text that has no number stands in no table. -/
theorem Decodes.lookup {entries : List (Nat × α)} {named : List (String × α)} (h : i.Decodes entries named)
    (text : String) : ((i.get? text).bind fun number => entries.lookup number) = named.lookup text := by
  cases hnumber : i.get? text with
  | some number => exact h.lookup_number (get?_eq_some_iff.1 hnumber)
  | none =>
    induction h with
    | nil => rfl
    | @cons e f _ _ hef _ ih =>
      have hother : (text == f.1) = false := by
        rw [beq_eq_false_iff_ne]
        rintro rfl
        rw [get?_eq_some_iff.2 hef.1] at hnumber
        cases hnumber
      rw [List.lookup_cons, hother]
      exact ih

theorem Decodes.putNew {entries : List (Nat × α)} {named : List (String × α)} (h : i.Decodes entries named)
    {number : Nat} {text : String} (ht : i.resolve? number = some text) (value : α) :
    i.Decodes (putNew entries number value) (putNew named text value) := by
  unfold Exonym.putNew
  rw [h.lookup_number ht]
  split
  · exact h
  · exact List.rel_append h (.cons ⟨ht, rfl⟩ .nil)

/-- A list made from the texts of a table. -/
theorem Decodes.filterMap_resolve? {β : Type} {entries : List (Nat × α)} {named : List (String × α)}
    (h : i.Decodes entries named) (f : String → α → β) :
    (entries.filterMap fun e => (i.resolve? e.1).map fun text => f text e.2) = named.map fun e => f e.1 e.2 := by
  induction h with
  | nil => rfl
  | @cons e f _ _ hef _ ih => simp [hef.1, hef.2, ih]

/-- A table of numbers that is one of texts. -/
def Spells (i : Interner) : List (String × Nat) → List (String × String) → Prop :=
  List.Forall₂ fun e f => e.1 = f.1 ∧ i.resolve? e.2 = some f.2

theorem Spells.mono {entries : List (String × Nat)} {spelled : List (String × String)} (h : i.Spells entries spelled)
    (hij : i.Extends j) : j.Spells entries spelled :=
  List.Forall₂.imp (fun _ _ hef => ⟨hef.1, hij _ _ hef.2⟩) h

theorem Spells.map_lookup {entries : List (String × Nat)} {spelled : List (String × String)}
    (h : i.Spells entries spelled) (key : String) :
    (entries.lookup key).map i.resolve? = (spelled.lookup key).map some := by
  induction h with
  | nil => rfl
  | @cons e f _ _ hef _ ih =>
    rw [List.lookup_cons, List.lookup_cons, hef.1]
    cases key == f.1
    · exact ih
    · exact congrArg some hef.2

theorem Spells.lookup {entries : List (String × Nat)} {spelled : List (String × String)}
    (h : i.Spells entries spelled) (key : String) :
    (entries.lookup key).bind i.resolve? = spelled.lookup key := by
  have hboth := h.map_lookup key
  cases hnumber : entries.lookup key <;> cases htext : spelled.lookup key <;> simp_all

theorem Spells.putNew {entries : List (String × Nat)} {spelled : List (String × String)}
    (h : i.Spells entries spelled) {number : Nat} {text : String} (ht : i.resolve? number = some text) (key : String) :
    i.Spells (putNew entries key number) (putNew spelled key text) := by
  have hknown : (entries.lookup key).isSome = (spelled.lookup key).isSome := by
    simpa using congrArg Option.isSome (h.map_lookup key)
  unfold Exonym.putNew
  rw [hknown]
  split
  · exact h
  · exact List.rel_append h (.cons ⟨rfl, ht⟩ .nil)

end Interner

/-! ## What a scope's decisions amount to -/

namespace Decision

/-- Who has which name: the first to get it. -/
def holders (ds : List Decision) : List (String × Holder) :=
  ds.foldl (fun entries d => putNew entries d.finalName d.holder) []

/-- Which overload group has which name. -/
def groupNames (ds : List Decision) : List (String × String) :=
  ds.foldl (fun entries d => d.group.elim entries fun group => putNew entries group d.finalName) []

theorem holders_append (ds : List Decision) (d : Decision) :
    holders (ds ++ [d]) = putNew (holders ds) d.finalName d.holder := by
  simp [holders]

theorem groupNames_append (ds : List Decision) (d : Decision) :
    groupNames (ds ++ [d]) = d.group.elim (groupNames ds) fun group => putNew (groupNames ds) group d.finalName := by
  simp [groupNames]

theorem lookup_holders (ds : List Decision) (name : String) :
    (holders ds).lookup name = (ds.find? fun d => d.finalName = name).map (·.holder) := by
  induction ds using List.reverseRecOn with
  | nil => rfl
  | append_singleton ds d ih =>
    rw [holders_append, lookup_putNew, ih, List.find?_append, Option.map_or]
    congr 1
    by_cases h : d.finalName = name <;> simp [h]

theorem lookup_groupNames (ds : List Decision) (group : String) :
    (groupNames ds).lookup group = (ds.find? fun d => d.group = some group).map (·.finalName) := by
  induction ds using List.reverseRecOn with
  | nil => rfl
  | append_singleton ds d ih =>
    rw [groupNames_append, List.find?_append, Option.map_or, ← ih]
    cases hgroup : d.group with
    | none => simp [hgroup]
    | some known =>
      rw [Option.elim_some, lookup_putNew]
      congr 1
      by_cases h : known = group <;> simp [hgroup, h]

theorem lookup_of_mem_holders (ds : List Decision) : ∀ e ∈ holders ds, (holders ds).lookup e.1 = some e.2 := by
  induction ds using List.reverseRecOn with
  | nil => simp [holders]
  | append_singleton ds d ih =>
    rw [holders_append]
    exact lookup_of_mem_putNew ih

theorem map_fst_holders (ds : List Decision) :
    (holders ds).map (·.1) = (ds.map (·.finalName)).eraseDups := by
  induction ds using List.reverseRecOn with
  | nil => rfl
  | append_singleton ds d ih =>
    rw [holders_append, List.map_append]
    exact map_fst_putNew ih _ _

end Decision

/-- The suffix of a decision that has one, among those given to `base`. -/
theorem Ledger.suffixGiven?_of_numericSuffix {d : Decision} {n : UInt32} {made : String}
    (hstrategy : d.strategy = .numericSuffix n) (hname : d.finalName = made ++ toString n.toNat) (base : String) :
    suffixGiven? base d = if made = base then some n.toNat else none := by
  unfold suffixGiven?
  rw [hstrategy, hname]
  simp only [String.append_left_inj]

/-- The suffix given last to `base`. -/
def Decision.lastSuffix? (ds : List Decision) (base : String) : Option Nat :=
  (ds.filterMap (Ledger.suffixGiven? base)).getLast?

theorem Decision.lastSuffix?_append (ds : List Decision) (d : Decision) (base : String) :
    lastSuffix? (ds ++ [d]) base = (Ledger.suffixGiven? base d).or (lastSuffix? ds base) := by
  unfold lastSuffix?
  rw [List.filterMap_append, List.getLast?_append]
  cases hgiven : Ledger.suffixGiven? base d <;> simp [hgiven]

namespace Ledger

/-- The listing of a scope has a line for every holder. -/
theorem scopeDump_eq_holders (l : Ledger) (s : Scope) :
    l.scopeDump s = ((Decision.holders (l.decisionsIn s)).map fun e => e.1 ++ " -> " ++ e.2.text).mergeSort
      fun a b => (compare a b).isLE := by
  unfold scopeDump
  simp only [← Decision.map_fst_holders, List.filterMap_map]
  congr 1
  rw [← List.filterMap_eq_map]
  refine List.filterMap_congr fun e he => ?_
  have hholder : l.holder? s e.1 = some e.2 := by
    rw [holder?_eq_find?, ← Decision.lookup_holders, Decision.lookup_of_mem_holders _ e he]
  simp [hholder]

end Ledger

end Exonym
