import Exonym.Ledger.Style

/-!
# Settings for naming

Main statements:

* `Overrides.find?_insert_self`: an override that is put in is the one that is found.
* `Overrides.ofList_entries`: overrides are determined by their list.
-/

namespace Exonym

/-- The list with an entry put in at its place, in place of an earlier entry of the same key. -/
def insertEntry (key value : String) : List (String × String) → List (String × String)
  | [] => [(key, value)]
  | entry :: rest =>
    if key < entry.1 then (key, value) :: entry :: rest
    else if key = entry.1 then (key, value) :: rest
    else entry :: insertEntry key value rest

theorem mem_insertEntry {key value : String} {entries : List (String × String)} {e : String × String}
    (h : e ∈ insertEntry key value entries) : e = (key, value) ∨ e ∈ entries := by
  induction entries with
  | nil => simpa [insertEntry] using h
  | cons entry rest ih =>
    unfold insertEntry at h
    split at h
    · simpa using h
    · split at h
      · rcases List.mem_cons.1 h with h | h <;> simp [h]
      · rcases List.mem_cons.1 h with h | h
        · simp [h]
        · rcases ih h with h | h <;> simp [h]

theorem insertEntry_sorted {key value : String} {entries : List (String × String)}
    (h : entries.Pairwise (·.1 < ·.1)) : (insertEntry key value entries).Pairwise (·.1 < ·.1) := by
  induction entries with
  | nil => simp [insertEntry]
  | cons entry rest ih =>
    have ⟨hhead, hrest⟩ := List.pairwise_cons.1 h
    unfold insertEntry
    split
    · rename_i hlt
      refine List.pairwise_cons.2 ⟨fun e he => ?_, h⟩
      rcases List.mem_cons.1 he with rfl | he
      · exact hlt
      · exact String.lt_trans hlt (hhead e he)
    · split
      · rename_i heq
        exact List.pairwise_cons.2 ⟨fun e he => heq ▸ hhead e he, hrest⟩
      · rename_i hlt hne
        refine List.pairwise_cons.2 ⟨fun e he => ?_, ih hrest⟩
        rcases mem_insertEntry he with rfl | he
        · exact String.not_le.1 fun hle => hne (String.le_antisymm hle (String.not_lt.1 hlt))
        · exact hhead e he

/-- Final names that the user has chosen, by the texts of identities and in their order. -/
structure Overrides where
  entries : List (String × String)
  sorted : entries.Pairwise (·.1 < ·.1)
  deriving Repr

namespace Overrides

def empty : Overrides := ⟨[], .nil⟩

instance : Inhabited Overrides := ⟨empty⟩

def insert (o : Overrides) (key value : String) : Overrides :=
  ⟨insertEntry key value o.entries, insertEntry_sorted o.sorted⟩

/-- The overrides of a list; the last entry for a key is the one that counts. -/
def ofList (entries : List (String × String)) : Overrides :=
  entries.foldl (fun o e => o.insert e.1 e.2) empty

def find? (o : Overrides) (key : String) : Option String :=
  (o.entries.find? (·.1 = key)).map (·.2)

theorem find?_insert_self (o : Overrides) (key value : String) :
    (o.insert key value).find? key = some value := by
  obtain ⟨entries, h⟩ := o
  simp only [find?, insert]
  clear h
  induction entries with
  | nil => simp [insertEntry]
  | cons entry rest ih =>
    unfold insertEntry
    split
    · simp
    · split
      · simp
      · rename_i hne
        rw [List.find?_cons_of_neg (by simpa using Ne.symm hne), ih]

theorem insertEntry_of_all_lt {key value : String} {entries : List (String × String)}
    (h : ∀ e ∈ entries, e.1 < key) : insertEntry key value entries = entries ++ [(key, value)] := by
  induction entries with
  | nil => rfl
  | cons entry rest ih =>
    have hlt := h entry (by simp)
    unfold insertEntry
    rw [if_neg (fun h' => String.lt_irrefl _ (String.lt_trans hlt h')),
      if_neg (fun he => String.lt_irrefl _ (he ▸ hlt)), ih fun e he => h e (by simp [he])]
    rfl

theorem foldl_insert_entries (o : Overrides) (entries : List (String × String))
    (h : (o.entries ++ entries).Pairwise (·.1 < ·.1)) :
    (entries.foldl (fun o e => o.insert e.1 e.2) o).entries = o.entries ++ entries := by
  induction entries generalizing o with
  | nil => simp
  | cons e rest ih =>
    have hlt : ∀ x ∈ o.entries, x.1 < e.1 := fun x hx =>
      (List.pairwise_append.1 h).2.2 x hx e (by simp)
    have he : (o.insert e.1 e.2).entries = o.entries ++ [e] := insertEntry_of_all_lt hlt
    rw [List.foldl_cons, ih _ (by rw [he]; simpa using h), he]
    simp

theorem ofList_entries (o : Overrides) : ofList o.entries = o := by
  obtain ⟨entries, h⟩ := o
  have := foldl_insert_entries empty entries (by simpa [empty] using h)
  unfold ofList
  generalize List.foldl _ _ _ = r at this ⊢
  cases r
  simpa [empty] using this

end Overrides

/-- How requested names become final ones. -/
structure NameSettings where
  memberStyle : NameStyle
  typeStyle : NameStyle
  overrides : Overrides
  /-- Words reserved besides those of the target language. -/
  extraReservedWords : List String
  /-- How many numeric suffixes are tried for one name. -/
  maxSuffixAttempts : UInt32
  deriving Repr

def NameSettings.default : NameSettings :=
  ⟨.preserve, .preserve, .empty, [], 10000⟩

instance : Inhabited NameSettings := ⟨.default⟩

end Exonym
