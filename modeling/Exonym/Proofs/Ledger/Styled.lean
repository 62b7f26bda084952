import Exonym.Ledger.Style
import Mathlib.Data.List.Basic

/-!
# Names in a style

Camel case lowers the run of capitals at the front of a name. If a small letter follows two capitals or more, the last of
them starts the next word and is kept. To see what follows, the character behind the run is looked up by its place, which
is inside the name because a run that is the whole name is settled before.

Main statements:

* `NameStyle.loweredCount?_eq`, `NameStyle.camel?_eq`: every character that is looked up is there.
* `NameStyle.loweredCount_append`: how many capitals are lowered.
* `NameStyle.camelCased_camel`, `NameStyle.pascalCased_pascal`: what becomes of an ASCII name.
* `NameStyle.styles_of_ascii`: both, and that no style changes a name twice.
-/

namespace Exonym

namespace CharClass

/-- ASCII characters can be gone through one by one. -/
theorem forall_ascii {p : Char → Prop} (h : ∀ n < 128, p (Char.ofNat n)) {c : Char} (hc : c.toNat < 128) : p c := by
  rw [← Char.ofNat_toNat c]
  exact h _ hc

theorem isUppercase_toLower {c : Char} (hc : c.toNat < 128) : isUppercase c.toLower = false :=
  forall_ascii (p := fun c => isUppercase c.toLower = false) (by decide +kernel) hc

theorem isLowercase_toUpper {c : Char} (hc : c.toNat < 128) : isLowercase c.toUpper = false :=
  forall_ascii (p := fun c => isLowercase c.toUpper = false) (by decide +kernel) hc

theorem toUpper_toUpper {c : Char} (hc : c.toNat < 128) : c.toUpper.toUpper = c.toUpper :=
  forall_ascii (p := fun c => c.toUpper.toUpper = c.toUpper) (by decide +kernel) hc

theorem toNat_toUpper_lt {c : Char} (hc : c.toNat < 128) : c.toUpper.toNat < 128 :=
  forall_ascii (p := fun c => c.toUpper.toNat < 128) (by decide +kernel) hc

theorem isUppercase_of_isLowercase {c : Char} (hc : c.toNat < 128) (h : isLowercase c = true) :
    isUppercase c = false :=
  forall_ascii (p := fun c => isLowercase c = true → isUppercase c = false) (by decide +kernel) hc h

end CharClass

namespace NameStyle

open CharClass CaseMap

/-! ## The run of capitals -/

/-- The text starts with no capital. -/
def NoCapital (text : List Char) : Prop :=
  ∀ c ∈ text.head?, isUppercase c = false

variable {run rest name : List Char}

/-- A name is a run of capitals and what follows it. -/
theorem exists_run (name : List Char) :
    ∃ run rest, name = run ++ rest ∧ (∀ c ∈ run, isUppercase c = true) ∧ NoCapital rest := by
  refine ⟨name.takeWhile isUppercase, name.dropWhile isUppercase, List.takeWhile_append_dropWhile.symm,
    fun c hc => List.all_eq_true.1 List.all_takeWhile c hc, fun c hc => ?_⟩
  have h := List.head?_dropWhile_not isUppercase name
  rwa [Option.mem_def.1 hc] at h

theorem takeWhile_run (hrun : ∀ c ∈ run, isUppercase c = true) (hrest : NoCapital rest) :
    (run ++ rest).takeWhile isUppercase = run := by
  rw [List.takeWhile_append_of_pos hrun]
  cases rest with
  | nil => rw [List.takeWhile_nil, List.append_nil]
  | cons next rest => rw [List.takeWhile_cons_of_neg (by simp [hrest next rfl]), List.append_nil]

theorem dropWhile_run (hrun : ∀ c ∈ run, isUppercase c = true) (hrest : NoCapital rest) :
    (run ++ rest).dropWhile isUppercase = rest := by
  rw [List.dropWhile_append_of_pos hrun]
  cases rest with
  | nil => rfl
  | cons next rest => rw [List.dropWhile_cons_of_neg (by simp [hrest next rfl])]

/-- The whole run is lowered, but of two capitals or more the last is kept when a small letter follows. -/
theorem loweredCount_append (hrun : ∀ c ∈ run, isUppercase c = true) (hrest : NoCapital rest) :
    loweredCount (run ++ rest) =
      if 2 ≤ run.length ∧ rest.head?.any isLowercase = true then run.length - 1 else run.length := by
  unfold loweredCount
  rw [takeWhile_run hrun hrest, dropWhile_run hrun hrest]
  split
  · simp [*]
  · simp [*]
  · simp
  · rename_i hzero hone
    have hlong : 2 ≤ run.length := Nat.lt_of_le_of_ne (Nat.pos_of_ne_zero hzero) fun h => hone h.symm
    simp [hlong]

theorem loweredCount_le (hrun : ∀ c ∈ run, isUppercase c = true) (hrest : NoCapital rest) :
    loweredCount (run ++ rest) ≤ run.length := by
  rw [loweredCount_append hrun hrest]
  split <;> omega

theorem loweredCount_pos (hrun : ∀ c ∈ run, isUppercase c = true) (hrest : NoCapital rest) (hne : run ≠ []) :
    0 < loweredCount (run ++ rest) := by
  have hlength := List.length_pos_iff.2 hne
  rw [loweredCount_append hrun hrest]
  split <;> omega

/-! ## Looking characters up -/

/-- How many capitals are lowered, with the character behind the run looked up by its place; none if there is no such
place. -/
def loweredCount? (name : List Char) : Option Nat :=
  let run := (name.takeWhile isUppercase).length
  if run = 0 then some 0
  else if run = name.length then some run
  else if run = 1 then some 1
  else name[run]?.map fun next => if isLowercase next then run - 1 else run

/-- Camel case, character by character: those whose place is among the first are lowered. -/
def camel? (name : List Char) : Option (List Char) :=
  (loweredCount? name).map fun lowered =>
    name.zipIdx.flatMap fun (c, i) => if i < lowered then toLowercase c else [c]

/-- A run that is not the whole name has a character behind it. -/
theorem loweredCount?_eq (name : List Char) : loweredCount? name = some (loweredCount name) := by
  obtain ⟨run, rest, rfl, hrun, hrest⟩ := exists_run name
  rw [loweredCount_append hrun hrest, loweredCount?, takeWhile_run hrun hrest]
  cases rest with
  | nil => simp +contextual [eq_comm]
  | cons next rest =>
    have hlength : run.length ≠ (run ++ next :: rest).length := by simp
    have hnext : (run ++ next :: rest)[run.length]? = some next := by simp
    simp only [hlength, hnext, if_false, Option.map_some, List.head?_cons, Option.any_some]
    grind

theorem flatMap_zipIdx (f : Char → List Char) (lowered : Nat) (name : List Char) (first : Nat) :
    ((name.zipIdx first).flatMap fun (c, i) => if i < lowered then f c else [c]) =
      (name.take (lowered - first)).flatMap f ++ name.drop (lowered - first) := by
  induction name generalizing first with
  | nil => simp
  | cons c rest ih =>
    rw [List.zipIdx_cons, List.flatMap_cons, ih]
    rcases Nat.lt_or_ge first lowered with hlt | hge
    · have hsub : lowered - first = (lowered - (first + 1)) + 1 := by omega
      simp [hlt, hsub]
    · have hzero : lowered - first = 0 := by omega
      have hnext : lowered - (first + 1) = 0 := by omega
      simp [hzero, hnext, Nat.not_lt.2 hge]

theorem camel?_eq (name : List Char) : camel? name = some (camel name) := by
  rw [camel?, loweredCount?_eq, Option.map_some, flatMap_zipIdx]
  rfl

/-! ## Names in ASCII -/

/-- What camel case does to an ASCII name. -/
structure CamelCased (name styled : List Char) : Prop where
  length_eq : styled.length = name.length
  /-- Nothing is changed but the front of the run of capitals. -/
  lowered : ∃ front rest, name = front ++ rest ∧ front <+: name.takeWhile isUppercase ∧
    styled = front.map Char.toLower ++ rest
  noCapital : NoCapital styled
  /-- The last of two capitals or more is kept when a small letter follows. -/
  keepsLast : ∀ run last next rest, name = run ++ last :: next :: rest → run ≠ [] →
    (∀ c ∈ run, isUppercase c = true) → isUppercase last = true → isLowercase next = true →
    styled = run.map Char.toLower ++ last :: next :: rest
  /-- In every other case the whole run is lowered. -/
  lowersAll : ∀ run rest, name = run ++ rest → (∀ c ∈ run, isUppercase c = true) → NoCapital rest →
    (2 ≤ run.length → ∀ next ∈ rest.head?, isLowercase next = false) →
    styled = run.map Char.toLower ++ rest

/-- What pascal case does to an ASCII name. -/
structure PascalCased (name styled : List Char) : Prop where
  length_eq : styled.length = name.length
  tail_eq : styled.tail = name.tail
  noSmallLetter : ∀ c ∈ styled.head?, isLowercase c = false

theorem camel_of_noCapital (h : NoCapital name) : camel name = name := by
  cases name with
  | nil => rfl
  | cons c rest => exact camel_of_not_isUppercase (h c rfl)

/-- ASCII characters are lowered one for one. -/
theorem camel_of_ascii (h : ∀ c ∈ name, c.toNat < 128) :
    camel name = (name.take (loweredCount name)).map Char.toLower ++ name.drop (loweredCount name) := by
  rw [camel, List.map_eq_flatMap]
  congr 1
  exact List.flatMap_congr fun c hc => toLowercase_ascii (h c (List.mem_of_mem_take hc))

theorem noCapital_camel (h : ∀ c ∈ name, c.toNat < 128) : NoCapital (camel name) := by
  obtain ⟨run, rest, rfl, hrun, hrest⟩ := exists_run name
  cases run with
  | nil => rwa [List.nil_append, camel_of_noCapital hrest]
  | cons first run =>
    have hpos := loweredCount_pos hrun hrest (List.cons_ne_nil _ _)
    obtain ⟨n, hn⟩ := Nat.exists_eq_add_of_lt hpos
    rw [camel_of_ascii h, hn]
    rintro c hc
    obtain rfl : first.toLower = c := by simpa using hc
    exact isUppercase_toLower (h first List.mem_cons_self)

/-- The front that is lowered, where its length is known. -/
theorem camel_of_loweredCount {front : List Char} (h : ∀ c ∈ front ++ rest, c.toNat < 128)
    (hcount : loweredCount (front ++ rest) = front.length) : camel (front ++ rest) = front.map Char.toLower ++ rest := by
  rw [camel_of_ascii h, hcount, List.take_left, List.drop_left]

/-- The whole run is lowered unless it has two capitals or more and a small letter follows. -/
theorem camel_run (hrun : ∀ c ∈ run, isUppercase c = true) (hrest : NoCapital rest)
    (h : ∀ c ∈ run ++ rest, c.toNat < 128)
    (hsmall : 2 ≤ run.length → ∀ next ∈ rest.head?, isLowercase next = false) :
    camel (run ++ rest) = run.map Char.toLower ++ rest := by
  refine camel_of_loweredCount h ?_
  rw [loweredCount_append hrun hrest]
  refine if_neg ?_
  rintro ⟨hlong, hany⟩
  obtain ⟨next, hhead, hlower⟩ := (Option.any_eq_true _ _).1 hany
  simp [hsmall hlong next hhead] at hlower

/-- The last capital of a run is kept when it is not the only one and a small letter follows. -/
theorem camel_run_concat {last next : Char} (hne : run ≠ []) (hrun : ∀ c ∈ run, isUppercase c = true)
    (hlast : isUppercase last = true) (hnext : isLowercase next = true)
    (h : ∀ c ∈ run ++ last :: next :: rest, c.toNat < 128) :
    camel (run ++ last :: next :: rest) = run.map Char.toLower ++ last :: next :: rest := by
  have hcapitals : ∀ c ∈ run ++ [last], isUppercase c = true := by
    simpa [or_imp, forall_and] using ⟨hrun, hlast⟩
  have hfollows : NoCapital (next :: rest) := by
    rintro c ⟨⟩
    exact isUppercase_of_isLowercase (h next (by simp)) hnext
  have hsplit : run ++ last :: next :: rest = (run ++ [last]) ++ next :: rest := by simp
  have hkept : 2 ≤ (run ++ [last]).length ∧ (next :: rest).head?.any isLowercase = true := by
    simpa [hnext] using Nat.succ_le_iff.2 (List.length_pos_iff.2 hne)
  refine camel_of_loweredCount h ?_
  rw [hsplit, loweredCount_append hcapitals hfollows, if_pos hkept]
  simp

theorem camelCased_camel (h : ∀ c ∈ name, c.toNat < 128) : CamelCased name (camel name) where
  length_eq := by
    rw [camel_of_ascii h, List.length_append, List.length_map, ← List.length_append, List.take_append_drop]
  lowered := by
    refine ⟨_, _, (List.take_append_drop (loweredCount name) name).symm, ?_, camel_of_ascii h⟩
    obtain ⟨run, rest, rfl, hrun, hrest⟩ := exists_run name
    rw [takeWhile_run hrun hrest, List.take_append_of_le_length (loweredCount_le hrun hrest)]
    exact List.take_prefix _ _
  noCapital := noCapital_camel h
  keepsLast := by
    rintro run last next rest rfl hne hrun hlast hnext
    exact camel_run_concat hne hrun hlast hnext h
  lowersAll := by
    rintro run rest rfl hrun hrest hsmall
    exact camel_run hrun hrest h hsmall

theorem pascal_of_ascii {first : Char} (h : first.toNat < 128) (rest : List Char) :
    pascal (first :: rest) = first.toUpper :: rest := by
  rw [pascal, toUppercase_ascii h, List.singleton_append]

theorem pascalCased_pascal (h : ∀ c ∈ name, c.toNat < 128) : PascalCased name (pascal name) := by
  cases name with
  | nil => exact ⟨rfl, rfl, by simp [pascal]⟩
  | cons first rest =>
    have hfirst := h first List.mem_cons_self
    rw [pascal_of_ascii hfirst]
    refine ⟨rfl, rfl, ?_⟩
    rintro c ⟨⟩
    exact isLowercase_toUpper hfirst

theorem pascal_pascal (h : ∀ c ∈ name, c.toNat < 128) : pascal (pascal name) = pascal name := by
  cases name with
  | nil => rfl
  | cons first rest =>
    have hfirst := h first List.mem_cons_self
    rw [pascal_of_ascii hfirst, pascal_of_ascii (toNat_toUpper_lt hfirst), toUpper_toUpper hfirst]

theorem apply_apply (style : NameStyle) {name : String} (h : ∀ c ∈ name.toList, c.toNat < 128) :
    style.apply (style.apply name) = style.apply name := by
  cases style with
  | preserve => rfl
  | camelCase =>
    simp only [apply, String.toList_ofList]
    rw [camel_of_noCapital (noCapital_camel h)]
  | pascalCase =>
    simp only [apply, String.toList_ofList]
    rw [pascal_pascal h]

/-- For an ASCII name: camel case finds every character that it looks up, and lowers the front of the run of capitals and
nothing else, so that no capital is left at the front; of two capitals or more it keeps the last when a small letter
follows. Pascal case changes the first character at most. In no style is a name changed a second time. -/
theorem styles_of_ascii (name : String) (h : ∀ c ∈ name.toList, c.toNat < 128) :
    camel? name.toList = some (camelCase.apply name).toList ∧
    CamelCased name.toList (camelCase.apply name).toList ∧
    PascalCased name.toList (pascalCase.apply name).toList ∧
    ∀ style : NameStyle, style.apply (style.apply name) = style.apply name := by
  have hcamel : (camelCase.apply name).toList = camel name.toList := String.toList_ofList
  have hpascal : (pascalCase.apply name).toList = pascal name.toList := String.toList_ofList
  rw [hcamel, hpascal]
  exact ⟨camel?_eq _, camelCased_camel h, pascalCased_pascal h, fun style => style.apply_apply h⟩

/-- `IOStream` becomes `ioStream`: three capitals with a small letter behind them, of which the last is kept. -/
theorem styles_of_ascii_ioStream :
    (∀ c ∈ "IOStream".toList, c.toNat < 128) ∧ camel? "IOStream".toList = some "ioStream".toList ∧
      CamelCased "IOStream".toList "ioStream".toList ∧
      "ioStream".toList = ['I', 'O'].map Char.toLower ++ 'S' :: 't' :: "ream".toList ∧
      PascalCased "IOStream".toList "IOStream".toList ∧ camelCase.apply "ioStream" = "ioStream" := by
  have hascii : ∀ c ∈ "IOStream".toList, c.toNat < 128 := by simp
  have hcamel : camelCase.apply "IOStream" = "ioStream" := by decide +kernel
  have hpascal : pascalCase.apply "IOStream" = "IOStream" := by decide +kernel
  obtain ⟨hfound, hcased, hpascalCased, htwice⟩ := styles_of_ascii "IOStream" hascii
  rw [hcamel] at hfound hcased
  rw [hpascal] at hpascalCased
  have hkept := hcased.keepsLast ['I', 'O'] 'S' 't' "ream".toList (by decide +kernel) (by decide) (by simp [isUppercase])
    (by decide) (by decide)
  exact ⟨hascii, hfound, hcased, hkept, hpascalCased, hcamel ▸ htwice .camelCase⟩

end NameStyle

end Exonym
