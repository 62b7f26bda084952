import Exonym.Json.Reading
import Mathlib.Data.List.DropRight
import Mathlib.Data.List.TakeDrop
import Mathlib.Data.List.TakeWhile

/-!
# Readers of JSON text

What a reader takes from a text is told by what its parts take. An array or an object is taken as a run of items, each
from where the one before it ended; whoever reads the run gets to see these items and no others. The loose reader, which
only passes over a value, takes from the text what the strict one does.

Main statements:

* `Scan.tree_cases`: a value is a scalar, a run of items in brackets or a run of entries in braces.
* `Scan.tree_of_plain`, `Scan.tree_of_items`, `Scan.tree_of_entries`: each of these is read as a value.
* `Scan.items_eq_ok_iff`, `Scan.Run.entries_eq_ok`: a container is read by reading its run.
* `Scan.skip_of_tree`: a value that can be read can be passed over.
-/

namespace Exonym

namespace Scan

variable {α β σ : Type} {s s' rest : List Char}

/-! ## One step after the other -/

theorem bind_eq_ok_iff {m : Scan α} {f : α → Scan β} {b : β} :
    (m >>= f) s = .ok (b, rest) ↔ ∃ a s', m s = .ok (a, s') ∧ f a s' = .ok (b, rest) := by
  simp only [bind, StateT.bind, Except.bind]
  cases m s with
  | error p => simp
  | ok r => exact ⟨fun h => ⟨_, _, rfl, h⟩, fun ⟨_, _, hr, h⟩ => by cases hr; exact h⟩

theorem bind_of_ok {m : Scan α} {f : α → Scan β} {a : α} (h : m s = .ok (a, s')) : (m >>= f) s = f a s' := by
  simp only [bind, StateT.bind, Except.bind, h]

@[simp] theorem pure_eq_ok_iff {a b : α} : (pure a : Scan α) s = .ok (b, rest) ↔ a = b ∧ s = rest :=
  ⟨fun h => by cases h; exact ⟨rfl, rfl⟩, fun ⟨ha, hs⟩ => by cases ha; cases hs; rfl⟩

@[simp] theorem throw_ne_ok {p : Problem} {r : α × List Char} : (throw p : Scan α) s ≠ .ok r := by
  rintro ⟨⟩

/-! ## Blanks -/

/-- Blanks in front make no difference to what is read. -/
def PassesBlanks (m : Scan α) : Prop :=
  ∀ s, m (s.dropWhile isBlank) = m s

theorem PassesBlanks.bind {m : Scan α} (h : PassesBlanks m) (f : α → Scan β) : PassesBlanks (m >>= f) := fun s => by
  simp only [Bind.bind, StateT.bind, h s]

theorem PassesBlanks.append {m : Scan α} (h : PassesBlanks m) {blanks : List Char} (hblanks : ∀ c ∈ blanks, isBlank c = true)
    (s : List Char) : m (blanks ++ s) = m s := by
  rw [← h (blanks ++ s), List.dropWhile_append_of_pos hblanks, h s]

theorem peek_passesBlanks : PassesBlanks peek := by
  have hpeek : PassesBlanks peek? := fun s => by simp only [peek?, List.dropWhile_idempotent]
  exact hpeek.bind _

theorem text_passesBlanks : PassesBlanks text := by
  have htake : PassesBlanks (take '"') := peek_passesBlanks.bind _
  exact htake.bind _

theorem scalar_passesBlanks : PassesBlanks scalar :=
  peek_passesBlanks.bind _

theorem skipScalar_passesBlanks : PassesBlanks skipScalar :=
  peek_passesBlanks.bind _

theorem tree_passesBlanks (bound : Nat) : ∀ depth, PassesBlanks (tree bound depth)
  | 0 => scalar_passesBlanks
  | _ + 1 => peek_passesBlanks.bind _

theorem peek_cons_iff {c : Char} :
    peek s = .ok (c, s') ↔ ∃ tail, s' = c :: tail ∧ s.dropWhile isBlank = c :: tail := by
  rw [peek_eq_ok_iff]
  constructor
  · rintro ⟨rfl, h⟩
    obtain ⟨tail, htail⟩ := List.head?_eq_some_iff.1 h
    exact ⟨tail, htail, htail⟩
  · rintro ⟨tail, rfl, h⟩
    exact ⟨h, rfl⟩

theorem peek_of_dropWhile {c : Char} {tail : List Char} (h : s.dropWhile isBlank = c :: tail) :
    peek s = .ok (c, c :: tail) :=
  peek_cons_iff.2 ⟨tail, rfl, h⟩

/-- What blanks were taken from starts with none. -/
theorem dropWhile_cons {c : Char} {tail : List Char} (h : s.dropWhile isBlank = c :: tail) :
    (c :: tail).dropWhile isBlank = c :: tail := by
  rw [← h, List.dropWhile_idempotent]

theorem advance_of_dropWhile {c : Char} {tail : List Char} (h : s.dropWhile isBlank = c :: tail) :
    advance s = .ok ((), tail) := by
  rw [advance, h]
  rfl

theorem take_eq_ok_iff {c : Char} {u : Unit} : take c s = .ok (u, rest) ↔ s.dropWhile isBlank = c :: rest := by
  rw [take, bind_eq_ok_iff]
  constructor
  · rintro ⟨d, s', hpeek, h⟩
    obtain ⟨tail, rfl, hs⟩ := peek_cons_iff.1 hpeek
    split at h
    · rename_i hd
      rw [advance_of_dropWhile (dropWhile_cons hs)] at h
      cases h
      rw [hs, hd]
    · cases h
  · intro h
    refine ⟨c, c :: rest, peek_of_dropWhile h, ?_⟩
    rw [if_pos rfl, advance_of_dropWhile (dropWhile_cons h)]

theorem take_of_dropWhile {c : Char} (h : s.dropWhile isBlank = c :: rest) : take c s = .ok ((), rest) :=
  take_eq_ok_iff.2 h

theorem length_lt_of_dropWhile {c : Char} {tail : List Char} (h : s.dropWhile isBlank = c :: tail) :
    tail.length < s.length := by
  have hle := List.length_dropWhile_le isBlank s
  rw [h, List.length_cons] at hle
  omega

/-! ## Texts and words -/

theorem length_lt_of_textFrom {paired : Bool} {high : Option Nat} {read : List Char} {x : String}
    (h : textFrom paired high read s = .ok (x, rest)) : rest.length < s.length := by
  fun_induction textFrom paired high read s <;> try cases h
  all_goals
    simp only [List.length_cons]
    grind

/-- What is read as a text can be passed over. -/
theorem textFrom_loose {high : Option Nat} {read : List Char} {x : String}
    (h : textFrom true high read s = .ok (x, rest)) (read' : List Char) :
    ∃ y, textFrom false none read' s = .ok (y, rest) := by
  -- the loose reader holds no half of a pair back, so it starts every round with none
  fun_induction textFrom true high read s generalizing read' <;> try cases h
  case case16 hquote hcontrol hbackslash ih =>
    rw [textFrom.eq_def]
    simp [hquote, hcontrol, hbackslash, ih h]
  all_goals
    rw [textFrom.eq_def]
    simp_all

theorem text_eq_ok_iff {x : String} :
    text s = .ok (x, rest) ↔ ∃ tail, s.dropWhile isBlank = '"' :: tail ∧ textFrom true none [] tail = .ok (x, rest) := by
  simp only [text, bind_eq_ok_iff, take_eq_ok_iff]
  exact ⟨fun ⟨_, h⟩ => h, fun h => ⟨(), h⟩⟩

theorem length_lt_of_text {x : String} (h : text s = .ok (x, rest)) : rest.length < s.length := by
  obtain ⟨tail, hs, h⟩ := text_eq_ok_iff.1 h
  exact (length_lt_of_textFrom h).trans (length_lt_of_dropWhile hs)

theorem discard_of_ok {m : Scan α} {a : α} (h : m s = .ok (a, rest)) : (discard m : Scan Unit) s = .ok ((), rest) := by
  simp only [discard, Functor.mapConst, Function.comp, StateT.map, bind, Except.bind, h]
  rfl

theorem skipText_of_text {x : String} (h : text s = .ok (x, rest)) : skipText s = .ok ((), rest) := by
  obtain ⟨tail, hs, h⟩ := text_eq_ok_iff.1 h
  obtain ⟨y, hy⟩ := textFrom_loose h []
  rw [skipText, bind_of_ok (take_of_dropWhile hs)]
  exact discard_of_ok hy

theorem length_lt_of_word {w : String} {u : Unit} (hw : 0 < w.toList.length) (h : word w s = .ok (u, rest)) :
    rest.length < s.length := by
  simp only [word] at h
  split at h
  · rename_i hfront
    cases h
    have hle := (List.isPrefixOf_iff_prefix.1 hfront).length_le
    have hblanks := List.length_dropWhile_le isBlank s
    rw [List.length_drop]
    omega
  · split at h <;> cases h

/-! ## Numbers -/

theorem exists_of_map_eq_ok {f : α → β} {x : Except Problem α} {b : β} (h : x.map f = .ok b) :
    ∃ a, x = .ok a ∧ f a = b := by
  cases x with
  | error p => cases h
  | ok a => exact ⟨a, rfl, Except.ok.inj h⟩

theorem length_lt_of_someDigits {digits : List Char} (h : Numeral.someDigits s = .ok (digits, rest)) :
    rest.length < s.length := by
  have hlength := congrArg List.length (List.takeWhile_append_dropWhile (p := Char.isDigit) (l := s))
  rw [List.length_append] at hlength
  rw [Numeral.someDigits, List.span_eq_takeWhile_dropWhile] at h
  split at h
  · cases h
  · cases h
  · rename_i hnil hsome
    cases h
    have hpos : 0 < (s.takeWhile Char.isDigit).length := List.length_pos_iff.2 fun heq => hsome _ (by rw [heq])
    omega

theorem length_lt_of_wholePart {digits : List Char} (h : Numeral.wholePart s = .ok (digits, rest)) :
    rest.length < s.length := by
  simp only [Numeral.wholePart, bind, Except.bind] at h
  split at h
  · cases h
  · rename_i parts hparts
    split at h
    · cases h
    · cases h
      exact length_lt_of_someDigits hparts

theorem length_le_of_fractionPart {o : Option (List Char)} (h : Numeral.fractionPart s = .ok (o, rest)) :
    rest.length ≤ s.length := by
  simp only [Numeral.fractionPart] at h
  split at h
  · obtain ⟨⟨digits, tail⟩, hdigits, heq⟩ := exists_of_map_eq_ok h
    cases heq
    have := length_lt_of_someDigits hdigits
    grind
  · cases h
    exact le_rfl

theorem length_lt_of_signedExponent {e : Int} (h : Numeral.signedExponent s = .ok (e, rest)) :
    rest.length < s.length := by
  simp only [Numeral.signedExponent] at h
  split at h
  all_goals
    obtain ⟨⟨digits, tail⟩, hdigits, heq⟩ := exists_of_map_eq_ok h
    cases heq
    have := length_lt_of_someDigits hdigits
    grind

theorem length_le_of_exponentPart {o : Option Int} (h : Numeral.exponentPart s = .ok (o, rest)) :
    rest.length ≤ s.length := by
  simp only [Numeral.exponentPart] at h
  split at h
  case h_3 =>
    cases h
    exact le_rfl
  all_goals
    obtain ⟨⟨e, tail⟩, hexponent, heq⟩ := exists_of_map_eq_ok h
    cases heq
    have := length_lt_of_signedExponent hexponent
    grind

theorem length_lt_of_scan {n : Numeral} (h : Numeral.scan s = .ok (n, rest)) : rest.length < s.length := by
  unfold Numeral.scan at h
  split at h
  rename_i negative unsigned hsign
  have hunsigned : unsigned.length ≤ s.length := by
    split at hsign <;> cases hsign <;> simp
  simp only [bind, Except.bind] at h
  split at h
  · cases h
  · rename_i hwhole
    split at h
    · cases h
    · rename_i hfraction
      split at h
      · cases h
      · rename_i hexponent
        cases h
        have := length_lt_of_wholePart hwhole
        have := length_le_of_fractionPart hfraction
        have := length_le_of_exponentPart hexponent
        omega

/-! ## Values that are no containers -/

/-- The ways in which a value that is no container is read, by what it starts with. -/
inductive Plain (s rest : List Char) : Tree → Prop
  | text {tail : List Char} {x : String} (start : s.dropWhile isBlank = '"' :: tail)
    (h : Scan.text ('"' :: tail) = .ok (x, rest)) : Plain s rest (.text x)
  | null {tail : List Char} (start : s.dropWhile isBlank = 'n' :: tail)
    (h : word "null" ('n' :: tail) = .ok ((), rest)) : Plain s rest .null
  | yes {tail : List Char} (start : s.dropWhile isBlank = 't' :: tail)
    (h : word "true" ('t' :: tail) = .ok ((), rest)) : Plain s rest (.bool true)
  | no {tail : List Char} (start : s.dropWhile isBlank = 'f' :: tail)
    (h : word "false" ('f' :: tail) = .ok ((), rest)) : Plain s rest (.bool false)
  | number {c : Char} {tail : List Char} {n : Numeral} {t : Tree} (start : s.dropWhile isBlank = c :: tail)
    (hc : c = '-' || c.isDigit) (h : Numeral.scan (c :: tail) = .ok (n, rest)) (value : n.value? = some t) :
    Plain s rest t

theorem value?_cases {n : Numeral} {t : Tree} (h : n.value? = some t) : (∃ k, t = .int k) ∨ t = .real := by
  simp only [Numeral.value?] at h
  split at h
  · exact .inl ⟨_, (Option.some.inj h).symm⟩
  · split at h
    · exact .inl ⟨_, (Option.some.inj h).symm⟩
    · split at h
      · cases h
      · exact .inr (Option.some.inj h).symm

theorem plain_of_scalar {t : Tree} (h : scalar s = .ok (t, rest)) : Plain s rest t := by
  rw [scalar, bind_eq_ok_iff] at h
  obtain ⟨c, s', hpeek, h⟩ := h
  obtain ⟨tail, rfl, start⟩ := peek_cons_iff.1 hpeek
  split at h
  · obtain ⟨x, s', htext, h⟩ := bind_eq_ok_iff.1 h
    cases h
    exact .text start htext
  · obtain ⟨u, s', hword, h⟩ := bind_eq_ok_iff.1 h
    cases h
    exact .null start hword
  · obtain ⟨u, s', hword, h⟩ := bind_eq_ok_iff.1 h
    cases h
    exact .yes start hword
  · obtain ⟨u, s', hword, h⟩ := bind_eq_ok_iff.1 h
    cases h
    exact .no start hword
  · split at h
    · rename_i hc
      obtain ⟨n, s', hnumeral, h⟩ := bind_eq_ok_iff.1 h
      rw [numeral, dropWhile_cons start] at hnumeral
      cases hvalue : n.value? with
      | none => rw [hvalue] at h; cases h
      | some t =>
        rw [hvalue] at h
        cases h
        exact .number start hc hnumeral hvalue
    · cases h

namespace Plain

variable {t : Tree}

theorem length_lt (h : Plain s rest t) : rest.length < s.length := by
  cases h with
  | text start h => exact (length_lt_of_text h).trans_le (length_lt_of_dropWhile start)
  | null start h => exact (length_lt_of_word (by decide) h).trans_le (length_lt_of_dropWhile start)
  | yes start h => exact (length_lt_of_word (by decide) h).trans_le (length_lt_of_dropWhile start)
  | no start h => exact (length_lt_of_word (by decide) h).trans_le (length_lt_of_dropWhile start)
  | number start hc h value => exact (length_lt_of_scan h).trans_le (length_lt_of_dropWhile start)

theorem of_blanks (h : Plain s rest t) : Plain (s.dropWhile isBlank) rest t := by
  cases h with
  | text start h => exact .text (by rw [List.dropWhile_idempotent, start]) h
  | null start h => exact .null (by rw [List.dropWhile_idempotent, start]) h
  | yes start h => exact .yes (by rw [List.dropWhile_idempotent, start]) h
  | no start h => exact .no (by rw [List.dropWhile_idempotent, start]) h
  | number start hc h value => exact .number (by rw [List.dropWhile_idempotent, start]) hc h value

theorem word_of_null (h : Plain s rest .null) :
    ∃ tail, s.dropWhile isBlank = 'n' :: tail ∧ word "null" ('n' :: tail) = .ok ((), rest) := by
  generalize ht : Tree.null = t at h
  cases h with
  | null start h => exact ⟨_, start, h⟩
  | number start hc h value =>
    subst ht
    obtain ⟨k, hk⟩ | hk := value?_cases value <;> cases hk
  | text | yes | no => cases ht

/-- No container starts like this. -/
theorem peek_eq_ok (h : Plain s rest t) :
    ∃ c tail, s.dropWhile isBlank = c :: tail ∧ Bracket.ofOpening? c = none := by
  cases h with
  | text start h => exact ⟨_, _, start, rfl⟩
  | null start h => exact ⟨_, _, start, rfl⟩
  | yes start h => exact ⟨_, _, start, rfl⟩
  | no start h => exact ⟨_, _, start, rfl⟩
  | number start hc h value =>
    refine ⟨_, _, start, ?_⟩
    unfold Bracket.ofOpening?
    split <;> simp_all

theorem scalar_eq_ok (h : Plain s rest t) : scalar s = .ok (t, rest) := by
  cases h with
  | text start h => exact (bind_of_ok (peek_of_dropWhile start)).trans (bind_of_ok h)
  | null start h => exact (bind_of_ok (peek_of_dropWhile start)).trans (bind_of_ok h)
  | yes start h => exact (bind_of_ok (peek_of_dropWhile start)).trans (bind_of_ok h)
  | no start h => exact (bind_of_ok (peek_of_dropWhile start)).trans (bind_of_ok h)
  | @number c tail n t start hc h value =>
    have hnumeral : numeral (c :: tail) = .ok (n, rest) := by rw [numeral, dropWhile_cons start, h]
    rw [scalar, bind_of_ok (peek_of_dropWhile start)]
    split
    · simp at hc
    · simp at hc
    · simp at hc
    · simp at hc
    · rw [if_pos hc, bind_of_ok hnumeral, value]
      rfl

/-- What is read can be passed over. -/
theorem skipScalar_eq_ok (h : Plain s rest t) : skipScalar s = .ok ((), rest) := by
  cases h with
  | text start h =>
    rw [skipScalar, bind_of_ok (peek_of_dropWhile start)]
    exact skipText_of_text h
  | null start h =>
    rw [skipScalar, bind_of_ok (peek_of_dropWhile start)]
    exact h
  | yes start h =>
    rw [skipScalar, bind_of_ok (peek_of_dropWhile start)]
    exact h
  | no start h =>
    rw [skipScalar, bind_of_ok (peek_of_dropWhile start)]
    exact h
  | @number c tail n t start hc h value =>
    rw [skipScalar, bind_of_ok (peek_of_dropWhile start)]
    have hget : (get : Scan (List Char)) (c :: tail) = .ok (c :: tail, c :: tail) := rfl
    split
    · simp at hc
    · simp at hc
    · simp at hc
    · simp at hc
    · rw [if_pos hc, bind_of_ok hget, h]
      rfl

end Plain

/-! ## Runs of items -/

section GoesOn

variable {closing : Char} {first : Bool}

theorem goesOn_of_closing (h : s.dropWhile isBlank = closing :: rest) :
    goesOn first closing s = .ok (false, closing :: rest) := by
  rw [goesOn, bind_of_ok (peek_of_dropWhile h), if_pos rfl]
  rfl

theorem goesOn_closing (h : goesOn first closing s = .ok (false, s')) :
    ∃ tail, s' = closing :: tail ∧ s.dropWhile isBlank = closing :: tail := by
  rw [goesOn, bind_eq_ok_iff] at h
  obtain ⟨c, s', hpeek, h⟩ := h
  obtain ⟨tail, rfl, hs⟩ := peek_cons_iff.1 hpeek
  split at h
  · rename_i hc
    cases h
    exact ⟨tail, by rw [hc], by rw [hs, hc]⟩
  · split at h
    · cases h
    · split at h
      · obtain ⟨u, s', -, h⟩ := bind_eq_ok_iff.1 h
        cases h
      · cases h

theorem goesOn_first_iff : goesOn true closing s = .ok (true, s') ↔
    ∃ c tail, s' = c :: tail ∧ s.dropWhile isBlank = c :: tail ∧ c ≠ closing := by
  rw [goesOn, bind_eq_ok_iff]
  constructor
  · rintro ⟨c, s', hpeek, h⟩
    obtain ⟨tail, rfl, hs⟩ := peek_cons_iff.1 hpeek
    split at h
    · cases h
    · cases h
      exact ⟨c, tail, rfl, hs, by assumption⟩
  · rintro ⟨c, tail, rfl, hs, hc⟩
    refine ⟨c, c :: tail, peek_of_dropWhile hs, ?_⟩
    rw [if_neg hc]
    rfl

theorem goesOn_later_iff : goesOn false closing s = .ok (true, s') ↔
    s.dropWhile isBlank = ',' :: s' ∧ ',' ≠ closing := by
  rw [goesOn, bind_eq_ok_iff]
  constructor
  · rintro ⟨c, s', hpeek, h⟩
    obtain ⟨tail, rfl, hs⟩ := peek_cons_iff.1 hpeek
    split at h
    · cases h
    · rename_i hc
      rw [if_neg Bool.false_ne_true] at h
      split at h
      · rename_i hcomma
        rw [bind_of_ok (advance_of_dropWhile (dropWhile_cons hs))] at h
        cases h
        exact ⟨by rw [hs, hcomma], hcomma ▸ hc⟩
      · cases h
  · rintro ⟨hs, hc⟩
    refine ⟨',', ',' :: s', peek_of_dropWhile hs, ?_⟩
    rw [if_neg hc, if_neg Bool.false_ne_true, if_pos rfl, bind_of_ok (advance_of_dropWhile (dropWhile_cons hs))]
    rfl

theorem length_le_of_goesOn (h : goesOn first closing s = .ok (true, s')) : s'.length ≤ s.length := by
  cases first with
  | true =>
    obtain ⟨c, tail, rfl, hs, -⟩ := goesOn_first_iff.1 h
    exact length_lt_of_dropWhile hs
  | false => exact (length_lt_of_dropWhile (goesOn_later_iff.1 h).1).le

end GoesOn

/-- What is left of a container is a run of these items, each of which `item` takes from the text, and its closing
bracket. -/
inductive Run (closing : Char) (item : Scan α) : Bool → List Char → List α → List Char → Prop
  | close {first : Bool} {s rest : List Char} (h : s.dropWhile isBlank = closing :: rest) : Run closing item first s [] rest
  | next {first : Bool} {s s₁ s₂ rest : List Char} {a : α} {as : List α} (more : goesOn first closing s = .ok (true, s₁))
    (head : item s₁ = .ok (a, s₂)) (tail : Run closing item false s₂ as rest) : Run closing item first s (a :: as) rest

/-- The value after a key and a colon. -/
def keyed (value : Scan α) : Scan (String × α) := do
  let key ← text
  take ':'
  return (key, ← value)

/-- The reader takes at least one character. -/
def Takes (m : Scan α) : Prop :=
  ∀ ⦃s a rest⦄, m s = .ok (a, rest) → rest.length < s.length

section Runs

variable {closing : Char} {item value : Scan α} {first : Bool} {as done : List α} {bound : Nat}

/-- Every item takes a character, and so does the closing bracket. -/
theorem Run.length_add_lt (h : Run closing item first s as rest) (hitem : Takes item) :
    as.length + rest.length < s.length := by
  induction h with
  | close h => simpa using length_lt_of_dropWhile h
  | next more head _ ih =>
    have := length_le_of_goesOn more
    have := hitem head
    rw [List.length_cons]
    omega

/-- An array is read by reading the run of its items. -/
theorem items_eq_ok_iff : items item first done bound s = .ok (as, rest) ↔
    ∃ later, as = done.reverse ++ later ∧ later.length < bound ∧ Run ']' item first s later rest := by
  induction bound generalizing first done s with
  | zero => simp [items]
  | succ bound ih =>
    rw [items, bind_eq_ok_iff]
    constructor
    · rintro ⟨go, s₁, hgo, h⟩
      cases go with
      | true =>
        rw [if_pos rfl] at h
        obtain ⟨a, s₂, hitem, h⟩ := bind_eq_ok_iff.1 h
        obtain ⟨later, rfl, hlength, hrun⟩ := ih.1 h
        exact ⟨a :: later, by simp, by simpa using hlength, .next hgo hitem hrun⟩
      | false =>
        obtain ⟨tail, rfl, hs⟩ := goesOn_closing hgo
        rw [if_neg Bool.false_ne_true, bind_of_ok (advance_of_dropWhile (dropWhile_cons hs))] at h
        cases h
        exact ⟨[], by simp, by simp, .close hs⟩
    · rintro ⟨later, rfl, hlength, hrun⟩
      cases hrun with
      | close hs =>
        refine ⟨false, _, goesOn_of_closing hs, ?_⟩
        rw [if_neg Bool.false_ne_true, bind_of_ok (advance_of_dropWhile (dropWhile_cons hs)), List.append_nil]
        rfl
      | next more head tail =>
        refine ⟨true, _, more, ?_⟩
        rw [if_pos rfl, bind_of_ok head]
        exact ih.2 ⟨_, by simp, by simpa using hlength, tail⟩

theorem keyed_eq_ok_iff {e : String × α} : keyed value s = .ok (e, rest) ↔
    ∃ s₁ s₂, text s = .ok (e.1, s₁) ∧ s₁.dropWhile isBlank = ':' :: s₂ ∧ value s₂ = .ok (e.2, rest) := by
  simp only [keyed, bind_eq_ok_iff, take_eq_ok_iff, pure_eq_ok_iff]
  constructor
  · rintro ⟨key, s₁, htext, -, s₂, hcolon, a, s₃, hvalue, rfl, rfl⟩
    exact ⟨s₁, s₂, htext, hcolon, hvalue⟩
  · rintro ⟨s₁, s₂, htext, hcolon, hvalue⟩
    exact ⟨e.1, s₁, htext, (), s₂, hcolon, e.2, rest, hvalue, rfl, rfl⟩

theorem Takes.keyed (h : Takes value) : Takes (keyed value) := by
  intro s e rest hentry
  obtain ⟨s₁, s₂, htext, hcolon, hvalue⟩ := keyed_eq_ok_iff.1 hentry
  have := length_lt_of_text htext
  have := length_lt_of_dropWhile hcolon
  have := h hvalue
  omega

/-- The entries of an object, as they are found. -/
theorem run_of_entries {found es : List (String × α)}
    (h : entries (fun found key => do
      take ':'
      return (key, ← value) :: found) first found bound s = .ok (es, rest)) :
    ∃ later, es = later.reverse ++ found ∧ later.length < bound ∧ Run '\x7d' (keyed value) first s later rest := by
  induction bound generalizing first found s with
  | zero => cases h
  | succ bound ih =>
    rw [entries, bind_eq_ok_iff] at h
    obtain ⟨go, s₁, hgo, h⟩ := h
    cases go with
    | true =>
      rw [if_pos rfl] at h
      obtain ⟨key, s₂, htext, h⟩ := bind_eq_ok_iff.1 h
      obtain ⟨state, s₃, hentry, h⟩ := bind_eq_ok_iff.1 h
      obtain ⟨u, s₄, hcolon, hentry⟩ := bind_eq_ok_iff.1 hentry
      obtain ⟨a, s₅, hvalue, hentry⟩ := bind_eq_ok_iff.1 hentry
      cases hentry
      obtain ⟨later, rfl, hlength, hrun⟩ := ih h
      have hkeyed : keyed value s₁ = .ok ((key, a), s₃) :=
        keyed_eq_ok_iff.2 ⟨s₂, s₄, htext, take_eq_ok_iff.1 hcolon, hvalue⟩
      exact ⟨(key, a) :: later, by simp, by simpa using hlength, .next hgo hkeyed hrun⟩
    | false =>
      obtain ⟨tail, rfl, hs⟩ := goesOn_closing hgo
      rw [if_neg Bool.false_ne_true, bind_of_ok (advance_of_dropWhile (dropWhile_cons hs))] at h
      cases h
      exact ⟨[], by simp, by simp, .close hs⟩

/-- An object is read by reading the run of its entries: `step` says what an entry does to what was read before. -/
theorem Run.entries_eq_ok {es : List (String × α)} (h : Run '\x7d' (keyed value) first s es rest) (hvalue : Takes value)
    {entry : σ → String → Scan σ} (step : σ → String × α → Option σ) {limit : Nat} (hs : s.length < limit)
    (hentry : ∀ {s₁ s₂ s₃ : List Char} {e : String × α} {state state' : σ}, s₂.length < limit →
      s₁.dropWhile isBlank = ':' :: s₂ → value s₂ = .ok (e.2, s₃) → step state e = some state' →
        entry state e.1 s₁ = .ok (state', s₃))
    {state state' : σ} (hfold : es.foldlM step state = some state') (hbound : es.length < bound) :
    entries entry first state bound s = .ok (state', rest) := by
  induction bound generalizing first es state s with
  | zero => omega
  | succ bound ih =>
    rw [entries]
    cases h with
    | close hclosing =>
      cases hfold
      rw [bind_of_ok (goesOn_of_closing hclosing), if_neg Bool.false_ne_true,
        bind_of_ok (advance_of_dropWhile (dropWhile_cons hclosing))]
      rfl
    | @next _ _ s₁ s₂ _ e es more head tail =>
      rw [List.foldlM_cons, Option.bind_eq_bind, Option.bind_eq_some_iff] at hfold
      obtain ⟨middle, hstep, hfold⟩ := hfold
      -- every step takes something of the text, so what is left stays below the limit
      obtain ⟨s₃, s₄, htext, hcolon, hread⟩ := keyed_eq_ok_iff.1 head
      have := length_le_of_goesOn more
      have := length_lt_of_text htext
      have := length_lt_of_dropWhile hcolon
      have := hvalue hread
      rw [bind_of_ok more, if_pos rfl, bind_of_ok htext,
        bind_of_ok (hentry (by omega) hcolon hread hstep)]
      exact ih tail (by omega) hfold (by simpa using hbound)

end Runs

/-! ## Any value -/

/-- A value is no container, a run of items in brackets, or a run of entries in braces. -/
theorem tree_cases {bound depth : Nat} {t : Tree} (h : tree bound depth s = .ok (t, rest)) :
    Plain s rest t ∨ ∃ inner tail, depth = inner + 1 ∧
      ((∃ items, t = .array items ∧ s.dropWhile isBlank = '[' :: tail ∧ items.length < bound ∧
          Run ']' (tree bound inner) true tail items rest) ∨
        ∃ es, t = .object es ∧ s.dropWhile isBlank = '\x7b' :: tail ∧ es.length < bound ∧
          Run '\x7d' (keyed (tree bound inner)) true tail es rest) := by
  cases depth with
  | zero => exact .inl (plain_of_scalar h)
  | succ inner =>
    rw [tree, bind_eq_ok_iff] at h
    obtain ⟨c, s', hpeek, h⟩ := h
    obtain ⟨tail, rfl, hs⟩ := peek_cons_iff.1 hpeek
    split at h
    · rw [bind_of_ok (advance_of_dropWhile (dropWhile_cons hs))] at h
      obtain ⟨items, s', hitems, h⟩ := bind_eq_ok_iff.1 h
      cases h
      obtain ⟨later, rfl, hlength, hrun⟩ := items_eq_ok_iff.1 hitems
      exact .inr ⟨inner, tail, rfl, .inl ⟨_, rfl, hs, hlength, hrun⟩⟩
    · rw [bind_of_ok (advance_of_dropWhile (dropWhile_cons hs))] at h
      obtain ⟨found, s', hfound, h⟩ := bind_eq_ok_iff.1 h
      cases h
      obtain ⟨later, rfl, hlength, hrun⟩ := run_of_entries hfound
      exact .inr ⟨inner, tail, rfl, .inr ⟨later, by simp, hs, hlength, hrun⟩⟩
    · -- the blanks are skipped once more, which makes no difference
      rw [← hs, scalar_passesBlanks s] at h
      exact .inl (plain_of_scalar h)

/-- Nothing but `null` starts like it. -/
theorem head?_ne_of_tree {bound depth : Nat} {t : Tree} (h : tree bound depth s = .ok (t, rest)) (ht : t ≠ .null) :
    (s.dropWhile isBlank).head? ≠ some 'n' := by
  obtain hplain | ⟨_, _, _, ⟨_, _, hs, _⟩ | ⟨_, _, hs, _⟩⟩ := tree_cases h
  · cases hplain with
    | null => exact absurd rfl ht
    | number start hc =>
      rw [start]
      rintro ⟨⟩
      simp at hc
    | text start | yes start | no start => simp [start]
  · simp [hs]
  · simp [hs]

theorem tree_takes (bound depth : Nat) : Takes (tree bound depth) := by
  induction depth with
  | zero =>
    intro s t rest h
    exact (plain_of_scalar h).length_lt
  | succ depth ih =>
    intro s t rest h
    obtain hplain | ⟨inner, tail, hinner, ⟨items, -, hs, -, hrun⟩ | ⟨es, -, hs, -, hrun⟩⟩ := tree_cases h
    · exact hplain.length_lt
    · cases hinner
      have := hrun.length_add_lt ih
      have := length_lt_of_dropWhile hs
      omega
    · cases hinner
      have := hrun.length_add_lt ih.keyed
      have := length_lt_of_dropWhile hs
      omega

theorem tree_of_plain {t : Tree} (h : Plain s rest t) (bound depth : Nat) : tree bound depth s = .ok (t, rest) := by
  have hscalar := h.scalar_eq_ok
  cases depth with
  | zero => exact hscalar
  | succ depth =>
    obtain ⟨c, tail, hs, hc⟩ := h.peek_eq_ok
    rw [← scalar_passesBlanks s, hs] at hscalar
    rw [tree, bind_of_ok (peek_of_dropWhile hs)]
    split
    · simp [Bracket.ofOpening?] at hc
    · simp [Bracket.ofOpening?] at hc
    · exact hscalar

theorem tree_of_items {bound inner : Nat} {tail : List Char} {items : List Tree} (hs : s.dropWhile isBlank = '[' :: tail)
    (hbound : items.length < bound) (h : Run ']' (tree bound inner) true tail items rest) :
    tree bound (inner + 1) s = .ok (.array items, rest) := by
  rw [tree, bind_of_ok (peek_of_dropWhile hs)]
  refine (bind_of_ok (advance_of_dropWhile (dropWhile_cons hs))).trans ?_
  rw [bind_of_ok (items_eq_ok_iff.2 ⟨items, rfl, hbound, h⟩)]
  rfl

theorem foldlM_cons? (found es : List (String × Tree)) :
    es.foldlM (fun found e => some (e :: found)) found = some (es.reverse ++ found) := by
  induction es generalizing found with
  | nil => rfl
  | cons e rest ih => simp [List.foldlM_cons, ih]

theorem tree_of_entries {bound inner : Nat} {tail : List Char} {es : List (String × Tree)}
    (hs : s.dropWhile isBlank = '\x7b' :: tail) (hbound : es.length < bound)
    (h : Run '\x7d' (keyed (tree bound inner)) true tail es rest) :
    tree bound (inner + 1) s = .ok (.object es, rest) := by
  have hfound : entries (fun found key => do
      take ':'
      return (key, ← tree bound inner) :: found) true [] bound tail = .ok (es.reverse ++ [], rest) := by
    refine h.entries_eq_ok (tree_takes bound inner) (fun found e => some (e :: found)) (Nat.lt_succ_self _)
      (fun _ hcolon he hstep => ?_) (foldlM_cons? [] es) hbound
    cases hstep
    rw [bind_of_ok (take_of_dropWhile hcolon), bind_of_ok he]
    rfl
  rw [tree, bind_of_ok (peek_of_dropWhile hs)]
  refine (bind_of_ok (advance_of_dropWhile (dropWhile_cons hs))).trans ?_
  rw [bind_of_ok hfound, List.append_nil]
  exact congrArg (fun es => Except.ok (Tree.object es, rest)) (List.reverse_reverse es)

/-! ## What nobody asked for -/

/-- So many rounds pass over what stands for an item in a container. -/
def PassedIn (b : Bracket) (item : Scan α) : Prop :=
  ∀ ⦃s a rest⦄, item s = .ok (a, rest) → ∃ n, n + rest.length ≤ s.length ∧
    ∀ k opened, (b.skipKey >>= fun _ => skipFrom (k + n) true opened) s = skipFrom k false opened rest

section Skipping

variable {b : Bracket} {item : Scan α} {as : List α}

/-- What is left of a container is passed over. -/
theorem Run.skipFrom_later (h : Run b.closing item false s as rest) (hitem : PassedIn b item) :
    ∃ n, n + rest.length ≤ s.length ∧ ∀ k opened, skipFrom (k + n) false (b :: opened) s = skipFrom k false opened rest := by
  induction as generalizing s with
  | nil =>
    cases h with | close hclosing =>
    refine ⟨1, ?_, fun k opened => ?_⟩
    · have := length_lt_of_dropWhile hclosing
      omega
    · rw [skipFrom, bind_of_ok (peek_of_dropWhile hclosing), if_pos rfl,
        bind_of_ok (advance_of_dropWhile (dropWhile_cons hclosing))]
  | cons a as ih =>
    cases h with | next more head later =>
    obtain ⟨hs, hcomma⟩ := goesOn_later_iff.1 more
    obtain ⟨n, hn, hhead⟩ := hitem head
    obtain ⟨m, hm, hlater⟩ := ih later
    -- one round for the comma, and those of the item and of what comes after it
    refine ⟨m + n + 1, ?_, fun k opened => ?_⟩
    · have := length_lt_of_dropWhile hs
      omega
    · rw [← Nat.add_assoc, skipFrom, bind_of_ok (peek_of_dropWhile hs), if_neg hcomma, if_pos rfl,
        bind_of_ok (advance_of_dropWhile (dropWhile_cons hs)), ← Nat.add_assoc, hhead, hlater]

/-- A container is passed over. -/
theorem Run.skipFrom_container {opening : Char} {tail : List Char} (hb : Bracket.ofOpening? opening = some b)
    (hs : s.dropWhile isBlank = opening :: tail) (h : Run b.closing item true tail as rest) (hitem : PassedIn b item) :
    ∃ n, n + rest.length ≤ s.length ∧ ∀ k opened, skipFrom (k + n) true opened s = skipFrom k false opened rest := by
  have hlength := length_lt_of_dropWhile hs
  cases h with
  | close hclosing =>
    refine ⟨1, ?_, fun k opened => ?_⟩
    · have := length_lt_of_dropWhile hclosing
      omega
    · rw [skipFrom, bind_of_ok (peek_of_dropWhile hs), hb]
      dsimp only
      rw [bind_of_ok (advance_of_dropWhile (dropWhile_cons hs)), bind_of_ok (peek_of_dropWhile hclosing), if_pos rfl,
        bind_of_ok (advance_of_dropWhile (dropWhile_cons hclosing))]
  | next more head later =>
    obtain ⟨c, tail', rfl, htail', hc⟩ := goesOn_first_iff.1 more
    obtain ⟨n, hn, hhead⟩ := hitem head
    obtain ⟨m, hm, hlater⟩ := later.skipFrom_later hitem
    refine ⟨m + n + 1, ?_, fun k opened => ?_⟩
    · have := length_le_of_goesOn more
      omega
    · rw [← Nat.add_assoc, skipFrom, bind_of_ok (peek_of_dropWhile hs), hb]
      dsimp only
      rw [bind_of_ok (advance_of_dropWhile (dropWhile_cons hs)), bind_of_ok (peek_of_dropWhile htail'), if_neg hc,
        ← Nat.add_assoc, hhead, hlater]

theorem Plain.skipFrom_eq {t : Tree} (h : Plain s rest t) (k : Nat) (opened : List Bracket) :
    skipFrom (k + 1) true opened s = skipFrom k false opened rest := by
  obtain ⟨c, tail, hs, hc⟩ := h.peek_eq_ok
  have hskip := h.skipScalar_eq_ok
  rw [← skipScalar_passesBlanks s, hs] at hskip
  rw [skipFrom, bind_of_ok (peek_of_dropWhile hs), hc]
  exact bind_of_ok hskip

/-- A value is passed over in no more rounds than it has characters. -/
theorem skipFrom_of_tree {bound depth : Nat} {t : Tree} (h : tree bound depth s = .ok (t, rest)) :
    ∃ n, n + rest.length ≤ s.length ∧ ∀ k opened, skipFrom (k + n) true opened s = skipFrom k false opened rest := by
  -- one level of containers after the other, although the loose reader itself counts none
  induction depth generalizing s t rest with
  | zero =>
    have hplain := plain_of_scalar h
    have hlength := hplain.length_lt
    exact ⟨1, by omega, hplain.skipFrom_eq⟩
  | succ depth ih =>
    obtain hplain | ⟨inner, tail, hinner, ⟨items, -, hs, -, hrun⟩ | ⟨es, -, hs, -, hrun⟩⟩ := tree_cases h
    · have hlength := hplain.length_lt
      exact ⟨1, by omega, hplain.skipFrom_eq⟩
    · cases hinner
      have hitem : PassedIn .array (tree bound depth) := fun s t rest h => ih h
      exact Run.skipFrom_container (b := .array) rfl hs hrun hitem
    · cases hinner
      have hitem : PassedIn .object (keyed (tree bound depth)) := by
        intro s e rest h
        obtain ⟨s₁, s₂, htext, hcolon, hvalue⟩ := keyed_eq_ok_iff.1 h
        obtain ⟨n, hn, hpassed⟩ := ih hvalue
        refine ⟨n, ?_, fun k opened => ?_⟩
        · have := length_lt_of_text htext
          have := length_lt_of_dropWhile hcolon
          omega
        · have hkey : Bracket.skipKey .object s = .ok ((), s₂) := by
            rw [Bracket.skipKey, bind_of_ok (skipText_of_text htext), take_of_dropWhile hcolon]
          rw [bind_of_ok hkey, hpassed]
      exact Run.skipFrom_container (b := .object) rfl hs hrun hitem

end Skipping

/-- A value that can be read can be passed over. -/
theorem skip_of_tree {bound depth : Nat} {t : Tree} (h : tree bound depth s = .ok (t, rest)) {limit : Nat}
    (hlimit : s.length < limit) : skip limit s = .ok ((), rest) := by
  obtain ⟨n, hn, hpassed⟩ := skipFrom_of_tree h
  obtain ⟨k, rfl⟩ : ∃ k, limit = k + 1 + n := ⟨limit - 1 - n, by omega⟩
  rw [skip, hpassed]
  rfl

end Scan

theorem Tree.read?_eq_some_iff {text : String} {t : Tree} : Tree.read? text = some t ↔
    ∃ rest, Scan.tree (text.toList.length + 2) Scan.maxDepth text.toList = .ok (t, rest) ∧
      rest.all Scan.isBlank = true := by
  rw [← @Scan.readAll_eq_ok_iff _ fun bound => Scan.tree bound Scan.maxDepth, Tree.read?]
  cases Scan.readAll (fun bound => Scan.tree bound Scan.maxDepth) text <;> simp [Except.toOption]

end Exonym
