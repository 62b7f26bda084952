import Exonym.Proofs.Toml.Quoted
import Exonym.Toml.Statement
import Mathlib.Data.List.Basic

/-!
# Values of settings are read back

Settings have texts, truth values, whole numbers that are not negative, and arrays as their values. Of the readers that
are tried on a value one alone takes it: digits are no date and no number with a fraction, and a quoted text does not
go on after its mark. What follows a value in a settings file is the end of its line, a comma or a closing bracket.

Main statements:

* `scanReal_written`, `momentScan_digits`: digits alone are neither a number with a fraction nor a date.
* `scanItems_renderItems`: items of an array are read back if each of them is.
* `Value.IsSetting.isRead`: a value is read back up to what ends it, with a bound that its length gives.
-/

namespace Exonym.Toml

/-- A character of one kind is none of those that are not of the kind. -/
theorem not_mem_of_apart {p : Char → Bool} {c : Char} (hc : p c = true) {others : List Char}
    (h : others.any p = false) : c ∉ others :=
  fun hmem => List.any_eq_false.1 h c hmem hc

/-! ## Numbers -/

/-- What can follow a value: the end of its line, or of its place in an array. -/
def EndsValue (rest : List Char) : Prop :=
  ∃ c ∈ ['\n', ',', ']'], rest.head? = some c

theorem EndsValue.head?_ne {rest : List Char} (h : EndsValue rest) {c : Char} (hc : c ∉ ['\n', ',', ']']) :
    rest.head? ≠ some c := by
  obtain ⟨d, hd, hrest⟩ := h
  rw [hrest, Ne, Option.some.injEq]
  rintro rfl
  exact hc hd

section Digits

variable {digits rest : List Char} (hdigits : ∀ c ∈ digits, c.isDigit = true) (hrest : EndsValue rest)

include hdigits hrest

/-- A number of fixed width leaves digits behind, if anything. -/
theorem scanFixed_digits {width n : Nat} {s : List Char}
    (h : Moment.scanFixed width (digits ++ rest) = some (n, s)) :
    ∃ more, (∀ c ∈ more, c.isDigit = true) ∧ s = more ++ rest := by
  obtain ⟨⟨-, hall⟩, -, rfl⟩ : (((digits ++ rest).take width).length = width ∧
      ∀ c ∈ (digits ++ rest).take width, c.isDigit = true) ∧ _ ∧ (digits ++ rest).drop width = s := by
    simpa [Moment.scanFixed] using h
  by_cases hwidth : width ≤ digits.length
  · exact ⟨digits.drop width, fun c hc => hdigits c (List.mem_of_mem_drop hc), List.drop_append_of_le_length hwidth⟩
  · obtain ⟨c, hc, hhead⟩ := hrest
    obtain ⟨t, rfl⟩ : ∃ t, rest = c :: t := by
      cases rest with
      | nil => cases hhead
      | cons d t => exact ⟨t, by rw [Option.some.inj hhead]⟩
    have hmem : c ∈ (digits ++ c :: t).take width := by
      obtain ⟨k, hk⟩ : ∃ k, width - digits.length = k + 1 := ⟨width - digits.length - 1, by omega⟩
      rw [List.take_append, hk]
      exact List.mem_append_right _ List.mem_cons_self
    exact absurd hc (not_mem_of_apart (hall c hmem) (by decide))

theorem after?_digits {c : Char} (hc : c.isDigit = false) (hend : c ∉ ['\n', ',', ']']) :
    Moment.after? c (digits ++ rest) = none := by
  have hhead : (digits ++ rest).head? ≠ some c := by
    cases digits with
    | nil => exact hrest.head?_ne hend
    | cons d t =>
      intro h
      have := hdigits d List.mem_cons_self
      rw [Option.some.inj h, hc] at this
      cases this
  cases h : digits ++ rest with
  | nil => rfl
  | cons d t =>
    rw [h] at hhead
    simpa [Moment.after?] using hhead

/-- Digits alone are no date and no time. -/
theorem momentScan_digits : Moment.scan (digits ++ rest) = none := by
  have hdate : Date.scan (digits ++ rest) = none := by
    rw [Date.scan]
    cases h : Moment.scanFixed 4 (digits ++ rest) with
    | none => rfl
    | some r =>
      obtain ⟨more, hmore, hs⟩ := scanFixed_digits hdigits hrest h
      simp [hs, after?_digits hmore hrest (c := '-') rfl (by decide)]
  have htime : Clock.scan (digits ++ rest) = none := by
    rw [Clock.scan]
    cases h : Moment.scanPair 0 23 (digits ++ rest) with
    | none => rfl
    | some r =>
      obtain ⟨more, hmore, hs⟩ := scanFixed_digits hdigits hrest (Option.filter_eq_some_iff.1 h).1
      simp [hs, after?_digits hmore hrest (c := ':') rfl (by decide)]
  rw [Moment.scan, hdate]
  simp only
  rw [htime]
  rfl

theorem scanDigits_append : scanDigits Char.isDigit (digits ++ rest) = (digits, rest) := by
  induction digits with
  | nil =>
    obtain ⟨c, hc, hhead⟩ := hrest
    cases rest with
    | nil => cases hhead
    | cons d t =>
      cases hhead
      simp only [List.mem_cons, List.not_mem_nil, or_false] at hc
      rcases hc with rfl | rfl | rfl <;> rfl
  | cons c digits ih =>
    obtain ⟨hc, hdigits⟩ := List.forall_mem_cons.1 hdigits
    have hne : c ≠ '_' := by rintro rfl; cases hc
    rw [List.cons_append, scanDigits.eq_def]
    split <;> simp_all

omit hrest in
theorem numberInBase_digits : numberInBase 10 digits = Digits.number digits := by
  rw [numberInBase, Digits.number]
  refine List.foldl_ext _ _ _ fun n c hc => ?_
  simp [Digits.hexValue?, hdigits c hc]

end Digits

section Written

variable {digits rest : List Char} {n : Nat} (hd : Digits.Written digits n) (hrest : EndsValue rest)

include hd hrest

theorem scanWhole_written : scanWhole (digits ++ rest) = some (digits, rest) := by
  obtain ⟨c, t, rfl⟩ := List.exists_cons_of_ne_nil hd.ne_nil
  obtain ⟨hc, ht⟩ := List.forall_mem_cons.1 hd.isDigit
  by_cases h : c = '0'
  · subst h
    cases hd.zero rfl
    rfl
  · have hplaces : scanWhole (c :: t ++ rest) = scanPlaces (c :: t ++ rest) := by
      rw [scanWhole.eq_def]
      split <;> simp_all
    rw [hplaces, List.cons_append, scanPlaces, if_pos hc, scanDigits_append ht hrest]

/-- Digits alone are no number with a fraction or an exponent. -/
theorem scanReal_written : scanReal (digits ++ rest) = none := by
  have hwhole := scanWhole_written hd hrest
  obtain ⟨c, t, rfl⟩ := List.exists_cons_of_ne_nil hd.ne_nil
  have hc := hd.isDigit c List.mem_cons_self
  have hsign : takeSign (c :: t ++ rest) = ([], c :: t ++ rest) := by
    rw [takeSign.eq_def]
    split <;> simp_all [Char.isDigit]
  -- what ends a value begins neither a fraction nor an exponent
  have hfraction : scanFraction rest = some (none, rest) := by
    rw [scanFraction.eq_def]
    split
    · exact absurd rfl (hrest.head?_ne (c := '.') (by decide))
    · rfl
  have hexponent : scanExponent rest = some (none, rest) := by
    rw [scanExponent.eq_def]
    split
    · exact absurd rfl (hrest.head?_ne (c := 'e') (by decide))
    · exact absurd rfl (hrest.head?_ne (c := 'E') (by decide))
    · rfl
  rw [scanReal, hsign]
  simp only
  split
  · simp_all [Char.isDigit]
  · simp_all [Char.isDigit]
  · rw [hwhole]
    simp [hfraction, hexponent]

theorem scanUnbounded_written : scanUnbounded (digits ++ rest) = some ((n : Int), rest) := by
  have hwhole := scanWhole_written hd hrest
  have hnumber : numberInBase 10 digits = n := (numberInBase_digits hd.isDigit).trans hd.number
  obtain ⟨c, t, rfl⟩ := List.exists_cons_of_ne_nil hd.ne_nil
  have hc := hd.isDigit c List.mem_cons_self
  have hdecimal : scanUnbounded (c :: t ++ rest) =
      (scanDecimal (c :: t ++ rest)).map fun r => ((r.1 : Int), r.2) := by
    rw [scanUnbounded.eq_def]
    have hbase : ∀ d ∈ ['x', 'o', 'b'], ∀ s, c :: t ++ rest ≠ '0' :: d :: s := by
      intro d hd' s heq
      obtain ⟨rfl, hsecond⟩ := List.cons.inj heq
      cases hd.zero rfl
      refine absurd (congrArg List.head? hsecond) (hrest.head?_ne ?_)
      simp only [List.mem_cons, List.not_mem_nil, or_false] at hd'
      rcases hd' with rfl | rfl | rfl <;> decide
    split <;> simp_all [Char.isDigit]
  rw [hdecimal, scanDecimal, hwhole, ← hnumber]
  rfl

end Written

/-! ## Values -/

/-- The values that settings have: texts, truth values, whole numbers that are not negative, and arrays of those, which lie
in one another up to a depth. -/
inductive Value.IsSetting : (depth : Nat) → Value → Prop
  | text {depth : Nat} (s : String) : IsSetting depth (.text s)
  | bool {depth : Nat} (b : Bool) : IsSetting depth (.bool b)
  | int {depth n : Nat} (h : n < .pow 2 63) : IsSetting depth (.int n)
  | array {depth : Nat} {items : List Value} (h : ∀ v ∈ items, IsSetting depth v) : IsSetting (depth + 1) (.array items)

/-- Layout, and what closes an array: no value starts with these. -/
def nonStarts : List Char := [' ', '\t', '\n', '\r', '#', ']']

namespace Value

theorem written_render (n : Nat) : Digits.Written (Value.int n).render n :=
  Digits.written_toString n

theorem render_array_eq_cons (items : List Value) : ∃ rest, (Value.array items).render = '[' :: rest := by
  match items with
  | [] => exact ⟨_, rfl⟩
  | [item] => exact ⟨_, by rw [Value.render]; rfl⟩
  | first :: second :: rest => exact ⟨_, by rw [Value.render]; rfl⟩

theorem exists_start {depth : Nat} {v : Value} (h : IsSetting depth v) :
    ∃ c rest, v.render = c :: rest ∧ c ∉ nonStarts := by
  cases h with
  | text s =>
    rw [Value.render]
    cases Quoted.formOfValue s.toList with
    | basic | multilineBasic => exact ⟨'"', _, rfl, by decide⟩
    | literal | multilineLiteral => exact ⟨apostrophe, _, rfl, by decide⟩
  | bool b => cases b <;> exact ⟨_, _, rfl, by decide⟩
  | @int _ n h =>
    have hd := written_render n
    obtain ⟨c, t, hrender⟩ := List.exists_cons_of_ne_nil hd.ne_nil
    have hc := hd.isDigit c (hrender ▸ List.mem_cons_self)
    exact ⟨c, t, hrender, not_mem_of_apart hc (by decide)⟩
  | @array _ items h =>
    obtain ⟨rest, hrender⟩ := render_array_eq_cons items
    exact ⟨'[', rest, hrender, by decide⟩

end Value

theorem skipLayout_start {c : Char} (hc : c ∉ nonStarts) (rest : List Char) :
    skipLayout false (c :: rest) = some (c :: rest) := by
  rw [skipLayout.eq_def]
  split <;> simp_all [nonStarts, isBlank]

/-- The readers that are tried after brackets and words. -/
theorem scanValue_other {c : Char} (hc : c ∉ ['[', '\x7b', 't', 'f']) (bound depth : Nat) (rest : List Char) :
    scanValue (bound + 1) depth (c :: rest) =
      (((Quoted.scanValue (c :: rest)).map fun (text, rest) => (Value.text (.ofList text), rest)).or
        ((Moment.scan (c :: rest)).map fun (m, rest) => (.moment m, rest))).or
        (((scanReal (c :: rest)).map fun (digits, rest) => (Value.real digits, rest)).or
          ((scanNumber (c :: rest)).map fun (n, rest) => (.int n, rest))) := by
  rw [scanValue.eq_def]
  simp only
  split <;> simp_all

theorem scanValue_text (s : String) (bound depth : Nat) {rest : List Char} (hrest : EndsValue rest) :
    scanValue (bound + 1) depth ((Value.text s).render ++ rest) = some (.text s, rest) := by
  have hread := Quoted.scanValue_write (Quoted.suits_formOfValue s.toList) (hrest.head?_ne (c := '"') (by decide))
    (hrest.head?_ne (c := apostrophe) (by decide))
  obtain ⟨c, t, hstart, hc⟩ : ∃ c t, (Value.text s).render = c :: t ∧ c ∉ ['[', '\x7b', 't', 'f'] := by
    rw [Value.render]
    cases Quoted.formOfValue s.toList with
    | basic | multilineBasic => exact ⟨'"', _, rfl, by decide⟩
    | literal | multilineLiteral => exact ⟨apostrophe, _, rfl, by decide⟩
  rw [Value.render] at hstart ⊢
  rw [hstart, List.cons_append] at hread ⊢
  rw [scanValue_other hc, hread]
  simp

theorem scanValue_int {n : Nat} (hn : n < .pow 2 63) (bound depth : Nat) {rest : List Char} (hrest : EndsValue rest) :
    scanValue (bound + 1) depth ((Value.int n).render ++ rest) = some (.int n, rest) := by
  have hd := Value.written_render n
  have hreal := scanReal_written hd hrest
  have hmoment := momentScan_digits hd.isDigit hrest
  have hunbounded := scanUnbounded_written hd hrest
  obtain ⟨c, t, hrender⟩ := List.exists_cons_of_ne_nil hd.ne_nil
  have hc := hd.isDigit c (hrender ▸ List.mem_cons_self)
  rw [hrender, List.cons_append] at hreal hmoment hunbounded ⊢
  have hquoted : Quoted.scanValue (c :: (t ++ rest)) = none :=
    Quoted.scanValue_eq_none (not_mem_of_apart hc (by decide)) (t ++ rest)
  -- digits are told from the other values by how these begin
  have hother : c ∉ ['[', '\x7b', 't', 'f'] := not_mem_of_apart hc (by decide)
  have hnumbered : scanNumber (c :: (t ++ rest)) = some ((n : Int), rest) := by
    have hlimit : Int.pow 2 63 = 9223372036854775808 ∧ Nat.pow 2 63 = 9223372036854775808 := ⟨rfl, rfl⟩
    have hleast : -Int.pow 2 63 ≤ n := by omega
    have hmost : (n : Int) < .pow 2 63 := by omega
    rw [scanNumber, hunbounded, Option.filter_some]
    exact if_pos (Bool.and_eq_true_iff.2 ⟨decide_eq_true hleast, decide_eq_true hmost⟩)
  rw [scanValue_other hother, hquoted, hmoment, hreal, hnumbered]
  rfl

theorem scanValue_bool (b : Bool) (bound depth : Nat) (rest : List Char) :
    scanValue (bound + 1) depth ((Value.bool b).render ++ rest) = some (.bool b, rest) := by
  cases b <;> simp [Value.render, scanValue]

/-- The value is read with a bound that is no less than the length of what is written. -/
def Value.IsRead (depth : Nat) (v : Value) : Prop :=
  ∀ bound rest, v.render.length ≤ bound → EndsValue rest → scanValue bound depth (v.render ++ rest) = some (v, rest)

section Arrays

variable {depth bound : Nat}

theorem scanItems_layout {c : Char} (hc : c ∈ [' ', '\n']) (s : List Char) :
    scanItems bound depth (c :: s) = scanItems bound depth s := by
  cases bound with
  | zero => rfl
  | succ bound =>
    have hskip : skipLayout false (c :: s) = skipLayout false s := by
      simp only [List.mem_cons, List.not_mem_nil, or_false] at hc
      rcases hc with rfl | rfl
      · simp [skipLayout, isBlank]
      · simp [skipLayout]
    rw [scanItems, scanItems, hskip]

section Item

variable {item : Value} (hset : item.IsSetting depth) (hitem : item.IsRead depth)
  (hbound : item.render.length ≤ bound)

include hset hitem hbound

/-- An item is read, and then either more of them after a comma or the end of the array. -/
theorem scanItems_append {s : List Char} (hs : EndsValue s) :
    scanItems (bound + 1) depth (item.render ++ s) = (do
      match ← skipLayout false s with
      | ',' :: rest =>
        let (items, rest) ← scanItems bound depth rest
        return (item :: items, rest)
      | ']' :: rest => return ([item], rest)
      | _ => none) := by
  obtain ⟨c, t, hrender, hc⟩ := Value.exists_start hset
  have hvalue := hitem bound s hbound hs
  rw [hrender, List.cons_append] at hvalue ⊢
  rw [scanItems, skipLayout_start hc]
  simp only [Option.bind_eq_bind, Option.bind_some]
  split
  · rename_i heq
    obtain ⟨rfl, -⟩ := List.cons.inj heq
    exact absurd (by decide) hc
  · rw [hvalue]
    rfl

theorem scanItems_item (rest : List Char) :
    scanItems (bound + 1) depth (item.render ++ ',' :: rest) =
      (scanItems bound depth rest).map fun (items, rest) => (item :: items, rest) := by
  rw [scanItems_append hset hitem hbound ⟨',', by decide, rfl⟩, skipLayout_start (by decide)]
  simp only [Option.bind_eq_bind, Option.bind_some]
  cases scanItems bound depth rest <;> rfl

theorem scanItems_last (rest : List Char) :
    scanItems (bound + 1) depth (item.render ++ ']' :: rest) = some ([item], rest) := by
  rw [scanItems_append hset hitem hbound ⟨']', by decide, rfl⟩]
  rfl

end Item

/-- Items are read in their lines, up to the closing bracket. -/
theorem scanItems_renderItems {items : List Value} (hset : ∀ v ∈ items, v.IsSetting depth)
    (h : ∀ v ∈ items, v.IsRead depth) (hbound : (Value.renderItems items).length < bound) (rest : List Char) :
    scanItems bound depth (Value.renderItems items ++ ']' :: rest) = some (items, rest) := by
  induction items generalizing bound with
  | nil =>
    obtain ⟨bound, rfl⟩ := Nat.exists_eq_succ_of_ne_zero (Nat.ne_of_gt hbound)
    rfl
  | cons item items ih =>
    obtain ⟨hsetItem, hset⟩ := List.forall_mem_cons.1 hset
    obtain ⟨hitem, h⟩ := List.forall_mem_cons.1 h
    obtain ⟨bound, rfl⟩ := Nat.exists_eq_succ_of_ne_zero (Nat.ne_of_gt (Nat.lt_of_le_of_lt (Nat.zero_le _) hbound))
    simp only [Value.renderItems, List.length_append, List.length_cons, List.length_nil] at hbound
    simp only [Value.renderItems, List.append_assoc, List.cons_append, List.nil_append,
      scanItems_layout (show ' ' ∈ [' ', '\n'] by decide)]
    rw [scanItems_item hsetItem hitem (by omega), scanItems_layout (by decide), ih hset h (by omega)]
    rfl

end Arrays

theorem Value.IsSetting.exists_bound {depth bound : Nat} {v : Value} (h : v.IsSetting depth)
    (hbound : v.render.length ≤ bound) : ∃ k, bound = k + 1 := by
  obtain ⟨c, t, hrender, -⟩ := exists_start h
  rw [hrender, List.length_cons] at hbound
  exact ⟨bound - 1, by omega⟩

/-- A value is read up to what ends it. -/
theorem Value.IsSetting.isRead {depth : Nat} {v : Value} (h : v.IsSetting depth) : v.IsRead depth := by
  induction h with
  | @text depth s =>
    intro bound rest hbound hrest
    obtain ⟨bound, rfl⟩ := exists_bound (@IsSetting.text depth s) hbound
    exact scanValue_text s bound depth hrest
  | @bool depth b =>
    intro bound rest hbound hrest
    obtain ⟨bound, rfl⟩ := exists_bound (@IsSetting.bool depth b) hbound
    exact scanValue_bool b bound depth rest
  | @int depth n h =>
    intro bound rest hbound hrest
    obtain ⟨bound, rfl⟩ := exists_bound (@IsSetting.int depth n h) hbound
    exact scanValue_int h bound depth hrest
  | @array depth items hset ih =>
    intro bound rest hbound hrest
    match items with
    | [] =>
      obtain ⟨bound, rfl⟩ : ∃ k, bound = k + 2 := ⟨bound - 2, by simp [Value.render] at hbound; omega⟩
      rfl
    | [item] =>
      simp only [Value.render, List.length_append, List.length_cons, List.length_nil] at hbound
      obtain ⟨bound, rfl⟩ : ∃ k, bound = k + 2 := ⟨bound - 2, by omega⟩
      have hitems := scanItems_last (hset item List.mem_cons_self) (ih item List.mem_cons_self)
        (show item.render.length ≤ bound by omega) rest
      simp only [Value.render, List.cons_append, List.append_assoc, List.nil_append, scanValue]
      rw [hitems]
      rfl
    | first :: second :: more =>
      simp only [Value.render, List.length_append, List.length_cons, List.length_nil] at hbound
      obtain ⟨bound, rfl⟩ : ∃ k, bound = k + 1 := ⟨bound - 1, by omega⟩
      have hitems := @scanItems_renderItems _ bound _ hset ih (by omega) rest
      simp only [Value.render, List.cons_append, List.append_assoc, List.nil_append, scanValue]
      rw [scanItems_layout (by decide), hitems]
      rfl

end Exonym.Toml
