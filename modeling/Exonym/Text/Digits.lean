/-!
# Whole numbers in text

Main statements:

* `Digits.value_lt`: a text read as a number below a limit gives one below it.
* `Digits.isDigit_of_mem_toString`: what numbers are written with.
* `Digits.number_toDigits`, `Digits.toDigits_number`: writing a number and reading it are inverse to each other.
* `Digits.written_toString`: how the digits of a number look.
-/

namespace Exonym.Digits

/-- The number that decimal digits stand for. -/
def number (digits : List Char) : Nat :=
  digits.foldl (fun n c => 10 * n + (c.toNat - 48)) 0

/-- The number that decimal digits stand for, if there are any and nothing else. -/
def value? (digits : List Char) : Option Nat :=
  if digits.isEmpty then none
  else if digits.all Char.isDigit then some (number digits)
  else none

/-- The number that a text stands for: digits, which a plus sign may precede, giving less than `limit`. -/
def signedBelow? (limit : Nat) (s : String) : Option Nat :=
  (match s.toList with
    | '+' :: digits => value? digits
    | digits => value? digits).filter (· < limit)

/-- Numbers are written with digits alone. -/
theorem isDigit_of_mem_toString {n : Nat} {c : Char} (h : c ∈ (toString n).toList) : c.isDigit = true :=
  Nat.isDigit_of_mem_toDigits (b := 10) (n := n) (by omega) (by omega) (by simpa using h)

theorem value_lt {limit n : Nat} {s : String} (h : signedBelow? limit s = some n) : n < limit := by
  simpa using (Option.filter_eq_some_iff.1 h).2

/-! ## Writing and reading -/

/-- A digit is the one of its value. -/
theorem exists_digitChar {c : Char} (h : c.isDigit = true) : ∃ d < 10, Nat.digitChar d = c := by
  have hc : 48 ≤ c.toNat ∧ c.toNat ≤ 57 := by
    simpa [Char.isDigit, UInt32.le_iff_toNat_le] using h
  refine ⟨c.toNat - 48, by omega, Char.toNat_inj.1 ?_⟩
  rw [Nat.toNat_digitChar_of_lt_ten (by omega)]
  omega

theorem number_toDigits (n : Nat) : number (Nat.toDigits 10 n) = n :=
  Nat.ofDigitChars_ten_toDigits

/-- Digits that follow a number other than zero are written behind it. -/
theorem toDigits_ofDigitChars {digits : List Char} (h : ∀ c ∈ digits, c.isDigit = true) {n : Nat} (hn : 0 < n) :
    Nat.toDigits 10 (Nat.ofDigitChars 10 digits n) = Nat.toDigits 10 n ++ digits := by
  induction digits generalizing n with
  | nil => simp
  | cons c rest ih =>
    obtain ⟨hc, hrest⟩ := List.forall_mem_cons.1 h
    obtain ⟨d, hd, rfl⟩ := exists_digitChar hc
    rw [Nat.ofDigitChars_cons_digitChar_of_lt_ten hd, ih hrest (by omega),
      ← Nat.toDigits_append_toDigits (by omega) hn hd, Nat.toDigits_of_lt_base hd]
    simp

theorem head?_toDigits_ne_zero {n : Nat} (hn : 0 < n) : (Nat.toDigits 10 n).head? ≠ some '0' := by
  induction n using Nat.strongRecOn with
  | ind n ih =>
    rw [Nat.toDigits_eq_if (by omega)]
    split
    · simp [Nat.digitChar_eq_zero]; omega
    · rw [List.head?_append, Option.or_of_isSome (List.isSome_head?.2 Nat.toDigits_ne_nil)]
      exact ih _ (by omega) (by omega)

/-- Digits that start with no zero are those of the number that they stand for. -/
theorem toDigits_number {digits : List Char} (h : ∀ c ∈ digits, c.isDigit = true) (hne : digits ≠ [])
    (hzero : digits.head? ≠ some '0') : Nat.toDigits 10 (number digits) = digits := by
  obtain ⟨c, rest, rfl⟩ := List.exists_cons_of_ne_nil hne
  obtain ⟨hc, hrest⟩ := List.forall_mem_cons.1 h
  obtain ⟨d, hd, rfl⟩ := exists_digitChar hc
  have hpos : 0 < d := Nat.pos_of_ne_zero fun hd => hzero (by subst hd; rfl)
  change Nat.toDigits 10 (Nat.ofDigitChars 10 (d.digitChar :: rest) 0) = _
  rw [Nat.ofDigitChars_cons_digitChar_of_lt_ten hd, Nat.mul_zero, Nat.zero_add, toDigits_ofDigitChars hrest hpos,
    Nat.toDigits_of_lt_base hd]
  rfl

/-- The digits with which a number is written: there are some, and the first of several is no zero. -/
structure Written (digits : List Char) (n : Nat) : Prop where
  ne_nil : digits ≠ []
  isDigit : ∀ c ∈ digits, c.isDigit = true
  zero : digits.head? = some '0' → digits = ['0']
  number : number digits = n

theorem written_toString (n : Nat) : Written (toString n).toList n := by
  rw [Nat.toString_eq_ofList_toDigits, String.toList_ofList]
  refine ⟨Nat.toDigits_ne_nil, fun c hc => Nat.isDigit_of_mem_toDigits (by omega) (by omega) hc, fun hzero => ?_,
    number_toDigits n⟩
  obtain rfl | hn := Nat.eq_zero_or_pos n
  · rfl
  · exact absurd hzero (head?_toDigits_ne_zero hn)

/-- Of the ways to give a number other than zero, the one without a plus sign and without zeros before it is the way in
which numbers are written. -/
theorem eq_toString_iff {limit n : Nat} {s : String} (h : signedBelow? limit s = some n) :
    (n ≠ 0 ∧ s = toString n) ↔ s.toList.head? ≠ some '+' ∧ s.toList.head? ≠ some '0' := by
  constructor
  · rintro ⟨hn, rfl⟩
    rw [Nat.toString_eq_ofList_toDigits, String.toList_ofList]
    refine ⟨fun hplus => ?_, head?_toDigits_ne_zero (by omega)⟩
    have := Nat.isDigit_of_mem_toDigits (by omega) (by omega) (List.mem_of_mem_head? hplus)
    exact absurd this (by decide)
  · rintro ⟨hplus, hzero⟩
    -- without a plus sign all of the text is digits
    have hvalue : value? s.toList = some n := by
      have hvalue := (Option.filter_eq_some_iff.1 h).1
      split at hvalue
      · rename_i hs
        rw [hs] at hplus
        exact absurd rfl hplus
      · exact hvalue
    obtain ⟨hne, hdigits, hnumber⟩ : s.toList ≠ [] ∧ (∀ c ∈ s.toList, c.isDigit = true) ∧ number s.toList = n := by
      simpa [value?] using hvalue
    have hwritten : Nat.toDigits 10 n = s.toList := by
      rw [← hnumber]
      exact toDigits_number hdigits hne hzero
    refine ⟨?_, by rw [Nat.toString_eq_ofList_toDigits, hwritten, String.ofList_toList]⟩
    rintro rfl
    rw [← hwritten] at hzero
    exact hzero rfl

/-! ## Hexadecimal digits -/

def hexValue? (c : Char) : Option Nat :=
  if c.isDigit then some (c.toNat - 48)
  else if 'a' ≤ c && c ≤ 'f' then some (c.toNat - 87)
  else if 'A' ≤ c && c ≤ 'F' then some (c.toNat - 55)
  else none

/-- The number that hexadecimal digits stand for. -/
def hexNumber? (digits : List Char) : Option Nat :=
  digits.foldl (fun n c => do return 16 * (← n) + (← hexValue? c)) (some 0)

end Exonym.Digits
