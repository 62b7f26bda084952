import Exonym.Json.Tree
import Exonym.Text.Double

/-!
# Numbers in JSON text

A number is taken from a text as it is written, in its parts; what it stands for is another matter.

Main statements:

* `Numeral.collect_append`: what is collected and what is left out are all the digits.
* `Numeral.value?_ofNat`: a whole number of 64 bits stands for itself.
-/

namespace Exonym

/-- Why a text cannot be used. -/
inductive Problem where
  /-- It is no JSON. -/
  | malformed
  /-- It is JSON, but not of the form expected. -/
  | mismatch
  /-- It ends too early. -/
  | truncated
  deriving DecidableEq, Repr, Inhabited

/-- The parts of a number as it is written. -/
structure Numeral where
  negative : Bool
  whole : List Char
  /-- The digits after the point; at least one, if there is a point. -/
  fraction : Option (List Char)
  exponent : Option Int
  deriving DecidableEq, Repr

namespace Numeral

/-! ## Reading -/

/-- One or more digits, and what follows them. -/
def someDigits (s : List Char) : Except Problem (List Char × List Char) :=
  match s.span Char.isDigit with
  | ([], []) => .error .truncated
  | ([], _) => .error .malformed
  | parts => .ok parts

/-- The digits before the point: a lone zero, or digits that start with no zero. -/
def wholePart (s : List Char) : Except Problem (List Char × List Char) := do
  match ← someDigits s with
  | ('0' :: _ :: _, _) => throw .malformed
  | parts => return parts

/-- The digits after a point, if there is one. -/
def fractionPart (s : List Char) : Except Problem (Option (List Char) × List Char) :=
  match s with
  | '.' :: rest => (someDigits rest).map fun (digits, rest) => (some digits, rest)
  | rest => .ok (none, rest)

/-- The exponent after its mark. -/
def signedExponent (s : List Char) : Except Problem (Int × List Char) :=
  match s with
  | '+' :: rest => (someDigits rest).map fun (digits, rest) => ((Digits.number digits : Int), rest)
  | '-' :: rest => (someDigits rest).map fun (digits, rest) => (-(Digits.number digits : Int), rest)
  | rest => (someDigits rest).map fun (digits, rest) => ((Digits.number digits : Int), rest)

/-- The exponent, if there is one. -/
def exponentPart (s : List Char) : Except Problem (Option Int × List Char) :=
  match s with
  | 'e' :: rest => (signedExponent rest).map fun (e, rest) => (some e, rest)
  | 'E' :: rest => (signedExponent rest).map fun (e, rest) => (some e, rest)
  | rest => .ok (none, rest)

/-- The number at the front of a text, and what follows it. -/
def scan (s : List Char) : Except Problem (Numeral × List Char) := do
  let (negative, s) := match s with
    | '-' :: rest => (true, rest)
    | rest => (false, rest)
  let (whole, s) ← wholePart s
  let (fraction, s) ← fractionPart s
  let (exponent, s) ← exponentPart s
  return (⟨negative, whole, fraction, exponent⟩, s)

/-! ## Meaning -/

/-- Appends digits to a number as long as it fits 64 bits; gives the number, and the digits left out. -/
def collect (n : Nat) : List Char → Nat × List Char
  | [] => (n, [])
  | c :: rest =>
    let m := 10 * n + (c.toNat - 48)
    if m < UInt64.size then collect m rest else (n, c :: rest)

theorem collect_append (n : Nat) (digits : List Char) :
    ∃ taken, digits = taken ++ (collect n digits).2 ∧
      (collect n digits).1 = taken.foldl (fun n c => 10 * n + (c.toNat - 48)) n := by
  induction digits generalizing n with
  | nil => exact ⟨[], rfl, rfl⟩
  | cons c rest ih =>
    unfold collect
    simp only
    split
    · obtain ⟨taken, hd, hn⟩ := ih (10 * n + (c.toNat - 48))
      refine ⟨c :: taken, ?_, ?_⟩
      · rw [List.cons_append, ← hd]
      · rw [hn, List.foldl_cons]
    · exact ⟨[], rfl, rfl⟩

/-- Whether a number is too large to be read. Of its digits only those count that fit 64 bits together; a digit
left out before the point raises the power of ten instead. -/
def isBeyondAll (n : Numeral) : Bool :=
  let places := n.fraction.getD []
  let (whole, left) := collect 0 n.whole
  let (significand, ignored) := collect whole places
  Double.isBeyondStepwise significand (left.length - (places.length - ignored.length) + n.exponent.getD 0)

/-- What a number stands for, if it is not too large. Whole numbers are those without fraction and exponent that
fit 64 bits; minus zero is not one of them. -/
def value? (n : Numeral) : Option Tree :=
  let whole := Digits.number n.whole
  if n.fraction.isNone && n.exponent.isNone && !n.negative && whole < UInt64.size then some (.int whole)
  else if n.fraction.isNone && n.exponent.isNone && n.negative && 0 < whole && whole ≤ .pow 2 63 then
    some (.int (-whole))
  else if n.isBeyondAll then none
  else some .real

theorem value?_ofNat {digits : List Char} (h : Digits.number digits < UInt64.size) :
    value? ⟨false, digits, none, none⟩ = some (.int (Digits.number digits)) := by
  unfold value?
  exact if_pos (by simpa using h)

end Numeral

end Exonym
