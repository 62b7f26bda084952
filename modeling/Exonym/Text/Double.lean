import Exonym.Text.Digits

/-!
# The range of doubles

Nothing is ever a number with a fraction or an exponent, but such numbers may stand where nobody asked for a value,
and there they have to be in the range of doubles. Two rules say whether one is. The exact rule asks for the double
that is nearest to the number. The stepwise rule takes the digits and the power of ten as doubles of their own and
multiplies them, so that it may decide otherwise next to the limit.

Main statements:

* `Double.round_of_lt`: what fits 53 bits is rounded to itself.
* `Double.round_within`: rounding moves a number by no more than half a unit in its last place.
-/

namespace Exonym.Double

/-- The distance between doubles of the size of a whole number. -/
def unit (n : Nat) : Nat :=
  .pow 2 (n.log2 + 1 - 53)

/-- The nearest double of a whole number, a tie going to the even neighbour; the exponent has no limit here. -/
def round (n : Nat) : Nat :=
  let u := unit n
  let r := n % u
  if 2 * r < u ∨ (2 * r = u ∧ n / u % 2 = 0) then n / u * u else (n / u + 1) * u

/-- No double is as large as this. -/
def limit : Nat := .pow 2 1024

/-- The least whole number that is rounded to the limit. -/
def roundedToLimit : Nat := .pow 2 1024 - .pow 2 970

theorem unit_of_lt {n : Nat} (h : n < .pow 2 53) : unit n = 1 := by
  have : n.log2 + 1 - 53 = 0 := by
    by_cases h0 : n = 0
    · simp [h0]
    · have := (Nat.log2_lt h0).2 h
      omega
  simp [unit, this]

theorem round_of_lt {n : Nat} (h : n < .pow 2 53) : round n = n := by
  simp [round, unit_of_lt h, Nat.mod_one]

theorem round_within (n : Nat) : 2 * n ≤ 2 * round n + unit n ∧ 2 * round n ≤ 2 * n + unit n := by
  have hn := Nat.div_add_mod n (unit n)
  have hr : n % unit n < unit n := Nat.mod_lt _ (Nat.two_pow_pos _)
  have hc := Nat.mul_comm (unit n) (n / unit n)
  have hs := Nat.add_one_mul (n / unit n) (unit n)
  simp only [round]
  split <;> omega

/-- Whether `digits` times ten to the `exponent` is nearest to no double. The size is told from the number of
digits where that is enough. -/
def isBeyond (digits : List Char) (exponent : Int) : Bool :=
  let significant := digits.dropWhile (· = '0')
  let size := significant.length + exponent
  if significant.isEmpty || size ≤ 308 then false
  else if 310 ≤ size then true
  else if 0 ≤ exponent then roundedToLimit ≤ Digits.number significant * .pow 10 exponent.toNat
  else roundedToLimit * .pow 10 (-exponent).toNat ≤ Digits.number significant

/-- Whether the product of `n` and ten to the `exponent` is beyond all doubles, both rounded before they are
multiplied. -/
def isBeyondStepwise (n : Nat) (exponent : Int) : Bool :=
  if n = 0 || exponent < 0 then false
  else if 308 < exponent then true
  else limit ≤ round (round n * round (.pow 10 exponent.toNat))

end Exonym.Double
