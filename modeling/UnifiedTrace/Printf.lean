import UnifiedTrace.Binary64

/-!
# Numbers as `printf` Writes Them

The conversions `%u`, `%d`, `%x`, `%0wx` and `%.nf` as byte strings.

`%.nf` prints the decimal number nearest to its argument, which is a `double`. Where the program
computes the argument as a quotient of integers, two roundings are made: one by the division, one
by the conversion.

## Main results

* `fixed_ofNat_div_pow`: with as many digits as the denominator has zeros, small quotients are
  shown exactly.
* `fixed_ofNat_div_two_pow`: a quotient by a power of two is only rounded by the conversion.
-/

namespace Printf

open Binary64

/-- The digits of a number, most significant first. -/
def digits (base n : ℕ) : List UInt8 :=
  (Nat.toDigits base n).map fun c => UInt8.ofNat c.toNat

/-- `%u`. -/
def decimal (n : ℕ) : List UInt8 := digits 10 n

/-- `%d`. -/
def signed : ℤ → List UInt8
  | Int.ofNat n => decimal n
  | Int.negSucc n => 0x2D :: decimal (n + 1)

/-- `%x`. -/
def hex (n : ℕ) : List UInt8 := digits 16 n

/-- Zeros on the left up to a width. -/
def zeroPad (width : ℕ) (text : List UInt8) : List UInt8 :=
  List.replicate (width - text.length) 0x30 ++ text

/-- A number of `10 ^ -ndigits` with its decimal point. -/
def point (ndigits n : ℕ) : List UInt8 :=
  decimal (n / 10 ^ ndigits) ++ 0x2E :: zeroPad ndigits (decimal (n % 10 ^ ndigits))

/-- `%.nf`, for a positive number of digits: the nearest number that has them, ties to even. -/
def fixed (ndigits : ℕ) (x : Double) : List UInt8 :=
  point ndigits (roundHalfEven (x.units * 10 ^ ndigits) one)

/-- As many digits as the denominator has zeros show a small quotient exactly. -/
theorem fixed_ofNat_div_pow {ndigits n k : ℕ} (hk : 10 ^ ndigits < 2 ^ (precision - k))
    (h : n ≤ 2 ^ k * 10 ^ ndigits) (hn : n < 2 ^ precision)
    (hpow : 10 ^ ndigits < 2 ^ precision) :
    fixed ndigits (.ofNat n / .ofNat (10 ^ ndigits)) = point ndigits n := by
  rw [fixed, Double.ofNat_div_ofNat hn hpow,
    Double.roundHalfEven_ofQuotient (Nat.pow_pos (by decide)) hk h]

/-- A quotient by a power of two is rounded once, by the conversion. -/
theorem fixed_ofNat_div_two_pow (ndigits : ℕ) {n k : ℕ} (hn : n < 2 ^ precision)
    (hk : k < precision) :
    fixed ndigits (.ofNat n / .ofNat (2 ^ k)) =
      point ndigits (roundHalfEven (n * 10 ^ ndigits) (2 ^ k)) := by
  have hplaces : k ≤ places := Nat.le_trans (Nat.le_of_lt hk) (by decide)
  have hscale : one = 2 ^ k * 2 ^ (places - k) := by
    rw [← Nat.pow_add, Nat.add_sub_cancel' hplaces, one]
  rw [fixed, Double.ofNat_div_ofNat hn (Nat.pow_lt_pow_right (by decide) hk),
    Double.units_ofQuotient_two_pow hn hplaces, Nat.mul_right_comm, hscale,
    roundHalfEven_mul_mul _ _ (Nat.two_pow_pos _)]

/-- Numbers below ten have one digit. -/
theorem decimal_of_lt {n : ℕ} (h : n < 10) : decimal n = [UInt8.ofNat (0x30 + n)] := by
  have hchar : ∀ m < 10, UInt8.ofNat (Nat.digitChar m).toNat = UInt8.ofNat (0x30 + m) := by
    decide
  rw [decimal, digits, Nat.toDigits_of_lt_base h, List.map_singleton, hchar n h]

/-- Larger numbers end in their last digit. -/
theorem decimal_of_le {n : ℕ} (h : 10 ≤ n) :
    decimal n = decimal (n / 10) ++ decimal (n % 10) := by
  rw [decimal, decimal, decimal, digits, digits, digits,
    Nat.toDigits_of_base_le (by decide) h, Nat.toDigits_of_lt_base (Nat.mod_lt n (by decide)),
    List.map_append]

end Printf
