import Mathlib.Algebra.Order.Group.Nat
import Mathlib.Algebra.Order.Ring.Nat
import Mathlib.Tactic.Ring

/-!
# Double Precision Numbers

The nonnegative numbers of the IEEE 754 format binary64, each a multiple of `2 ^ -1074`, the
smallest of them. An arithmetic operation gives the double nearest to its exact result, and of
two that are equally near the one whose last bit is zero. There is no infinity: the exponent has
no upper bound here.

## Main results

* `two_mul_roundHalfEven`: rounding to a whole number errs by at most one half.
* `Double.units_ofQuotient`: a quotient that is a double is not rounded.
* `Double.near_ofQuotient`: the error of a quotient is half a unit of its last place at most.
* `Double.roundHalfEven_ofQuotient`: small quotients determine their numerators.
-/

namespace Binary64

/-! ### Rounding to whole numbers -/

/-- The integer nearest to `num / den`, ties to even. -/
def roundHalfEven (num den : ℕ) : ℕ :=
  let q := num / den
  let r := num % den
  if 2 * r < den ∨ 2 * r = den ∧ q % 2 = 0 then q else q + 1

/-- A quotient without remainder is not rounded. -/
theorem roundHalfEven_mul (n : ℕ) {den : ℕ} (h : 0 < den) : roundHalfEven (n * den) den = n := by
  rw [roundHalfEven, Nat.mul_div_cancel n h, Nat.mul_mod_left]
  exact if_pos (.inl h)

/-- Rounding goes up to the next integer at most. -/
theorem roundHalfEven_le (num den : ℕ) : roundHalfEven num den ≤ num / den + 1 := by
  rw [roundHalfEven]
  split
  · exact Nat.le_succ _
  · exact Nat.le_refl _

/-- Rounding errs by at most one half. -/
theorem two_mul_roundHalfEven (num : ℕ) {den : ℕ} (h : 0 < den) :
    2 * num ≤ 2 * (roundHalfEven num den * den) + den ∧
      2 * (roundHalfEven num den * den) ≤ 2 * num + den := by
  have hdiv : num / den * den + num % den = num := by
    rw [Nat.mul_comm]
    exact Nat.div_add_mod num den
  have hmod : num % den < den := Nat.mod_lt num h
  rw [roundHalfEven]
  split
  · rename_i hdown
    omega
  · rename_i hup
    rw [Nat.add_mul, Nat.one_mul]
    omega

/-- A number nearer than one half to an integer is rounded to it. -/
theorem roundHalfEven_eq {num den n : ℕ} (hlow : 2 * (n * den) < 2 * num + den)
    (hhigh : 2 * num < 2 * (n * den) + den) : roundHalfEven num den = n := by
  have hden : 0 < den := by
    rcases Nat.eq_zero_or_pos den with rfl | hpos
    · exact absurd (Nat.lt_trans hlow hhigh) (by simp)
    · exact hpos
  obtain ⟨hle, hge⟩ := two_mul_roundHalfEven num hden
  -- the difference is a multiple of `den` that is smaller than `den`
  rcases Nat.lt_trichotomy (roundHalfEven num den) n with hlt | heq | hgt
  · have hmul : (roundHalfEven num den + 1) * den ≤ n * den := Nat.mul_le_mul_right den hlt
    rw [Nat.add_mul, Nat.one_mul] at hmul
    omega
  · exact heq
  · have hmul : (n + 1) * den ≤ roundHalfEven num den * den := Nat.mul_le_mul_right den hgt
    rw [Nat.add_mul, Nat.one_mul] at hmul
    omega

/-- Only the quotient matters. -/
theorem roundHalfEven_mul_mul (num den : ℕ) {c : ℕ} (h : 0 < c) :
    roundHalfEven (num * c) (den * c) = roundHalfEven num den := by
  rw [roundHalfEven, roundHalfEven, Nat.mul_div_mul_right _ _ h, Nat.mul_mod_mul_right,
    ← Nat.mul_assoc]
  exact if_congr (or_congr (Nat.mul_lt_mul_right h)
    (and_congr_left' (Nat.mul_left_inj (Nat.ne_of_gt h)))) rfl rfl

/-! ### Doubles -/

/-- Binary places of a double after the point. -/
def places : ℕ := 1074

/-- How many times the smallest positive double is contained in one. -/
def one : ℕ := 2 ^ places

/-- Significant bits of a double. -/
def precision : ℕ := 53

/-- A multiple of the smallest positive double that is a double. -/
def Representable (n : ℕ) : Prop := ∃ m q, m < 2 ^ precision ∧ n = m * 2 ^ q

/-- A double, as a multiple of the smallest positive one. -/
structure Double where
  units : ℕ
  representable : Representable units

theorem one_pos : 0 < one := Nat.two_pow_pos places

/-- The number of zero bits at the end of a double whose integer part is `n`. -/
def ulpBits (n : ℕ) : ℕ := n.log2 + 1 - precision

/-- The double nearest to `num / den`, as a multiple of the smallest one. -/
def quotientUnits (num den : ℕ) : ℕ :=
  let q := ulpBits (num * one / den)
  roundHalfEven (num * one) (den * 2 ^ q) * 2 ^ q

/-- Without its last bits a number has as many bits as a double has. -/
theorem div_ulpBits_lt (n : ℕ) : n / 2 ^ ulpBits n < 2 ^ precision := by
  rw [Nat.div_lt_iff_lt_mul (Nat.two_pow_pos _), ← Nat.pow_add]
  exact Nat.lt_of_lt_of_le Nat.lt_log2_self
    (Nat.pow_le_pow_right (by decide) (by rw [ulpBits]; omega))

/-- A rounded quotient is a double. -/
theorem representable_quotientUnits (num den : ℕ) : Representable (quotientUnits num den) := by
  have hlt := div_ulpBits_lt (num * one / den)
  rw [quotientUnits]
  generalize ulpBits (num * one / den) = q at hlt ⊢
  have hle := roundHalfEven_le (num * one) (den * 2 ^ q)
  rw [← Nat.div_div_eq_div_mul] at hle
  rcases Nat.lt_or_ge (roundHalfEven (num * one) (den * 2 ^ q)) (2 ^ precision) with hm | hm
  · exact ⟨_, q, hm, rfl⟩
  · -- rounded up to the next power of two
    have hpow : roundHalfEven (num * one) (den * 2 ^ q) = 2 ^ precision :=
      Nat.le_antisymm (Nat.le_trans hle hlt) hm
    refine ⟨1, precision + q, Nat.one_lt_two_pow (by decide), ?_⟩
    rw [hpow, Nat.pow_add, Nat.one_mul]

namespace Double

/-- The double nearest to `num / den`. -/
def ofQuotient (num den : ℕ) : Double := ⟨quotientUnits num den, representable_quotientUnits ..⟩

/-- The conversion of an integer. -/
def ofNat (n : ℕ) : Double := ofQuotient n 1

instance : Mul Double := ⟨fun x y => ofQuotient (x.units * y.units) (one * one)⟩

instance : Div Double := ⟨fun x y => ofQuotient x.units y.units⟩

end Double

/-! ### Exact results -/

/-- A double is a multiple of the unit of its last place. -/
theorem Representable.two_pow_dvd {n : ℕ} (h : Representable n) : 2 ^ ulpBits n ∣ n := by
  obtain ⟨m, q, hm, rfl⟩ := h
  rcases Nat.eq_zero_or_pos m with rfl | hpos
  · rw [Nat.zero_mul]
    exact Nat.dvd_zero _
  -- a number with at most 53 bits before its `q` zeros has no more than `q` bits to lose
  refine Nat.dvd_trans (Nat.pow_dvd_pow 2 ?_) (Nat.dvd_mul_left _ m)
  have hlt : m * 2 ^ q < 2 ^ (precision + q) := by
    rw [Nat.pow_add]
    exact Nat.mul_lt_mul_of_pos_right hm (Nat.two_pow_pos q)
  have hlog : (m * 2 ^ q).log2 < precision + q :=
    (Nat.log2_lt (Nat.ne_of_gt (Nat.mul_pos hpos (Nat.two_pow_pos q)))).mpr hlt
  rw [ulpBits]
  omega

/-- **A quotient that is a double is not rounded.** -/
theorem Double.units_ofQuotient {num den n : ℕ} (hden : 0 < den) (hn : Representable n)
    (h : num * one = n * den) : (ofQuotient num den).units = n := by
  obtain ⟨k, hk⟩ := hn.two_pow_dvd
  rw [Nat.mul_comm] at hk
  change quotientUnits num den = n
  rw [quotientUnits, h, Nat.mul_div_cancel n hden]
  generalize ulpBits n = q at hk ⊢
  rw [hk, Nat.mul_assoc, Nat.mul_comm (2 ^ q) den,
    roundHalfEven_mul k (Nat.mul_pos hden (Nat.two_pow_pos q))]

/-- Integers of at most 53 bits are doubles. -/
theorem Double.units_ofNat {n : ℕ} (h : n < 2 ^ precision) : (ofNat n).units = n * one :=
  units_ofQuotient Nat.one_pos ⟨n, places, h, rfl⟩ (Nat.mul_one _).symm

/-- Only the quotient matters. -/
theorem Double.ofQuotient_mul_mul (num den : ℕ) {c : ℕ} (h : 0 < c) :
    ofQuotient (num * c) (den * c) = ofQuotient num den := by
  have hunits : quotientUnits (num * c) (den * c) = quotientUnits num den := by
    rw [quotientUnits, quotientUnits, Nat.mul_right_comm num c one,
      Nat.mul_div_mul_right _ _ h]
    generalize ulpBits (num * one / den) = q
    rw [Nat.mul_right_comm den c, roundHalfEven_mul_mul _ _ h]
  simp only [ofQuotient, hunits]

/-- Integers of at most 53 bits are divided as integers. -/
theorem Double.ofNat_div_ofNat {m n : ℕ} (hm : m < 2 ^ precision) (hn : n < 2 ^ precision) :
    ofNat m / ofNat n = ofQuotient m n := by
  change ofQuotient (ofNat m).units (ofNat n).units = _
  rw [units_ofNat hm, units_ofNat hn, ofQuotient_mul_mul m n one_pos]

/-- Integers of at most 53 bits are multiplied as integers. -/
theorem Double.ofNat_mul_ofNat {m n : ℕ} (hm : m < 2 ^ precision) (hn : n < 2 ^ precision) :
    ofNat m * ofNat n = ofNat (m * n) := by
  change ofQuotient ((ofNat m).units * (ofNat n).units) (one * one) = ofQuotient (m * n) 1
  rw [units_ofNat hm, units_ofNat hn, Nat.mul_mul_mul_comm, ← Nat.one_mul (one * one),
    ← Nat.mul_assoc (m * n), Nat.mul_one]
  exact ofQuotient_mul_mul (m * n) 1 (Nat.mul_pos one_pos one_pos)

/-- Dividing by a power of two moves the binary point. -/
theorem Double.units_ofQuotient_two_pow {n : ℕ} (h : n < 2 ^ precision) {k : ℕ} (hk : k ≤ places) :
    (ofQuotient n (2 ^ k)).units = n * 2 ^ (places - k) := by
  refine units_ofQuotient (Nat.two_pow_pos k) ⟨n, places - k, h, rfl⟩ ?_
  rw [Nat.mul_assoc, ← Nat.pow_add, Nat.sub_add_cancel hk, one]

/-! ### Rounded results -/

/-- **The error of a quotient** is half a unit of its last place at most. -/
theorem Double.near_ofQuotient (num : ℕ) {den : ℕ} (hden : 0 < den) {q : ℕ}
    (h : ulpBits (num * one / den) ≤ q) :
    2 * (num * one) ≤ 2 * ((ofQuotient num den).units * den) + den * 2 ^ q ∧
      2 * ((ofQuotient num den).units * den) ≤ 2 * (num * one) + den * 2 ^ q := by
  have hunits : (ofQuotient num den).units * den =
      roundHalfEven (num * one) (den * 2 ^ ulpBits (num * one / den)) *
        (den * 2 ^ ulpBits (num * one / den)) := by
    change quotientUnits num den * den = _
    rw [quotientUnits, Nat.mul_assoc, Nat.mul_comm (2 ^ _) den]
  have hround := two_mul_roundHalfEven (num * one)
    (Nat.mul_pos hden (Nat.two_pow_pos (ulpBits (num * one / den))))
  have hpow : den * 2 ^ ulpBits (num * one / den) ≤ den * 2 ^ q :=
    Nat.mul_le_mul_left den (Nat.pow_le_pow_right (by decide) h)
  rw [hunits]
  exact ⟨Nat.le_trans hround.1 (Nat.add_le_add_left hpow _),
    Nat.le_trans hround.2 (Nat.add_le_add_left hpow _)⟩

/-- The last place of a quotient below a power of two. -/
theorem ulpBits_le {num den k : ℕ} (hden : 0 < den) (h : num < 2 ^ k * den)
    (hk : precision ≤ places + k) :
    ulpBits (num * one / den) ≤ places + k - precision := by
  rcases Nat.eq_zero_or_pos (num * one / den) with hzero | hpos
  · rw [hzero]
    exact Nat.zero_le _
  have hlt : num * one / den < 2 ^ (places + k) := by
    rw [Nat.div_lt_iff_lt_mul hden, Nat.pow_add, Nat.mul_comm num, Nat.mul_assoc]
    exact (Nat.mul_lt_mul_left one_pos).mpr h
  have hlog := (Nat.log2_lt (Nat.ne_of_gt hpos)).mpr hlt
  rw [ulpBits]
  omega

/-- **Small quotients determine their numerators**: multiplied by the denominator and rounded to
an integer, the double nearest to a quotient gives the numerator. -/
theorem Double.roundHalfEven_ofQuotient {num den k : ℕ} (hden : 0 < den)
    (hk : den < 2 ^ (precision - k)) (h : num ≤ 2 ^ k * den) :
    roundHalfEven ((ofQuotient num den).units * den) one = num := by
  have hprec : k < precision := by
    refine Nat.lt_of_not_le fun hle => ?_
    rw [Nat.sub_eq_zero_of_le hle, Nat.pow_zero] at hk
    exact absurd hk (Nat.not_lt_of_le hden)
  rcases Nat.lt_or_eq_of_le h with hlt | rfl
  · have hplace : precision ≤ places + k := Nat.le_add_right_of_le (by decide)
    obtain ⟨hlow, hhigh⟩ := near_ofQuotient num hden (ulpBits_le hden hlt hplace)
    -- half a unit of the last place, scaled, is less than one half
    have hunit : den * 2 ^ (places + k - precision) < one := by
      have hpow : one = 2 ^ (precision - k) * 2 ^ (places + k - precision) := by
        rw [← Nat.pow_add, one]
        congr 1
        omega
      rw [hpow]
      exact Nat.mul_lt_mul_of_pos_right hk (Nat.two_pow_pos _)
    exact roundHalfEven_eq (by omega) (by omega)
  · have hunits : (ofQuotient (2 ^ k * den) den).units = 2 ^ k * one := by
      refine units_ofQuotient hden ⟨2 ^ k, places, ?_, rfl⟩ (Nat.mul_right_comm ..)
      exact Nat.pow_lt_pow_right (by decide) hprec
    rw [hunits, Nat.mul_right_comm, roundHalfEven_mul _ one_pos]

end Binary64
