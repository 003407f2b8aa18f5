import Mathlib.Algebra.Order.Ring.Int
import Mathlib.Data.Int.Notation
import Mathlib.Data.Nat.Notation

/-!
# Numbers as `strtol` Reads Them

`strtol` with base ten skips whitespace, takes a sign and reads digits as far as they go. It
stops at the limits of a 64-bit `long`. `atoi` is its result as an `int`: it tells neither
whether there was a number nor where it ended, and what does not fit is reduced.

## Main results

* `toInt_atoi`: a number in the range of `int` is read as it is.
* `atoi_eq_zero_iff`: a positive number is read as `0` exactly when it is a multiple of
  `2 ^ 32` in the range of `long`.
-/

namespace Strtol

/-- `isspace`. -/
def isSpace (b : UInt8) : Bool := b = 0x20 || (0x09 ≤ b && b ≤ 0x0D)

/-- `isdigit`. -/
def isDigit (b : UInt8) : Bool := 0x30 ≤ b && b ≤ 0x39

/-- The number that digits write. -/
def digitsValue (ds : List UInt8) : ℕ := ds.foldl (fun n d => 10 * n + (d.toNat - 0x30)) 0

/-- The number at the start of a word and what comes after it; `none` if there is none. -/
def readNumber (w : List UInt8) : Option (ℤ × List UInt8) :=
  let body := w.dropWhile isSpace
  let rest :=
    if body.head? = some 0x2D ∨ body.head? = some 0x2B then body.tail else body
  let ds := rest.takeWhile isDigit
  if ds = [] then none
  else
    some (if body.head? = some 0x2D then -(digitsValue ds : ℤ) else digitsValue ds,
      rest.dropWhile isDigit)

/-- The value of type `long` that is nearest to a number. -/
def clampLong (z : ℤ) : ℤ := max (-2 ^ 63) (min z (2 ^ 63 - 1))

/-- `strtol(w, NULL, 10)`. -/
def strtol (w : List UInt8) : ℤ := (readNumber w).elim 0 fun r => clampLong r.1

/-- `atoi`. -/
def atoi (w : List UInt8) : Int32 := Int32.ofInt (strtol w)

/-- The whole word is a number. -/
def Writes (w : List UInt8) (n : ℤ) : Prop := readNumber w = some (n, [])

instance (w : List UInt8) (n : ℤ) : Decidable (Writes w n) :=
  inferInstanceAs (Decidable (_ = _))

/-- A text writes one number at most. -/
theorem Writes.unique {w : List UInt8} {m n : ℤ} (hm : Writes w m) (hn : Writes w n) : m = n :=
  congrArg Prod.fst (Option.some.inj (hm.symm.trans hn))

/-- The value is the number written, within the range of a `long`. -/
theorem Writes.strtol_eq {w : List UInt8} {n : ℤ} (h : Writes w n) : strtol w = clampLong n := by
  rw [strtol, h]
  rfl

/-- A number in the range of `int` is read as it is. -/
theorem toInt_atoi {w : List UInt8} {n : ℤ} (h : Writes w n) (hlow : -2 ^ 31 ≤ n)
    (hhigh : n < 2 ^ 31) : (atoi w).toInt = n := by
  have hclamp : clampLong n = n := by
    rw [clampLong]
    omega
  rw [atoi, h.strtol_eq, hclamp, Int32.toInt_ofInt]
  exact Int.bmod_eq_of_le (by show -(4294967296 / 2) ≤ n; omega)
    (by show n < (4294967296 + 1) / 2; omega)

/-- A positive number is read as `0` when the lower half of the `long` is zero. -/
theorem atoi_eq_zero_iff {w : List UInt8} {n : ℤ} (h : Writes w n) (hpos : 0 < n) :
    atoi w = 0 ↔ n < 2 ^ 63 ∧ 2 ^ 32 ∣ n := by
  rw [atoi, h.strtol_eq, ← Int32.toInt_inj, Int32.toInt_ofInt, Int32.toInt_zero,
    ← Int.dvd_iff_bmod_eq_zero, clampLong]
  show (4294967296 : ℤ) ∣ _ ↔ _
  omega

end Strtol
