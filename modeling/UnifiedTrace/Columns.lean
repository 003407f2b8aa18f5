import Mathlib.Data.List.DropRight
import UnifiedTrace.JsonText

/-!
# Columns

The left-justified columns that `%-wd` and `%-ws` write, and what can be read back from a text
that is made of them. A number ends at the first blank, however wide its column is; a string
that fits takes exactly the width of its column, so it can hold any bytes, and only blanks at
its end are not seen.

## Main results

* `signed_injective`: `%d` writes different numbers differently.
* `signed_column_inj`: a number and what follows its column are determined by the text.
* `text_column_inj`: so are a string that fits, up to blanks at its end, and what follows it.
-/

namespace Printf

open Json

/-- `%-ws`: blanks on the right up to a width. -/
def leftJustify (width : ℕ) (text : List UInt8) : List UInt8 :=
  text ++ List.replicate (width - text.length) 0x20

/-- A text without the blanks at its end. -/
def trimRight (text : List UInt8) : List UInt8 := text.rdropWhile (· = 0x20)

/-! ### Numbers -/

/-- Only numbers below ten have one digit. -/
theorem length_decimal_eq_one_iff {n : ℕ} : (decimal n).length = 1 ↔ n < 10 := by
  rcases Nat.lt_or_ge n 10 with h | h
  · exact iff_of_true (by rw [decimal_of_lt h]; rfl) h
  · have hfront := List.length_pos_of_ne_nil (isDigits_decimal (n / 10)).1.1
    have hlast := List.length_pos_of_ne_nil (isDigits_decimal (n % 10)).1.1
    refine iff_of_false ?_ (Nat.not_lt.mpr h)
    rw [decimal_of_le h, List.length_append]
    omega

/-- **`%u`** writes different numbers differently. -/
theorem decimal_injective : Function.Injective decimal := by
  intro m n h
  induction m using Nat.strongRecOn generalizing n with
  | ind m ih =>
      have hiff : m < 10 ↔ n < 10 := by
        rw [← length_decimal_eq_one_iff, h, length_decimal_eq_one_iff]
      rcases Nat.lt_or_ge m 10 with hm | hm
      · -- one digit each
        have hn := hiff.mp hm
        rw [decimal_of_lt hm, decimal_of_lt hn] at h
        have hnat := congrArg UInt8.toNat (List.cons.inj h).1
        rw [UInt8.toNat_ofNat', UInt8.toNat_ofNat'] at hnat
        omega
      · have hn : 10 ≤ n := Nat.not_lt.mp fun hlt => Nat.not_lt.mpr hm (hiff.mpr hlt)
        rw [decimal_of_le hm, decimal_of_le hn] at h
        have hlen : ∀ k, (decimal (k % 10)).length = 1 := fun k =>
          length_decimal_eq_one_iff.mpr (Nat.mod_lt k (by decide))
        obtain ⟨hfront, hlast⟩ := List.append_inj' h ((hlen m).trans (hlen n).symm)
        have hdiv := ih (m / 10) (by omega) hfront
        have hmod := ih (m % 10) (by omega) hlast
        omega

/-- **`%d`** writes different numbers differently. -/
theorem signed_injective : Function.Injective signed := by
  -- a minus sign is no digit
  have hsign : ∀ (m n : ℕ), signed (Int.ofNat m) ≠ signed (Int.negSucc n) := by
    intro m n h
    have hminus : (0x2D : UInt8) ∈ decimal m := by
      rw [show decimal m = 0x2D :: decimal (n + 1) from h]
      exact List.mem_cons_self
    exact absurd ((isDigits_decimal m).1.2 _ hminus) (by decide)
  intro m n h
  cases m with
  | ofNat m =>
      cases n with
      | ofNat n => exact congrArg Int.ofNat (decimal_injective h)
      | negSucc n => exact absurd h (hsign m n)
  | negSucc m =>
      cases n with
      | ofNat n => exact absurd h.symm (hsign n m)
      | negSucc n =>
          exact congrArg Int.negSucc (Nat.succ.inj (decimal_injective (List.cons.inj h).2))

/-! ### Columns -/

/-- **A number** is read up to the first blank. -/
theorem signed_column_inj {width : ℕ} {m n : ℤ} {x y : List UInt8}
    (h : leftJustify width (signed m) ++ 0x20 :: x = leftJustify width (signed n) ++ 0x20 :: y) :
    m = n ∧ x = y := by
  have hends : ∀ (k : ℕ) (r : List UInt8), EndsNumber (List.replicate k 0x20 ++ 0x20 :: r) :=
    fun k r => endsNumber_ws (fun b hb => .inl (List.eq_of_mem_replicate hb)) (by decide) r
  rw [leftJustify, leftJustify, List.append_assoc, List.append_assoc] at h
  obtain ⟨htext, hrest⟩ := EndsNumber.unique (isNumber_signed m).isNumberByte
    (isNumber_signed n).isNumberByte (hends _ x) (hends _ y) h
  rw [htext] at hrest
  exact ⟨signed_injective htext, (List.cons.inj (List.append_cancel_left hrest)).2⟩

/-- Blanks at the end do not count. -/
@[simp]
theorem trimRight_append_blanks (text : List UInt8) (k : ℕ) :
    trimRight (text ++ List.replicate k 0x20) = trimRight text := by
  induction k with
  | zero => rw [List.replicate_zero, List.append_nil]
  | succ k ih =>
      rw [List.replicate_succ', ← List.append_assoc, trimRight,
        List.rdropWhile_concat_pos _ _ _ (by decide)]
      exact ih

/-- What was trimmed off are blanks. -/
theorem exists_eq_trimRight_append (text : List UInt8) :
    ∃ k, text = trimRight text ++ List.replicate k 0x20 := by
  refine ⟨(text.rtakeWhile (· = 0x20)).length, ?_⟩
  have hblank : text.rtakeWhile (· = 0x20) =
      List.replicate (text.rtakeWhile (· = 0x20)).length 0x20 :=
    List.eq_replicate_length.mpr fun b hb => by simpa using List.mem_rtakeWhile_imp hb
  rw [← hblank]
  exact List.rdropWhile_append_rtakeWhile.symm

/-- A column shows its text up to blanks at the end. -/
theorem leftJustify_eq_iff {width : ℕ} {s t : List UInt8} (hs : s.length ≤ width)
    (ht : t.length ≤ width) :
    leftJustify width s = leftJustify width t ↔ trimRight s = trimRight t := by
  constructor
  · intro h
    have htrim := congrArg trimRight h
    rwa [leftJustify, leftJustify, trimRight_append_blanks, trimRight_append_blanks] at htrim
  · intro h
    obtain ⟨j, hj⟩ := exists_eq_trimRight_append s
    obtain ⟨k, hk⟩ := exists_eq_trimRight_append t
    have hcolumn : ∀ (u : List UInt8) (i : ℕ),
        (u ++ List.replicate i (0x20 : UInt8)).length ≤ width →
        leftJustify width (u ++ List.replicate i 0x20) =
          u ++ List.replicate (width - u.length) 0x20 := by
      intro u i hle
      rw [List.length_append, List.length_replicate] at hle
      rw [leftJustify, List.append_assoc, List.replicate_append_replicate, List.length_append,
        List.length_replicate]
      congr 2
      omega
    rw [hj] at hs ⊢
    rw [hk] at ht ⊢
    rw [hcolumn _ j hs, hcolumn _ k ht, h]

/-- A text that fits is padded to the width of its column. -/
theorem length_leftJustify {width : ℕ} {text : List UInt8} (h : text.length ≤ width) :
    (leftJustify width text).length = width := by
  rw [leftJustify, List.length_append, List.length_replicate]
  omega

/-- **A string** that fits is read by the width of its column. -/
theorem text_column_inj {width : ℕ} {s t x y : List UInt8} (hs : s.length ≤ width)
    (ht : t.length ≤ width) (h : leftJustify width s ++ x = leftJustify width t ++ y) :
    trimRight s = trimRight t ∧ x = y := by
  obtain ⟨hcolumn, hrest⟩ := List.append_inj h
    ((length_leftJustify hs).trans (length_leftJustify ht).symm)
  exact ⟨(leftJustify_eq_iff hs ht).mp hcolumn, hrest⟩

end Printf
