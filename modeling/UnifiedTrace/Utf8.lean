import Mathlib.Data.List.Basic

/-!
# UTF-8 Texts

Which byte sequences are UTF-8, as a matter of where they are cut: in front of a text, at an
ASCII byte, or in the middle of a character.

## Main results

* `isUtf8_append_iff_of_lt`: ASCII bytes in front of a text do not matter.
* `isUtf8_append_cons_iff`: an ASCII byte separates two texts.
* `not_isUtf8_take`: a character that is cut is not a text.
-/

namespace Utf8

/-! ### Characters -/

/-- An ASCII byte is its own encoding. -/
theorem utf8EncodeChar_of_lt {b : UInt8} (h : b.toNat < 0x80) :
    String.utf8EncodeChar (Char.ofNat b.toNat) = [b] := by
  have hchar : (Char.ofNat b.toNat).val.toNat = b.toNat := by
    rw [Char.ofNat, dif_pos (Or.inl (by omega))]
    rfl
  rw [String.utf8EncodeChar, if_pos (by rw [hchar]; omega), hchar]
  simp

/-- No encoding of a character is the beginning of another. -/
theorem utf8EncodeChar_append_inj {c c' : Char} {s s' : List UInt8}
    (h : String.utf8EncodeChar c ++ s = String.utf8EncodeChar c' ++ s') :
    c = c' ∧ s = s' := by
  have hdecode : ∀ (d : Char) (t : List UInt8),
      (String.utf8EncodeChar d ++ t).toByteArray.utf8DecodeChar? 0 = some d := by
    intro d t
    rw [List.toByteArray_append]
    exact ByteArray.utf8DecodeChar?_utf8EncodeChar_append
  have hc : c = c' := Option.some.inj ((hdecode c s).symm.trans (h ▸ hdecode c' s'))
  subst hc
  exact ⟨rfl, List.append_cancel_left h⟩

/-- A text that starts with an ASCII byte starts with no other character. -/
theorem toNat_of_utf8EncodeChar_append {c : Char} {b : UInt8} {s t : List UInt8}
    (hb : b.toNat < 0x80) (h : b :: t = String.utf8EncodeChar c ++ s) :
    c.toNat = b.toNat ∧ t = s := by
  rw [← List.singleton_append, ← utf8EncodeChar_of_lt hb] at h
  obtain ⟨rfl, rfl⟩ := utf8EncodeChar_append_inj h
  refine ⟨?_, rfl⟩
  rw [Char.ofNat, dif_pos (Or.inl (by omega))]
  rfl

/-- Every character takes at least one byte. -/
theorem utf8EncodeChar_ne_nil (c : Char) : String.utf8EncodeChar c ≠ [] := by
  intro h
  have hlen := String.length_utf8EncodeChar c
  have hpos := c.utf8Size_pos
  rw [h, List.length_nil] at hlen
  omega

/-- The characters of one byte. -/
theorem utf8EncodeChar_of_utf8Size_eq_one {c : Char} (h : c.utf8Size = 1) :
    c.toNat < 0x80 ∧ String.utf8EncodeChar c = [UInt8.ofNat c.toNat] := by
  have hle : c.val.toNat ≤ 127 := UInt32.le_iff_toNat_le.mp (Char.utf8Size_eq_one_iff.mp h)
  refine ⟨Nat.lt_succ_of_le hle, ?_⟩
  rw [String.utf8EncodeChar, if_pos hle]
  rfl

/-- A continuation byte is not ASCII. -/
theorem le_ofNat_add {m k base : ℕ} (hk : 0 < k) (hbase : 0x80 ≤ base) (hle : k + base ≤ 256) :
    (0x80 : UInt8) ≤ UInt8.ofNat (m % k + base) := by
  have hlt := Nat.mod_lt m hk
  rw [UInt8.le_iff_toNat_le, UInt8.toNat_ofNat_of_lt' (by show _ < 256; omega)]
  show 128 ≤ _
  omega

/-- The other characters have no ASCII byte. -/
theorem le_of_mem_utf8EncodeChar {c : Char} (h : c.utf8Size ≠ 1) {b : UInt8}
    (hb : b ∈ String.utf8EncodeChar c) : 0x80 ≤ b := by
  have hgt : ¬ c.val.toNat ≤ 127 := fun hle =>
    h (Char.utf8Size_eq_one_iff.mpr (UInt32.le_iff_toNat_le.mpr hle))
  rw [String.utf8EncodeChar, if_neg hgt] at hb
  split at hb
  · simp only [List.mem_cons, List.not_mem_nil, or_false] at hb
    rcases hb with rfl | rfl
    · exact le_ofNat_add (by omega) (by omega) (by omega)
    · exact le_ofNat_add (by omega) (by omega) (by omega)
  · split at hb
    · simp only [List.mem_cons, List.not_mem_nil, or_false] at hb
      rcases hb with rfl | rfl | rfl
      · exact le_ofNat_add (by omega) (by omega) (by omega)
      · exact le_ofNat_add (by omega) (by omega) (by omega)
      · exact le_ofNat_add (by omega) (by omega) (by omega)
    · simp only [List.mem_cons, List.not_mem_nil, or_false] at hb
      rcases hb with rfl | rfl | rfl | rfl
      · exact le_ofNat_add (by omega) (by omega) (by omega)
      · exact le_ofNat_add (by omega) (by omega) (by omega)
      · exact le_ofNat_add (by omega) (by omega) (by omega)
      · exact le_ofNat_add (by omega) (by omega) (by omega)

/-- An ASCII byte is the whole of its character. -/
theorem utf8EncodeChar_eq_of_mem {c : Char} {b : UInt8} (hb : b < 0x80)
    (h : b ∈ String.utf8EncodeChar c) : String.utf8EncodeChar c = [b] := by
  rcases eq_or_ne c.utf8Size 1 with hone | hmany
  · obtain ⟨-, hbytes⟩ := utf8EncodeChar_of_utf8Size_eq_one hone
    rw [hbytes] at h ⊢
    rw [List.mem_singleton.mp h]
  · exact absurd hb (UInt8.not_lt.mpr (le_of_mem_utf8EncodeChar hmany h))

/-! ### Texts -/

/-- That a text is ASCII is decided byte by byte of the text, not over all bytes. -/
instance (priority := high) decidableAscii (s : List UInt8) : Decidable (∀ b ∈ s, b < 0x80) :=
  List.decidableBAll _ s

/-- The encoding of a sequence of characters. -/
def encode (cs : List Char) : List UInt8 := cs.flatMap String.utf8EncodeChar

/-- The bytes are the encoding of some characters. -/
def IsUtf8 (b : List UInt8) : Prop := b.toByteArray.IsValidUTF8

/-- UTF-8 is what encodes some characters. -/
theorem isUtf8_iff {b : List UInt8} : IsUtf8 b ↔ ∃ cs, b = encode cs := by
  constructor
  · rintro ⟨cs, hcs⟩
    exact ⟨cs, by simpa [List.utf8Encode, encode] using hcs⟩
  · rintro ⟨cs, rfl⟩
    exact ⟨cs, rfl⟩

@[simp] theorem encode_nil : encode [] = [] := rfl

/-- The first character is encoded first. -/
theorem encode_cons (c : Char) (cs : List Char) :
    encode (c :: cs) = String.utf8EncodeChar c ++ encode cs :=
  List.flatMap_cons ..

/-- Texts are encoded one after the other. -/
theorem encode_append (cs ds : List Char) : encode (cs ++ ds) = encode cs ++ encode ds :=
  List.flatMap_append ..

/-- Different characters give different texts. -/
theorem encode_injective {cs ds : List Char} (h : encode cs = encode ds) : cs = ds := by
  induction cs generalizing ds with
  | nil =>
      cases ds with
      | nil => rfl
      | cons d ds =>
          rw [encode_nil, encode_cons] at h
          exact absurd (List.append_eq_nil_iff.mp h.symm).1 (utf8EncodeChar_ne_nil d)
  | cons c cs ih =>
      cases ds with
      | nil =>
          rw [encode_nil, encode_cons] at h
          exact absurd (List.append_eq_nil_iff.mp h).1 (utf8EncodeChar_ne_nil c)
      | cons d ds =>
          rw [encode_cons, encode_cons] at h
          obtain ⟨rfl, hrest⟩ := utf8EncodeChar_append_inj h
          rw [ih hrest]

/-- The characters of a text; none where the bytes are not a text. -/
def decode (b : List UInt8) : List Char := b.toByteArray.utf8Decode?.elim [] Array.toList

/-- Encoding loses nothing. -/
@[simp] theorem decode_encode (cs : List Char) : decode (encode cs) = cs := by
  show (List.utf8Encode cs).utf8Decode?.elim [] Array.toList = cs
  rw [List.utf8Decode?_utf8Encode]
  rfl

/-- An encoding is UTF-8. -/
theorem isUtf8_encode (cs : List Char) : IsUtf8 (encode cs) := isUtf8_iff.mpr ⟨cs, rfl⟩

/-- UTF-8 after UTF-8. -/
theorem IsUtf8.append {s t : List UInt8} (hs : IsUtf8 s) (ht : IsUtf8 t) : IsUtf8 (s ++ t) := by
  obtain ⟨cs, rfl⟩ := isUtf8_iff.mp hs
  obtain ⟨ds, rfl⟩ := isUtf8_iff.mp ht
  rw [← encode_append]
  exact isUtf8_encode _

/-- The encoding of one character is UTF-8. -/
theorem isUtf8_utf8EncodeChar (c : Char) : IsUtf8 (String.utf8EncodeChar c) :=
  isUtf8_iff.mpr ⟨[c], by rw [encode_cons, encode_nil, List.append_nil]⟩

/-- A character in front of a text does not matter. -/
theorem isUtf8_utf8EncodeChar_append_iff {c : Char} {s : List UInt8} :
    IsUtf8 (String.utf8EncodeChar c ++ s) ↔ IsUtf8 s := by
  refine ⟨fun h => ?_, (isUtf8_utf8EncodeChar c).append⟩
  obtain ⟨cs, hcs⟩ := isUtf8_iff.mp h
  cases cs with
  | nil => exact absurd (List.append_eq_nil_iff.mp hcs).1 (utf8EncodeChar_ne_nil c)
  | cons d ds =>
      obtain ⟨-, rfl⟩ := utf8EncodeChar_append_inj (hcs.trans (encode_cons d ds))
      exact isUtf8_encode ds

/-- An ASCII byte in front of a text does not matter. -/
theorem isUtf8_cons_iff {b : UInt8} {s : List UInt8} (h : b < 0x80) :
    IsUtf8 (b :: s) ↔ IsUtf8 s := by
  rw [← List.singleton_append, ← utf8EncodeChar_of_lt (UInt8.lt_iff_toNat_lt.mp h),
    isUtf8_utf8EncodeChar_append_iff]

/-- ASCII bytes in front of a text do not matter. -/
theorem isUtf8_append_iff_of_lt {s t : List UInt8} (h : ∀ b ∈ s, b < 0x80) :
    IsUtf8 (s ++ t) ↔ IsUtf8 t := by
  induction s with
  | nil => rw [List.nil_append]
  | cons b s ih =>
      obtain ⟨hb, hs⟩ := List.forall_mem_cons.mp h
      rw [List.cons_append, isUtf8_cons_iff hb, ih hs]

/-- An ASCII byte separates two texts. -/
theorem isUtf8_append_cons_iff {b : UInt8} {s t : List UInt8} (h : b < 0x80) :
    IsUtf8 (s ++ b :: t) ↔ IsUtf8 s ∧ IsUtf8 t := by
  refine ⟨fun hst => ?_, fun ⟨hs, ht⟩ => hs.append ((isUtf8_cons_iff h).mpr ht)⟩
  obtain ⟨cs, hcs⟩ := isUtf8_iff.mp hst
  clear hst
  induction cs generalizing s with
  | nil => exact absurd hcs (by simp)
  | cons c cs ih =>
      rw [encode_cons] at hcs
      rcases List.append_eq_append_iff.mp hcs with ⟨u, hu, hbt⟩ | ⟨u, rfl, hrest⟩
      · rcases List.cons_eq_append_iff.mp hbt with ⟨rfl, hrest⟩ | ⟨u, rfl, rfl⟩
        · -- the byte comes right after the first character
          rw [List.append_nil] at hu
          obtain ⟨-, ht⟩ := @ih [] hrest.symm
          exact ⟨hu ▸ isUtf8_utf8EncodeChar c, ht⟩
        · -- the byte is that character
          have hsingle := utf8EncodeChar_eq_of_mem h (hu ▸ List.mem_append_right s
            List.mem_cons_self)
          rw [hsingle] at hu
          obtain ⟨rfl, hu'⟩ : s = [] ∧ u = [] := by
            have hlen := congrArg List.length hu
            rw [List.length_append, List.length_cons, List.length_cons, List.length_nil] at hlen
            exact ⟨List.length_eq_zero_iff.mp (by omega), List.length_eq_zero_iff.mp (by omega)⟩
          rw [hu', List.nil_append]
          exact ⟨isUtf8_encode [], isUtf8_encode cs⟩
      · obtain ⟨hu, ht⟩ := ih hrest.symm
        exact ⟨isUtf8_utf8EncodeChar_append_iff.mpr hu, ht⟩

/-- ASCII bytes separate two texts. -/
theorem isUtf8_append_append_iff {s l t : List UInt8} (hl : ∀ b ∈ l, b < 0x80) (hne : l ≠ []) :
    IsUtf8 (s ++ (l ++ t)) ↔ IsUtf8 s ∧ IsUtf8 t := by
  obtain ⟨b, l, rfl⟩ := List.exists_cons_of_ne_nil hne
  obtain ⟨hb, hl⟩ := List.forall_mem_cons.mp hl
  rw [List.cons_append, isUtf8_append_cons_iff hb, isUtf8_append_iff_of_lt hl]

/-- A character that is cut is not a text. -/
theorem not_isUtf8_take {c : Char} {n : ℕ} (hpos : 0 < n) (hlt : n < c.utf8Size) :
    ¬ IsUtf8 ((String.utf8EncodeChar c).take n) := by
  intro h
  obtain ⟨cs, hcs⟩ := isUtf8_iff.mp h
  have hlen := congrArg List.length hcs
  rw [List.length_take, String.length_utf8EncodeChar] at hlen
  cases cs with
  | nil =>
      rw [encode_nil, List.length_nil] at hlen
      omega
  | cons d ds =>
      have hsplit := List.take_append_drop n (String.utf8EncodeChar c)
      rw [hcs, encode_cons, List.append_assoc, ← List.append_nil (String.utf8EncodeChar c)]
        at hsplit
      obtain ⟨rfl, -⟩ := utf8EncodeChar_append_inj hsplit
      rw [encode_cons, List.length_append, String.length_utf8EncodeChar] at hlen
      omega

end Utf8
