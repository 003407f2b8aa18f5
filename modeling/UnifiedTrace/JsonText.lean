import Mathlib.Data.List.Forall2
import UnifiedTrace.JsonGrammar
import UnifiedTrace.Printf

/-!
# Writing JSON

Texts whose reading is known whatever follows them: numbers as `printf` writes them, strings,
objects and arrays put together from parts. `Field` is a member of an object that carries the
proof that its text reads as its value, so an object can be written from fields without
looking at them again; since the grammar is unambiguous, the same facts say what any reading
of such a text is.

## Main results

* `Reads.object`, `Reads.arr`: objects and arrays read as their parts.
* `ReadsValue.object_inv`, `ReadsElements.walk`: a member or an element of unknown text
  between known ones is read from that text.
* `Denotes.of_isUtf8`: a UTF-8 text without bytes to escape denotes its characters.
* `isPlain_of_readsChars`: a string that denotes its own raw text, read up to the quotation
  mark that was meant to end it, contains nothing that needs an escape.
-/

namespace Json

open Printf Utf8

/-! ### Parts -/

/-- The code units of an ASCII text. -/
def units (t : List UInt8) : List UInt16 := t.map UInt8.toUInt16

/-- An ASCII byte that needs no escape. -/
def IsPlainByte (b : UInt8) : Prop := 0x20 ≤ b ∧ b < 0x80 ∧ b ≠ 0x22 ∧ b ≠ 0x5C

instance (b : UInt8) : Decidable (IsPlainByte b) := inferInstanceAs (Decidable (_ ∧ _))

/-- An ASCII text that needs no escape. -/
def IsPlain (t : List UInt8) : Prop := ∀ b ∈ t, IsPlainByte b

instance (t : List UInt8) : Decidable (IsPlain t) := List.decidableBAll _ t

/-- The text denotes the code units, in any string it occurs in between two characters. -/
def Denotes (t : List UInt8) (u : List UInt16) : Prop :=
  ∀ s v r, ReadsChars s v r → ReadsChars (t ++ s) (u ++ v) r

/-- The text reads as the value, whatever follows. -/
def Reads (t : List UInt8) (v : Value) : Prop :=
  ∀ rest, EndsNumber rest → ReadsValue (t ++ rest) v rest

/-- A member of an object with its text. -/
structure Field where
  key : List UInt8
  text : List UInt8
  value : Value
  key_plain : IsPlain key
  reads : Reads text value

/-- What the field reads as. -/
def Field.member (f : Field) : List UInt16 × Value := (units f.key, f.value)

/-- The whitespace an object is written with. -/
structure Layout where
  /-- After the opening brace. -/
  start : List UInt8
  /-- After a colon. -/
  colon : List UInt8
  /-- After a comma. -/
  comma : List UInt8
  /-- Before the closing brace. -/
  stop : List UInt8
  start_ws : ∀ b ∈ start, IsWs b
  colon_ws : ∀ b ∈ colon, IsWs b
  comma_ws : ∀ b ∈ comma, IsWs b
  stop_ws : ∀ b ∈ stop, IsWs b

/-- The empty text is white space. -/
theorem isWs_nil : ∀ b ∈ ([] : List UInt8), IsWs b := List.forall_mem_nil _

/-- So is one blank. -/
theorem isWs_space : ∀ b ∈ ([0x20] : List UInt8), IsWs b := by decide

/-- No whitespace. -/
def Layout.compact : Layout := ⟨[], [], [], [], isWs_nil, isWs_nil, isWs_nil, isWs_nil⟩

/-- A space after colons and commas. -/
def Layout.spaced : Layout := ⟨[], [0x20], [0x20], [], isWs_nil, isWs_space, isWs_space, isWs_nil⟩

/-- A key and its colon. -/
def keyText (l : Layout) (key : List UInt8) : List UInt8 :=
  0x22 :: (key ++ 0x22 :: 0x3A :: l.colon)

/-- The text of a field. -/
def Field.memberText (l : Layout) (f : Field) : List UInt8 := keyText l f.key ++ f.text

/-- Fields with a comma after each. -/
def leadText (l : Layout) (fs : List Field) : List UInt8 :=
  fs.flatMap fun f => f.memberText l ++ 0x2C :: l.comma

/-- Fields with a comma before each. -/
def moreText (l : Layout) (fs : List Field) : List UInt8 :=
  fs.flatMap fun f => 0x2C :: (l.comma ++ f.memberText l)

/-- An object of fields with one member between them given by its key and text. -/
def objectText (l : Layout) (pre : List Field) (key text : List UInt8)
    (post : List Field) : List UInt8 :=
  0x7B :: (l.start ++ (leadText l pre ++ (keyText l key ++ (text ++
    (moreText l post ++ (l.stop ++ [0x7D]))))))

/-- A string in quotation marks. -/
def quoted (t : List UInt8) : List UInt8 := 0x22 :: (t ++ [0x22])

/-- The elements of an array after the first, with a comma before each. -/
def elementsText (ts : List (List UInt8)) : List UInt8 := ts.flatMap (0x2C :: ·)

/-! ### Strings -/

/-- The empty text denotes the empty string. -/
theorem Denotes.nil : Denotes [] [] := fun _ _ _ h => h

/-- Texts in a row denote the strings in a row. -/
theorem Denotes.append {t t' : List UInt8} {u u' : List UInt16} (h : Denotes t u)
    (h' : Denotes t' u') : Denotes (t ++ t') (u ++ u') := by
  intro s v r hs
  rw [List.append_assoc, List.append_assoc]
  exact h _ _ _ (h' s v r hs)

/-- An ASCII character is one code unit. -/
theorem utf16_of_toNat {c : Char} {b : UInt8} (h : c.toNat = b.toNat) (hb : b < 0x80) :
    utf16 c = [b.toUInt16] := by
  have hlt : b.toNat < 0x80 := hb
  rw [utf16, h, if_pos (by omega), UInt16.ofNat_uInt8ToNat]

/-- A plain byte denotes itself. -/
theorem Denotes.plain {b : UInt8} (h : IsPlainByte b) : Denotes [b] [b.toUInt16] := by
  obtain ⟨hlow, hhigh, hquote, hbackslash⟩ := h
  have hlt : b.toNat < 0x80 := hhigh
  have hchar : (Char.ofNat b.toNat).toNat = b.toNat := by
    rw [Char.ofNat, dif_pos (Or.inl (by omega))]
    rfl
  intro s v r hs
  refine .plain (c := Char.ofNat b.toNat) ⟨?_, ?_, ?_⟩ ?_ ?_ hs
  · rw [hchar]
    exact hlow
  · rw [hchar]
    exact fun h => hquote (UInt8.toNat_inj.mp h)
  · rw [hchar]
    exact fun h => hbackslash (UInt8.toNat_inj.mp h)
  · rw [utf8EncodeChar_of_lt hlt]
  · rw [utf16_of_toNat hchar hhigh]

/-- A plain text denotes itself. -/
theorem Denotes.of_isPlain {t : List UInt8} (h : IsPlain t) : Denotes t (units t) := by
  induction t with
  | nil => exact .nil
  | cons b t ih =>
      obtain ⟨hb, ht⟩ := List.forall_mem_cons.mp h
      exact (Denotes.plain hb).append (ih ht)

/-- Every byte may stand in a string as it is. -/
def NoEscape (t : List UInt8) : Prop := ∀ b ∈ t, 0x20 ≤ b ∧ b ≠ 0x22 ∧ b ≠ 0x5C

instance (t : List UInt8) : Decidable (NoEscape t) := List.decidableBAll _ t

/-- The code units of a UTF-8 text. -/
def textUnits (t : List UInt8) : List UInt16 := (decode t).flatMap utf16

/-- A character of a text without bytes to escape. -/
theorem unescaped_of_noEscape {c : Char} (h : NoEscape (String.utf8EncodeChar c)) :
    Unescaped c := by
  rcases eq_or_ne c.utf8Size 1 with hone | hmany
  · obtain ⟨hlt, hbytes⟩ := utf8EncodeChar_of_utf8Size_eq_one hone
    rw [hbytes] at h
    obtain ⟨hlow, hquote, hbackslash⟩ := h _ (List.mem_singleton_self _)
    have hnat : (UInt8.ofNat c.toNat).toNat = c.toNat :=
      UInt8.toNat_ofNat_of_lt' (by show c.toNat < 256; omega)
    refine ⟨hnat ▸ UInt8.le_iff_toNat_le.mp hlow, fun heq => hquote ?_, fun heq =>
      hbackslash ?_⟩
    · rw [heq]
      rfl
    · rw [heq]
      rfl
  · have hlarge : ¬ c.toNat ≤ 127 := fun hle =>
      hmany (Char.utf8Size_eq_one_iff.mpr (UInt32.le_iff_toNat_le.mpr hle))
    exact ⟨by omega, by omega, by omega⟩

/-- A UTF-8 text without bytes to escape denotes its characters. -/
theorem Denotes.of_isUtf8 {t : List UInt8} (h : IsUtf8 t) (hescape : NoEscape t) :
    Denotes t (textUnits t) := by
  obtain ⟨cs, rfl⟩ := isUtf8_iff.mp h
  rw [textUnits, decode_encode]
  clear h
  induction cs with
  | nil => exact .nil
  | cons c cs ih =>
      rw [encode_cons] at hescape
      obtain ⟨hc, hcs⟩ := List.forall_mem_append.mp hescape
      have hchar : Denotes (String.utf8EncodeChar c) (utf16 c) :=
        fun _ _ _ hs => .plain (unescaped_of_noEscape hc) rfl rfl hs
      rw [encode_cons, List.flatMap_cons]
      exact hchar.append (ih hcs)

/-- A backslash and the letter of an escape. -/
theorem Denotes.escape {b : UInt8} {unit : UInt16} (h : simpleEscape b = some unit) :
    Denotes [0x5C, b] [unit] := fun _ _ _ hs => .escape h hs

/-- `\u` and four hexadecimal digits. -/
theorem Denotes.unicode {a b c d : UInt8} {unit : UInt16} (h : hexUnit a b c d = some unit) :
    Denotes [0x5C, 0x75, a, b, c, d] [unit] := fun _ _ _ hs => .unicode h hs

/-- A text up to the quotation mark after it. -/
theorem Denotes.readsChars {t : List UInt8} {u : List UInt16} (h : Denotes t u)
    (rest : List UInt8) : ReadsChars (t ++ 0x22 :: rest) u rest := by
  have hchars := h (0x22 :: rest) [] rest .close
  rwa [List.append_nil] at hchars

/-- The quotes of a string and what follows it, written out for the grammar's rule. -/
theorem quoted_append (t rest : List UInt8) :
    quoted t ++ rest = 0x22 :: (t ++ 0x22 :: rest) := by
  rw [quoted, List.cons_append, List.append_assoc]
  rfl

/-- A quoted text starts with its quote. -/
theorem startsToken_quoted (t : List UInt8) : StartsToken (quoted t) :=
  startsToken_cons (by decide) _

/-- A quoted text is read as the string the text denotes. -/
theorem Reads.str {t : List UInt8} {u : List UInt16} (h : Denotes t u) :
    Reads (quoted t) (.str u) := by
  intro rest _
  rw [quoted_append]
  exact .str (h.readsChars rest)

/-- A text that starts with a quotation mark is read as a string. -/
theorem ReadsValue.str_inv {s r : List UInt8} {v : Value} (h : ReadsValue (0x22 :: s) v r) :
    ∃ u, v = .str u ∧ ReadsChars s u r := by
  cases h with
  | num heq hnum _ => exact absurd (isNumberByte_of_cons hnum heq) (by decide)
  | str h => exact ⟨_, rfl, h⟩

/-- The literal `true`. -/
theorem Reads.true : Reads [0x74, 0x72, 0x75, 0x65] (.bool true) := fun _ _ => .true

/-! ### Numbers -/

/-- A number is read as its own text. -/
theorem Reads.num {t : List UInt8} (h : IsNumber t) : Reads t (.num t) :=
  fun _ hrest => .num rfl h hrest

/-- Decimal numbers are digits, the first one `0` only for zero. -/
theorem isDigits_decimal (n : ℕ) :
    IsDigits (decimal n) ∧ (0 < n → ∀ b ∈ (decimal n).head?, b ≠ 0x30) := by
  induction n using Nat.strongRecOn with
  | ind n ih =>
      rcases Nat.lt_or_ge n 10 with h | h
      · have hdigit : ∀ m < 10, IsDigit (UInt8.ofNat (0x30 + m)) ∧
            (0 < m → UInt8.ofNat (0x30 + m) ≠ 0x30) := by
          decide
        rw [decimal_of_lt h]
        refine ⟨⟨by simp, fun b hb => ?_⟩, fun hn b hb => ?_⟩
        · rw [List.mem_singleton.mp hb]
          exact (hdigit n h).1
        · rw [← Option.mem_some_iff.mp hb]
          exact (hdigit n h).2 hn
      · obtain ⟨⟨hne, hdigits⟩, hhead⟩ := ih (n / 10) (by omega)
        obtain ⟨⟨-, hlast⟩, -⟩ := ih (n % 10) (by omega)
        rw [decimal_of_le h]
        refine ⟨⟨by simp [hne], List.forall_mem_append.mpr ⟨hdigits, hlast⟩⟩, fun _ => ?_⟩
        rw [List.head?_append_of_ne_nil _ hne]
        exact hhead (by omega)

/-- Decimal digits have no leading zero, so they are an integer of the grammar. -/
theorem isInt_decimal (n : ℕ) : IsInt (decimal n) := by
  rcases Nat.eq_zero_or_pos n with rfl | hn
  · exact .inl (decimal_of_lt (by decide))
  · exact .inr ⟨(isDigits_decimal n).1, (isDigits_decimal n).2 hn⟩

/-- `%u` writes a number. -/
theorem isNumber_decimal (n : ℕ) : IsNumber (decimal n) :=
  ⟨[], decimal n, [], [], by simp, .inl rfl, isInt_decimal n, .inl rfl, .inl rfl⟩

/-- `%d` writes a number. -/
theorem isNumber_signed (z : ℤ) : IsNumber (signed z) := by
  cases z with
  | ofNat n => exact isNumber_decimal n
  | negSucc n =>
      exact ⟨[0x2D], decimal (n + 1), [], [], by simp [signed], .inr rfl, isInt_decimal _,
        .inl rfl, .inl rfl⟩

/-- A number with a decimal point is a number. -/
theorem isNumber_point (ndigits n : ℕ) : IsNumber (point ndigits n) := by
  have hdigits := (isDigits_decimal (n % 10 ^ ndigits)).1
  refine ⟨[], decimal (n / 10 ^ ndigits), 0x2E :: zeroPad ndigits (decimal (n % 10 ^ ndigits)), [],
    ?_, .inl rfl, isInt_decimal _, .inr ⟨_, rfl, ?_, ?_⟩, .inl rfl⟩
  · rw [point, List.nil_append, List.append_nil]
  · simp [zeroPad, hdigits.1]
  · refine List.forall_mem_append.mpr ⟨fun b hb => ?_, hdigits.2⟩
    rw [List.eq_of_mem_replicate hb]
    decide

/-- `%x` writes plain bytes. -/
theorem isPlain_hex (n : ℕ) : IsPlain (hex n) := by
  have hdigit : ∀ m < 16, IsPlainByte (UInt8.ofNat (Nat.digitChar m).toNat) := by decide
  induction n using Nat.strongRecOn with
  | ind n ih =>
      rcases Nat.lt_or_ge n 16 with h | h
      · rw [hex, digits, Nat.toDigits_of_lt_base h]
        exact List.forall_mem_singleton.mpr (hdigit n h)
      · have hrec := ih (n / 16) (by omega)
        rw [hex, digits] at hrec ⊢
        rw [Nat.toDigits_of_base_le (by decide) h, List.map_append]
        exact List.forall_mem_append.mpr
          ⟨hrec, List.forall_mem_singleton.mpr (hdigit _ (Nat.mod_lt n (by decide)))⟩

/-- Digits need no escape. -/
theorem isPlain_decimal (n : ℕ) : IsPlain (decimal n) := by
  intro b hb
  obtain ⟨hlow, hhigh⟩ := (isDigits_decimal n).1.2 b hb
  refine ⟨UInt8.le_trans (by decide) hlow, UInt8.lt_of_le_of_lt hhigh (by decide), ?_, ?_⟩
  · rintro rfl
    exact absurd hlow (by decide)
  · rintro rfl
    exact absurd hhigh (by decide)

/-- Two texts without escapes have none together. -/
theorem isPlain_append {s t : List UInt8} (hs : IsPlain s) (ht : IsPlain t) : IsPlain (s ++ t) :=
  List.forall_mem_append.mpr ⟨hs, ht⟩

/-- A number with a decimal point consists of plain bytes. -/
theorem isPlain_point (ndigits n : ℕ) : IsPlain (point ndigits n) := by
  have hzeros : ∀ n, IsPlain (List.replicate n 0x30) := by
    intro n b hb
    rw [List.eq_of_mem_replicate hb]
    decide
  exact isPlain_append (isPlain_decimal _) (List.forall_mem_cons.mpr
    ⟨by decide, isPlain_append (hzeros _) (isPlain_decimal _)⟩)

/-- `%.nf` writes a number. -/
theorem isNumber_fixed (ndigits : ℕ) (x : Binary64.Double) : IsNumber (fixed ndigits x) :=
  isNumber_point ndigits _

/-- `%.nf` writes plain bytes. -/
theorem isPlain_fixed (ndigits : ℕ) (x : Binary64.Double) : IsPlain (fixed ndigits x) :=
  isPlain_point ndigits _

/-! ### Whitespace -/

/-- The text reads as the value after whitespace. -/
def ReadsPadded (t : List UInt8) (v : Value) : Prop :=
  ∃ w t', (∀ b ∈ w, IsWs b) ∧ t = w ++ t' ∧ Reads t' v

/-- White space before a value. -/
theorem Reads.padded {t w : List UInt8} {v : Value} (h : Reads t v) (hw : ∀ b ∈ w, IsWs b) :
    ReadsPadded (w ++ t) v := ⟨w, t, hw, rfl, h⟩

/-- White space before white space. -/
theorem Ws.append {w s t : List UInt8} (hw : ∀ b ∈ w, IsWs b) (h : Ws s t) :
    Ws (w ++ s) t := by
  obtain ⟨w', hw', rfl⟩ := h
  exact ⟨w ++ w', List.forall_mem_append.mpr ⟨hw, hw'⟩, (List.append_assoc ..).symm⟩

/-- Whitespace in front of a token can be dropped. -/
theorem Ws.strip {w s t : List UInt8} (hw : ∀ b ∈ w, IsWs b) (h : Ws (w ++ s) t)
    (ht : StartsToken t) : Ws s t := by
  obtain ⟨w', hw', heq⟩ := h
  obtain ⟨b, r, rfl, hb⟩ := ht
  rcases List.append_eq_append_iff.mp heq with ⟨x, rfl, rfl⟩ | ⟨x, rfl, hx⟩
  · exact ⟨x, (List.forall_mem_append.mp hw').2, rfl⟩
  · cases x with
    | nil => exact hx ▸ .refl _
    | cons c x =>
        obtain ⟨rfl, -⟩ := List.cons.inj hx
        exact absurd (hw b (by simp)) hb

/-- Neither whitespace nor punctuation goes on a number. -/
theorem endsNumber_ws {w : List UInt8} (hw : ∀ b ∈ w, IsWs b) {c : UInt8}
    (hc : ¬ IsNumberByte c) (rest : List UInt8) : EndsNumber (w ++ c :: rest) := by
  intro b hb hnumber
  cases w with
  | nil =>
      obtain rfl := Option.some.inj hb
      exact hc hnumber
  | cons d w =>
      obtain rfl := Option.some.inj hb
      exact not_isWs_of_isNumberByte hnumber (hw d List.mem_cons_self)

/-- A byte that no number has ends one. -/
theorem endsNumber_cons {c : UInt8} (hc : ¬ IsNumberByte c) (rest : List UInt8) :
    EndsNumber (c :: rest) :=
  endsNumber_ws (w := []) (fun _ h => absurd h List.not_mem_nil) hc rest

/-! ### Objects -/

/-- The first of the leading members, with its comma. -/
theorem leadText_cons (l : Layout) (f : Field) (fs : List Field) :
    leadText l (f :: fs) = f.memberText l ++ 0x2C :: (l.comma ++ leadText l fs) := by
  simp [leadText]

/-- The first of the further members, with its comma. -/
theorem moreText_cons (l : Layout) (f : Field) (fs : List Field) :
    moreText l (f :: fs) = 0x2C :: (l.comma ++ (f.memberText l ++ moreText l fs)) := by
  simp [moreText]

/-- Two groups of further members are written one after the other. -/
theorem moreText_append (l : Layout) (fs gs : List Field) :
    moreText l (fs ++ gs) = moreText l fs ++ moreText l gs := List.flatMap_append

/-- A text that goes on an object with further members, which read as the given ones. -/
def IsMore (l : Layout) (ms : List (List UInt16 × Value)) (t : List UInt8) : Prop :=
  ∃ fs : List Field, fs.map Field.member = ms ∧ t = moreText l fs

section IsMore

variable {l : Layout} {ms ms' : List (List UInt16 × Value)} {t t' : List UInt8}

theorem IsMore.nil : IsMore l [] [] := ⟨[], rfl, rfl⟩

/-- One member. -/
theorem IsMore.of_reads (key : List UInt8) {text : List UInt8} {v : Value} (hkey : IsPlain key)
    (h : Reads text v) (ht : t = 0x2C :: (l.comma ++ (keyText l key ++ text))) :
    IsMore l [(units key, v)] t := by
  refine ⟨[⟨key, text, v, hkey, h⟩], rfl, ?_⟩
  rw [moreText_cons, Field.memberText, moreText, List.flatMap_nil, List.append_nil, ht]

/-- Two texts of further members are one text of further members. -/
theorem IsMore.append (h : IsMore l ms t) (h' : IsMore l ms' t') :
    IsMore l (ms ++ ms') (t ++ t') := by
  obtain ⟨fs, rfl, rfl⟩ := h
  obtain ⟨gs, rfl, rfl⟩ := h'
  exact ⟨fs ++ gs, List.map_append, (moreText_append l fs gs).symm⟩

/-- Members printed under a condition. -/
theorem IsMore.ite (c : Prop) [Decidable c] (h : IsMore l ms t) :
    IsMore l (if c then ms else []) (if c then t else []) := by
  split
  · exact h
  · exact .nil

/-- Members printed for an optional value. -/
theorem IsMore.elim {α : Type} {f : α → List (List UInt16 × Value)} {g : α → List UInt8}
    (o : Option α) (h : ∀ a ∈ o, IsMore l (f a) (g a)) : IsMore l (o.elim [] f) (o.elim [] g) := by
  cases o with
  | none => exact .nil
  | some a => exact h a rfl

end IsMore

/-- An object with one member singled out, bracketed for the grammar's rules. -/
theorem objectText_append (l : Layout) (pre : List Field) (key text : List UInt8)
    (post : List Field) (rest : List UInt8) : objectText l pre key text post ++ rest =
      0x7B :: (l.start ++ (leadText l pre ++ (keyText l key ++ (text ++
        (moreText l post ++ (l.stop ++ 0x7D :: rest)))))) := by
  simp [objectText]

/-- An object starts with its brace. -/
theorem startsToken_objectText (l : Layout) (pre : List Field) (key text : List UInt8)
    (post : List Field) : StartsToken (objectText l pre key text post) :=
  startsToken_cons (by decide) _

/-- A member of an object starts where a text may be cut. -/
theorem isUtf8_of_objectText {l : Layout} {pre post : List Field} {key text rest : List UInt8}
    (hkey : IsPlain key) (h : IsUtf8 (objectText l pre key text post ++ rest)) :
    IsUtf8 (text ++ (moreText l post ++ (l.stop ++ 0x7D :: rest))) := by
  rw [objectText_append, isUtf8_cons_iff (by decide), ← List.append_assoc, keyText,
    List.cons_append, isUtf8_append_cons_iff (by decide), List.append_assoc, List.cons_append,
    List.cons_append, isUtf8_append_iff_of_lt fun b hb => (hkey b hb).2.1,
    isUtf8_cons_iff (by decide), isUtf8_cons_iff (by decide),
    (Ws.of_append l.colon_ws _).isUtf8_iff] at h
  exact h.2

/-- What follows a member is a comma or the closing brace. -/
theorem endsNumber_moreText (l : Layout) (post : List Field) (rest : List UInt8) :
    EndsNumber (moreText l post ++ (l.stop ++ 0x7D :: rest)) := by
  cases post with
  | nil => exact endsNumber_ws l.stop_ws (by decide) rest
  | cons f post => exact endsNumber_cons (by decide) _

/-- A text that starts with a brace is read as an object. -/
theorem ReadsValue.obj_inv {s r : List UInt8} {v : Value} (h : ReadsValue (0x7B :: s) v r) :
    ∃ ms, v = .obj ms ∧ (ms = [] ∨ ReadsMembers s ms r) := by
  cases h with
  | num heq hnum _ => exact absurd (isNumberByte_of_cons hnum heq) (by decide)
  | emptyObj _ => exact ⟨[], rfl, .inl rfl⟩
  | obj h => exact ⟨_, rfl, .inr h⟩

/-- Keys that differ as bytes differ as strings. -/
theorem units_injective : Function.Injective units := by
  refine List.map_injective_iff.mpr fun a b h => ?_
  rw [← UInt8.toNat_inj, ← UInt8.toNat_toUInt16, h, UInt8.toNat_toUInt16]

/-- The value is an object with this member, and with no other value for its key. -/
def Value.HasMember (v : Value) (key : List UInt8) (w : Value) : Prop :=
  ∃ ms, v = .obj ms ∧ (units key, w) ∈ ms ∧ ∀ w', (units key, w') ∈ ms → w' = w

/-- A member whose key no other member has. -/
theorem hasMember_obj {pre post : List Field} {key : List UInt8} (w : Value)
    (h : key ∉ (pre ++ post).map Field.key) :
    (Value.obj (pre.map Field.member ++ (units key, w) :: post.map Field.member)).HasMember
      key w := by
  have hother : ∀ (fs : List Field) (w' : Value), (∀ f ∈ fs, f ∈ pre ++ post) →
      (units key, w') ∉ fs.map Field.member := by
    intro fs w' hfs hmem
    obtain ⟨f, hf, heq⟩ := List.mem_map.mp hmem
    exact h (List.mem_map.mpr ⟨f, hfs f hf, units_injective (congrArg Prod.fst heq)⟩)
  refine ⟨_, rfl, by simp, fun w' hw' => ?_⟩
  rcases List.mem_append.mp hw' with hw' | hw'
  · exact absurd hw' (hother pre w' fun f hf => List.mem_append_left post hf)
  · rcases List.mem_cons.mp hw' with heq | hw'
    · exact congrArg Prod.snd heq
    · exact absurd hw' (hother post w' fun f hf => List.mem_append_right pre hf)

section Objects

variable {l : Layout}

/-- A key, its colon and a value. -/
theorem readsMember_key {key s r : List UInt8} {v : Value} (hkey : IsPlain key)
    (h : ReadsValue s v r) : ReadsMember (keyText l key ++ s) (units key, v) r := by
  rw [keyText, List.cons_append, List.append_assoc]
  exact .mk (.refl _) ((Denotes.of_isPlain hkey).readsChars _) (.refl _)
    (.of_append l.colon_ws s) h

/-- A known key is read as that key, and what follows it as its value. -/
theorem readsMember_key_inv {key s r : List UInt8} {m : List UInt16 × Value}
    (hkey : IsPlain key) (hs : StartsToken s) (h : ReadsMember (keyText l key ++ s) m r) :
    ∃ v, m = (units key, v) ∧ ReadsValue s v r := by
  rw [keyText, List.cons_append, List.append_assoc] at h
  obtain ⟨hquote, hchars, hcolon, hws, hv⟩ := h
  obtain ⟨-, rfl⟩ := (Ws.refl _).unique_cons hquote (by decide) (by decide)
  obtain ⟨rfl, rfl⟩ := ((Denotes.of_isPlain hkey).readsChars _).unique hchars
  obtain ⟨-, rfl⟩ := (Ws.refl _).unique_cons hcolon (by decide) (by decide)
  obtain rfl := (hws.strip l.colon_ws hv.startsToken).unique (.refl _) hv.startsToken hs
  exact ⟨_, rfl, hv⟩

/-- The text of a member is read as the member. -/
theorem Field.readsMember (l : Layout) (f : Field) {rest : List UInt8} (hrest : EndsNumber rest) :
    ReadsMember (f.memberText l ++ rest) f.member rest := by
  rw [Field.memberText, List.append_assoc]
  exact readsMember_key f.key_plain (f.reads rest hrest)

/-- White space before a member is skipped. -/
theorem ReadsMember.append_ws {w s r : List UInt8} {m : List UInt16 × Value}
    (hw : ∀ b ∈ w, IsWs b) (h : ReadsMember s m r) : ReadsMember (w ++ s) m r := by
  obtain ⟨hquote, hchars, hcolon, hws, hv⟩ := h
  exact .mk (hquote.append hw) hchars hcolon hws hv

/-- White space before a member that is read can be taken off. -/
theorem ReadsMember.strip {w s r : List UInt8} {m : List UInt16 × Value}
    (hw : ∀ b ∈ w, IsWs b) (h : ReadsMember (w ++ s) m r) : ReadsMember s m r := by
  obtain ⟨hquote, hchars, hcolon, hws, hv⟩ := h
  exact .mk (hquote.strip hw (startsToken_cons (by decide) _)) hchars hcolon hws hv

/-- White space before the members is skipped. -/
theorem ReadsMembers.append_ws {w s r : List UInt8} {ms : List (List UInt16 × Value)}
    (hw : ∀ b ∈ w, IsWs b) (h : ReadsMembers s ms r) : ReadsMembers (w ++ s) ms r := by
  cases h with
  | last hm hend => exact .last (hm.append_ws hw) hend
  | cons hm hsep hrest => exact .cons (hm.append_ws hw) hsep hrest

/-- White space before the members that are read can be taken off. -/
theorem ReadsMembers.strip {w s r : List UInt8} {ms : List (List UInt16 × Value)}
    (hw : ∀ b ∈ w, IsWs b) (h : ReadsMembers (w ++ s) ms r) : ReadsMembers s ms r := by
  cases h with
  | last hm hend => exact .last (hm.strip hw) hend
  | cons hm hsep hrest => exact .cons (hm.strip hw) hsep hrest

/-- The last members of an object. -/
theorem readsMembers_more {s : List UInt8} {m : List UInt16 × Value} (post : List Field)
    (rest : List UInt8) (h : ReadsMember s m (moreText l post ++ (l.stop ++ 0x7D :: rest))) :
    ReadsMembers s (m :: post.map Field.member) rest := by
  induction post generalizing s m with
  | nil => exact .last h (.of_append l.stop_ws _)
  | cons f post ih =>
      have hf := (f.readsMember l (endsNumber_moreText l post rest)).append_ws l.comma_ws
      rw [moreText_cons, List.cons_append] at h
      rw [List.append_assoc, List.append_assoc] at h
      exact .cons h (.refl _) (ih hf)

/-- The first members of an object. -/
theorem readsMembers_lead (pre : List Field) {s r : List UInt8}
    {ms : List (List UInt16 × Value)} (h : ReadsMembers s ms r) :
    ReadsMembers (leadText l pre ++ s) (pre.map Field.member ++ ms) r := by
  induction pre with
  | nil => exact h
  | cons f pre ih =>
      rw [leadText_cons, List.append_assoc, List.cons_append, List.append_assoc]
      exact .cons (f.readsMember l (endsNumber_cons (by decide) _)) (.refl _)
        (ih.append_ws l.comma_ws)

/-- The first members of an object are read as they are. -/
theorem readsMembers_lead_inv (pre : List Field) {s r : List UInt8}
    {ms : List (List UInt16 × Value)} (h : ReadsMembers (leadText l pre ++ s) ms r) :
    ∃ ms', ms = pre.map Field.member ++ ms' ∧ ReadsMembers s ms' r := by
  induction pre generalizing ms with
  | nil => exact ⟨ms, rfl, h⟩
  | cons f pre ih =>
      rw [leadText_cons, List.append_assoc, List.cons_append, List.append_assoc] at h
      have hend : EndsNumber (0x2C :: (l.comma ++ (leadText l pre ++ s))) :=
        endsNumber_cons (by decide) _
      have hf := f.readsMember l hend
      cases h with
      | last hm hend =>
          obtain ⟨rfl, rfl⟩ := hf.unique hm
          exact absurd ((Ws.refl _).unique_cons hend (by decide) (by decide)).1 (by decide)
      | cons hm hsep hrest =>
          obtain ⟨rfl, rfl⟩ := hf.unique hm
          obtain ⟨-, rfl⟩ := (Ws.refl _).unique_cons hsep (by decide) (by decide)
          obtain ⟨ms', rfl, h'⟩ := ih (hrest.strip l.comma_ws)
          exact ⟨ms', rfl, h'⟩

/-- **Objects read as their members.** -/
theorem Reads.object (pre : List Field) {key text : List UInt8} {v : Value}
    (post : List Field) (hkey : IsPlain key) (h : Reads text v) :
    Reads (objectText l pre key text post)
      (.obj (pre.map Field.member ++ (units key, v) :: post.map Field.member)) := by
  intro rest _
  rw [objectText_append l]
  have hvalue := h _ (endsNumber_moreText l post rest)
  exact .obj ((readsMembers_lead pre
    (readsMembers_more post rest (readsMember_key hkey hvalue))).append_ws l.start_ws)

/-- A member between known ones is read from its own text. -/
theorem ReadsValue.object_inv (pre : List Field) {key text : List UInt8} (post : List Field)
    {rest r : List UInt8} {v w : Value} (hkey : IsPlain key) (htext : StartsToken text)
    (h : ReadsValue (objectText l pre key text post ++ rest) v r) (hw : v.HasMember key w) :
    ∃ s, ReadsValue (text ++ (moreText l post ++ (l.stop ++ 0x7D :: rest))) w s := by
  obtain ⟨b, t, rfl, hb⟩ := htext
  rw [objectText_append] at h
  obtain ⟨ms, rfl, hread⟩ := h.obj_inv
  obtain ⟨ms, hms, hmem, hunique⟩ := hw
  obtain rfl := Value.obj.inj hms
  have hmembers := hread.resolve_left fun hnil => absurd (hnil ▸ hmem) List.not_mem_nil
  obtain ⟨ms', rfl, hrest⟩ := readsMembers_lead_inv pre (hmembers.strip l.start_ws)
  have hs := startsToken_cons hb (t ++ (moreText l post ++ (l.stop ++ 0x7D :: rest)))
  cases hrest with
  | last hm _ =>
      obtain ⟨v, rfl, hv⟩ := readsMember_key_inv hkey hs hm
      obtain rfl := hunique v (by simp)
      exact ⟨_, hv⟩
  | cons hm _ _ =>
      obtain ⟨v, rfl, hv⟩ := readsMember_key_inv hkey hs hm
      obtain rfl := hunique v (by simp)
      exact ⟨_, hv⟩

end Objects

/-! ### Arrays -/

/-- A text that starts with a bracket is read as an array. -/
theorem ReadsValue.arr_inv {s r : List UInt8} {v : Value} (h : ReadsValue (0x5B :: s) v r) :
    ∃ vs, v = .arr vs ∧ (vs = [] ∨ ReadsElements s vs r) := by
  cases h with
  | num heq hnum _ => exact absurd (isNumberByte_of_cons hnum heq) (by decide)
  | emptyArr _ => exact ⟨[], rfl, .inl rfl⟩
  | arr h => exact ⟨_, rfl, .inr h⟩

/-- What follows an element is a comma or the closing bracket. -/
theorem endsNumber_elementsText (ts : List (List UInt8)) {w : List UInt8}
    (hw : ∀ b ∈ w, IsWs b) (rest : List UInt8) :
    EndsNumber (elementsText ts ++ (w ++ 0x5D :: rest)) := by
  cases ts with
  | nil => exact endsNumber_ws hw (by decide) rest
  | cons t ts => exact endsNumber_cons (by decide) _

/-- A further element comes after its comma. -/
theorem elementsText_cons (t : List UInt8) (ts : List (List UInt8)) :
    elementsText (t :: ts) = 0x2C :: (t ++ elementsText ts) := by
  simp [elementsText]

/-- **Arrays read as their elements**, with whitespace before each element and at the end. -/
theorem readsElements_padded {t : List UInt8} {v : Value} {ts : List (List UInt8)}
    {vs : List Value} {w : List UInt8} (ht : ReadsPadded t v)
    (hts : List.Forall₂ ReadsPadded ts vs) (hw : ∀ b ∈ w, IsWs b) (rest : List UInt8) :
    ReadsElements (t ++ (elementsText ts ++ (w ++ 0x5D :: rest))) (v :: vs) rest := by
  induction hts generalizing t v with
  | nil =>
      obtain ⟨w', t', hw', rfl, ht'⟩ := ht
      rw [List.append_assoc]
      exact .last (.of_append hw' _) (ht' _ (endsNumber_elementsText [] hw rest))
        (.of_append hw _)
  | @cons t₂ v₂ ts vs ht₂ _ ih =>
      obtain ⟨w', t', hw', rfl, ht'⟩ := ht
      have hvalue := ht' _ (endsNumber_elementsText (t₂ :: ts) hw rest)
      rw [List.append_assoc]
      refine .cons (.of_append hw' _) hvalue ?_ (ih ht₂)
      rw [elementsText_cons, List.cons_append, List.append_assoc]
      exact .refl _

/-- The empty array. -/
theorem Reads.emptyArr : Reads [0x5B, 0x5D] (.arr []) := fun _ _ => .emptyArr (.refl _)

/-- An array is read as the values of its elements, in order. -/
theorem Reads.arr {t : List UInt8} {v : Value} {ts : List (List UInt8)} {vs : List Value}
    (ht : Reads t v) (hts : List.Forall₂ Reads ts vs) :
    Reads (0x5B :: (t ++ (elementsText ts ++ [0x5D]))) (.arr (v :: vs)) := by
  have hnil : ∀ b ∈ ([] : List UInt8), IsWs b := fun _ h => absurd h List.not_mem_nil
  intro rest _
  have helems := readsElements_padded (ht.padded hnil)
    (hts.imp fun _ _ h => h.padded hnil) hnil rest
  rw [List.cons_append, List.append_assoc, List.append_assoc]
  exact .arr helems

/-- The first element of an array, and what comes after it. -/
theorem ReadsElements.cons_inv {w s r : List UInt8} {v : Value} {vs : List Value}
    (hw : ∀ b ∈ w, IsWs b) (hs : StartsToken s) (h : ReadsElements (w ++ s) (v :: vs) r) :
    ∃ s', ReadsValue s v s' ∧
      (vs = [] ∨ ∃ s₃, Ws s' (0x2C :: s₃) ∧ ReadsElements s₃ vs r) := by
  cases h with
  | last hws hv _ =>
      obtain rfl := (hws.strip hw hv.startsToken).unique (.refl _) hv.startsToken hs
      exact ⟨_, hv, .inl rfl⟩
  | cons hws hv hsep hrest =>
      obtain rfl := (hws.strip hw hv.startsToken).unique (.refl _) hv.startsToken hs
      exact ⟨_, hv, .inr ⟨_, hsep, hrest⟩⟩

/-- An array is read element by element, as long as the text of every element that turns out
right has a known reading. -/
theorem ReadsElements.walk {α : Type} {w w' w'' out r : List UInt8} {body : α → List UInt8}
    {Right : α → Value → Prop} (hw : ∀ b ∈ w, IsWs b) (hw' : ∀ b ∈ w', IsWs b)
    (hw'' : ∀ b ∈ w'', IsWs b) (htoken : ∀ a rest, StartsToken (body a ++ rest))
    (hreads : ∀ a rest v s, ReadsValue (body a ++ rest) v s → Right a v →
      ∃ v', Reads (body a) v') {a : α} {as : List α} {vs : List Value}
    (h : ReadsElements (w ++ (body a ++ (elementsText (as.map fun x => w' ++ body x) ++
      (w'' ++ 0x5D :: out)))) vs r)
    (hright : List.Forall₂ Right (a :: as) vs) :
    ∀ x ∈ a :: as, ∃ rest v s, ReadsValue (body x ++ rest) v s ∧ Right x v := by
  induction as generalizing a w vs with
  | nil =>
      cases hright with
      | cons hright _ =>
          obtain ⟨s, hv, -⟩ := h.cons_inv hw (htoken a _)
          exact List.forall_mem_singleton.mpr ⟨_, _, s, hv, hright⟩
  | cons a₂ as ih =>
      cases hright with
      | @cons _ v _ vs hright hrights =>
          obtain ⟨s, hv, hmore⟩ := h.cons_inv hw (htoken a _)
          obtain ⟨v', hv'⟩ := hreads a _ v s hv hright
          obtain ⟨-, rfl⟩ := hv.unique
            (hv' _ (endsNumber_elementsText _ hw'' out))
          rcases hmore with rfl | ⟨s₃, hsep, hrest⟩
          · exact absurd hrights (by simp)
          · rw [List.map_cons, elementsText_cons, List.cons_append, List.append_assoc,
              List.append_assoc] at hsep
            obtain ⟨-, rfl⟩ := (Ws.refl _).unique_cons hsep (by decide) (by decide)
            exact List.forall_mem_cons.mpr ⟨⟨_, v, _, hv, hright⟩, ih hw' hrest hrights⟩

/-! ### Raw text between quotation marks -/

/-- Where the first quotation mark of a decoded string is. -/
def firstQuote (u : List UInt16) : ℕ := (u.takeWhile (· ≠ 0x22)).length

/-- One more unit moves the first quote by at most one. -/
theorem firstQuote_cons_le (unit : UInt16) (u : List UInt16) :
    firstQuote (unit :: u) ≤ firstQuote u + 1 := by
  rw [firstQuote, firstQuote, List.takeWhile_cons]
  split
  · exact Nat.le_refl _
  · exact Nat.zero_le _

/-- A byte that is not a quote moves the first quote by one. -/
theorem firstQuote_cons_byte {b : UInt8} (h : b ≠ 0x22) (u : List UInt16) :
    firstQuote (b.toUInt16 :: u) = firstQuote u + 1 := by
  have hunit : b.toUInt16 ≠ 0x22 := fun heq => h (UInt8.toUInt16_inj.mp heq)
  rw [firstQuote, firstQuote, List.takeWhile_cons_of_pos (by simpa using hunit),
    List.length_cons]

/-- A text without quotation marks denoting itself comes before the first one. -/
theorem firstQuote_units_append {t : List UInt8} (h : 0x22 ∉ t) (u : List UInt16) :
    firstQuote (units t ++ u) = t.length + firstQuote u := by
  induction t with
  | nil => exact (Nat.zero_add _).symm
  | cons b t ih =>
      have hb : b ≠ 0x22 := fun heq => h (heq ▸ List.mem_cons_self)
      have ht := ih fun hmem => h (List.mem_cons_of_mem b hmem)
      rw [units, List.map_cons, ← units, List.cons_append, firstQuote_cons_byte hb, ht,
        List.length_cons]
      omega

/-- None of the four digits of a code unit is a quote. -/
theorem hexUnit_ne_quote {a b c d : UInt8} {unit : UInt16}
    (h : hexUnit a b c d = some unit) : a ≠ 0x22 ∧ b ≠ 0x22 ∧ c ≠ 0x22 ∧ d ≠ 0x22 := by
  have hquote : hexValue 0x22 = none := rfl
  refine ⟨?_, ?_, ?_, ?_⟩ <;>
    (rintro rfl; simp [hexUnit, hquote] at h)

/-- Before the first quotation mark there is every other byte. -/
theorem exists_cons_of_ne_quote {b : UInt8} {s t rest : List UInt8} (hb : b ≠ 0x22)
    (h : b :: s = t ++ 0x22 :: rest) : ∃ t', t = b :: t' ∧ s = t' ++ 0x22 :: rest := by
  cases t with
  | nil => exact absurd (List.cons.inj h).1 hb
  | cons c t =>
      obtain ⟨rfl, rfl⟩ := List.cons.inj h
      exact ⟨t, rfl, rfl⟩

/-- An escape makes the decoded string shorter than the text: up to a quotation mark, only a
plain text keeps its length. -/
theorem ReadsChars.firstQuote_lt {s t rest r : List UInt8} {u : List UInt16}
    (h : ReadsChars s u r) (hs : s = t ++ 0x22 :: rest) (hquote : 0x22 ∉ t)
    (hascii : ∀ b ∈ t, b < 0x80) : firstQuote u < t.length ∨
      firstQuote u = t.length ∧ IsPlain t := by
  induction h generalizing t with
  | close =>
      cases t with
      | nil => exact .inr ⟨rfl, fun _ h => absurd h List.not_mem_nil⟩
      | cons b t =>
          obtain ⟨rfl, -⟩ := List.cons.inj hs
          exact absurd List.mem_cons_self hquote
  | @plain c s s' u v r hc heq hv _ ih =>
      cases t with
      | nil =>
          exact absurd (toNat_of_utf8EncodeChar_append (by decide) (hs.symm.trans heq)).1 hc.2.1
      | cons b t =>
          obtain ⟨hb, ht⟩ := List.forall_mem_cons.mp hascii
          obtain ⟨hnat, hrest⟩ := toNat_of_utf8EncodeChar_append hb (hs.symm.trans heq)
          have hne : (0x22 : UInt8) ≠ b := fun h => hquote (h ▸ List.mem_cons_self)
          have hplain : IsPlainByte b := by
            refine ⟨UInt8.le_iff_toNat_le.mpr (hnat ▸ hc.1), hb, hne.symm, ?_⟩
            rintro rfl
            exact hc.2.2 hnat
          rw [hv, utf16_of_toNat hnat hb, List.singleton_append, firstQuote_cons_byte hne.symm]
          rcases ih hrest.symm (fun h => hquote (List.mem_cons_of_mem b h)) ht with h | ⟨h, ht⟩
          · exact .inl (Nat.succ_lt_succ h)
          · exact .inr ⟨congrArg Nat.succ h, List.forall_mem_cons.mpr ⟨hplain, ht⟩⟩
  | @escape e unit s u r he _ ih =>
      obtain ⟨t, rfl, hs₁⟩ := exists_cons_of_ne_quote (by decide) hs
      rcases eq_or_ne e 0x22 with rfl | hne
      · -- the escape takes a quotation mark for a character
        obtain rfl := Option.some.inj he
        exact .inl (Nat.succ_pos _)
      · obtain ⟨t, rfl, hs₂⟩ := exists_cons_of_ne_quote hne hs₁
        have hlen := firstQuote_cons_le unit u
        have hrest := ih hs₂ (fun h => hquote (by simp [h])) fun x hx => hascii x (by simp [hx])
        rw [List.length_cons, List.length_cons]
        omega
  | @unicode a b c d unit s u r hunit _ ih =>
      obtain ⟨ha, hb, hc, hd⟩ := hexUnit_ne_quote hunit
      obtain ⟨t, rfl, hs₁⟩ := exists_cons_of_ne_quote (by decide) hs
      obtain ⟨t, rfl, hs₂⟩ := exists_cons_of_ne_quote (by decide) hs₁
      obtain ⟨t, rfl, hs₃⟩ := exists_cons_of_ne_quote ha hs₂
      obtain ⟨t, rfl, hs₄⟩ := exists_cons_of_ne_quote hb hs₃
      obtain ⟨t, rfl, hs₅⟩ := exists_cons_of_ne_quote hc hs₄
      obtain ⟨t, rfl, hs₆⟩ := exists_cons_of_ne_quote hd hs₅
      have hlen := firstQuote_cons_le unit u
      have hrest := ih hs₆ (fun h => hquote (by simp [h])) fun x hx => hascii x (by simp [hx])
      simp only [List.length_cons]
      omega

/-- **A string that denotes its own raw text contains nothing to escape.** -/
theorem isPlain_of_readsChars {t rest r : List UInt8} (hascii : ∀ b ∈ t, b < 0x80)
    (h : ReadsChars (t ++ 0x22 :: rest) (units t) r) : IsPlain t := by
  rcases em (0x22 ∈ t) with hmem | hquote
  · -- the string ends at the first quotation mark inside, so it is shorter than its text
    obtain ⟨head, tail, rfl, hquote⟩ := List.eq_append_cons_of_mem hmem
    have hfirst : firstQuote (units (head ++ 0x22 :: tail)) = head.length := by
      rw [units, List.map_append]
      exact firstQuote_units_append hquote _
    rw [List.append_assoc, List.cons_append] at h
    have hhead : IsPlain head := by
      rcases h.firstQuote_lt rfl hquote fun b hb => hascii b (by simp [hb]) with hlt | ⟨-, h⟩
      · exact absurd hlt (by omega)
      · exact h
    have hunits := congrArg List.length
      (((Denotes.of_isPlain hhead).readsChars _).unique h).1
    simp [units] at hunits
  · have hfirst : firstQuote (units t) = t.length := by
      have happend := firstQuote_units_append hquote []
      rwa [List.append_nil] at happend
    rcases h.firstQuote_lt rfl hquote hascii with hlt | ⟨-, h⟩
    · exact absurd hlt (by omega)
    · exact h

end Json
