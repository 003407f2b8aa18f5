import Mathlib.Data.List.Basic
import UnifiedTrace.Utf8

/-!
# The JSON Grammar

The grammar of JSON texts over bytes, as relations between a text, the value read off its
front, and the text that remains. Strings are sequences of UTF-16 code units, which is what
`\u` escapes denote; unescaped characters are UTF-8. A number is kept as its literal text.

## Main results

* `ReadsChars.unique`, `ReadsValue.unique`: the grammar is unambiguous, so what a text
  denotes and where it ends are determined.
* `IsDocument.isUtf8`: only UTF-8 texts are documents.
-/

namespace Json

open Utf8

/-! ### Values -/

/-- A JSON value. -/
inductive Value
  | null
  | bool (b : Bool)
  | num (text : List UInt8)
  | str (units : List UInt16)
  | arr (elems : List Value)
  | obj (members : List (List UInt16 × Value))

/-! ### Tokens -/

/-- `ws`: space, tab, line feed, carriage return. -/
def IsWs (b : UInt8) : Prop := b = 0x20 ∨ b = 0x09 ∨ b = 0x0A ∨ b = 0x0D

/-- Any amount of whitespace may be skipped. -/
def Ws (s r : List UInt8) : Prop := ∃ w, (∀ b ∈ w, IsWs b) ∧ s = w ++ r

instance (b : UInt8) : Decidable (IsWs b) := inferInstanceAs (Decidable (_ ∨ _))

/-- Whitespace is decided byte by byte of the text, not over all bytes. -/
instance (priority := high) (w : List UInt8) : Decidable (∀ b ∈ w, IsWs b) :=
  List.decidableBAll _ w

/-- `DIGIT`. -/
def IsDigit (b : UInt8) : Prop := 0x30 ≤ b ∧ b ≤ 0x39

/-- `1*DIGIT`. -/
def IsDigits (t : List UInt8) : Prop := t ≠ [] ∧ ∀ b ∈ t, IsDigit b

/-- `int = zero / ( digit1-9 *DIGIT )`. -/
def IsInt (t : List UInt8) : Prop := t = [0x30] ∨ IsDigits t ∧ ∀ b ∈ t.head?, b ≠ 0x30

/-- `[ frac ]`, with `frac = decimal-point 1*DIGIT`. -/
def IsFrac (t : List UInt8) : Prop := t = [] ∨ ∃ ds, t = 0x2E :: ds ∧ IsDigits ds

/-- `[ exp ]`, with `exp = e [ minus / plus ] 1*DIGIT`. -/
def IsExp (t : List UInt8) : Prop :=
  t = [] ∨ ∃ e sign ds, t = e :: (sign ++ ds) ∧ (e = 0x65 ∨ e = 0x45) ∧
    (sign = [] ∨ sign = [0x2D] ∨ sign = [0x2B]) ∧ IsDigits ds

/-- `number = [ minus ] int [ frac ] [ exp ]`. -/
def IsNumber (t : List UInt8) : Prop :=
  ∃ minus int frac exp, t = minus ++ int ++ frac ++ exp ∧ (minus = [] ∨ minus = [0x2D]) ∧
    IsInt int ∧ IsFrac frac ∧ IsExp exp

/-- A byte that can occur in a number. -/
def IsNumberByte (b : UInt8) : Prop :=
  IsDigit b ∨ b = 0x2D ∨ b = 0x2B ∨ b = 0x2E ∨ b = 0x65 ∨ b = 0x45

instance (b : UInt8) : Decidable (IsDigit b) := inferInstanceAs (Decidable (_ ∧ _))

instance (b : UInt8) : Decidable (IsNumberByte b) := inferInstanceAs (Decidable (_ ∨ _))

/-- The text does not go on with a byte of a number. -/
def EndsNumber (r : List UInt8) : Prop := ∀ b ∈ r.head?, ¬ IsNumberByte b

/-- The code units of a character. -/
def utf16 (c : Char) : List UInt16 :=
  if c.toNat < 0x10000 then [UInt16.ofNat c.toNat]
  else [UInt16.ofNat (0xD800 + (c.toNat - 0x10000) / 0x400),
    UInt16.ofNat (0xDC00 + (c.toNat - 0x10000) % 0x400)]

/-- A character that needs no escape. -/
def Unescaped (c : Char) : Prop := 0x20 ≤ c.toNat ∧ c.toNat ≠ 0x22 ∧ c.toNat ≠ 0x5C

/-- What the byte after a backslash denotes, `\u` apart. -/
def simpleEscape : UInt8 → Option UInt16
  | 0x22 => some 0x22
  | 0x5C => some 0x5C
  | 0x2F => some 0x2F
  | 0x62 => some 0x08
  | 0x66 => some 0x0C
  | 0x6E => some 0x0A
  | 0x72 => some 0x0D
  | 0x74 => some 0x09
  | _ => none

/-- The value of a hexadecimal digit. -/
def hexValue (b : UInt8) : Option ℕ :=
  if 0x30 ≤ b ∧ b ≤ 0x39 then some (b.toNat - 0x30)
  else if 0x41 ≤ b ∧ b ≤ 0x46 then some (b.toNat - 0x41 + 10)
  else if 0x61 ≤ b ∧ b ≤ 0x66 then some (b.toNat - 0x61 + 10)
  else none

/-- The code unit of four hexadecimal digits. -/
def hexUnit (a b c d : UInt8) : Option UInt16 := do
  let a ← hexValue a
  let b ← hexValue b
  let c ← hexValue c
  let d ← hexValue d
  return UInt16.ofNat (((a * 16 + b) * 16 + c) * 16 + d)

/-- The characters of a string and the closing quotation mark. -/
inductive ReadsChars : List UInt8 → List UInt16 → List UInt8 → Prop
  | close {r} : ReadsChars (0x22 :: r) [] r
  | plain {c s t u v r} : Unescaped c → s = String.utf8EncodeChar c ++ t → v = utf16 c ++ u →
      ReadsChars t u r → ReadsChars s v r
  | escape {b unit s u r} : simpleEscape b = some unit → ReadsChars s u r →
      ReadsChars (0x5C :: b :: s) (unit :: u) r
  | unicode {a b c d unit s u r} : hexUnit a b c d = some unit → ReadsChars s u r →
      ReadsChars (0x5C :: 0x75 :: a :: b :: c :: d :: s) (unit :: u) r

/-! ### Values in a text -/

mutual

/-- A value, without whitespace before it. -/
inductive ReadsValue : List UInt8 → Value → List UInt8 → Prop
  | null {r} : ReadsValue (0x6E :: 0x75 :: 0x6C :: 0x6C :: r) .null r
  | true {r} : ReadsValue (0x74 :: 0x72 :: 0x75 :: 0x65 :: r) (.bool true) r
  | false {r} : ReadsValue (0x66 :: 0x61 :: 0x6C :: 0x73 :: 0x65 :: r) (.bool false) r
  /-- A number is as long as it can be. -/
  | num {s t r} : s = t ++ r → IsNumber t → EndsNumber r → ReadsValue s (.num t) r
  | str {s u r} : ReadsChars s u r → ReadsValue (0x22 :: s) (.str u) r
  | emptyArr {s r} : Ws s (0x5D :: r) → ReadsValue (0x5B :: s) (.arr []) r
  | arr {s vs r} : ReadsElements s vs r → ReadsValue (0x5B :: s) (.arr vs) r
  | emptyObj {s r} : Ws s (0x7D :: r) → ReadsValue (0x7B :: s) (.obj []) r
  | obj {s ms r} : ReadsMembers s ms r → ReadsValue (0x7B :: s) (.obj ms) r

/-- The elements of an array and the closing bracket. -/
inductive ReadsElements : List UInt8 → List Value → List UInt8 → Prop
  | last {s s₁ s₂ v r} : Ws s s₁ → ReadsValue s₁ v s₂ → Ws s₂ (0x5D :: r) →
      ReadsElements s [v] r
  | cons {s s₁ s₂ s₃ v vs r} : Ws s s₁ → ReadsValue s₁ v s₂ → Ws s₂ (0x2C :: s₃) →
      ReadsElements s₃ vs r → ReadsElements s (v :: vs) r

/-- The members of an object and the closing brace. -/
inductive ReadsMembers : List UInt8 → List (List UInt16 × Value) → List UInt8 → Prop
  | last {s m s₁ r} : ReadsMember s m s₁ → Ws s₁ (0x7D :: r) → ReadsMembers s [m] r
  | cons {s m s₁ s₂ ms r} : ReadsMember s m s₁ → Ws s₁ (0x2C :: s₂) → ReadsMembers s₂ ms r →
      ReadsMembers s (m :: ms) r

/-- A member of an object. -/
inductive ReadsMember : List UInt8 → List UInt16 × Value → List UInt8 → Prop
  | mk {s s₁ k s₂ s₃ s₄ v r} : Ws s (0x22 :: s₁) → ReadsChars s₁ k s₂ → Ws s₂ (0x3A :: s₃) →
      Ws s₃ s₄ → ReadsValue s₄ v r → ReadsMember s (k, v) r

end

/-- The text is one JSON document. -/
def IsDocument (s : List UInt8) (v : Value) : Prop :=
  ∃ s₁ s₂, Ws s s₁ ∧ ReadsValue s₁ v s₂ ∧ Ws s₂ []

/-! ### Whitespace -/

/-- The text starts with a byte that is not whitespace. -/
def StartsToken (s : List UInt8) : Prop := ∃ b r, s = b :: r ∧ ¬ IsWs b

/-- White space may be missing. -/
theorem Ws.refl (s : List UInt8) : Ws s s := ⟨[], fun _ h => absurd h List.not_mem_nil, rfl⟩

/-- A text of white space is skipped. -/
theorem Ws.of_append {w : List UInt8} (hw : ∀ b ∈ w, IsWs b) (s : List UInt8) :
    Ws (w ++ s) s := ⟨w, hw, rfl⟩

/-- Whitespace can be skipped up to one token only. -/
theorem Ws.unique {s r r' : List UInt8} (h : Ws s r) (h' : Ws s r') (hr : StartsToken r)
    (hr' : StartsToken r') : r = r' := by
  obtain ⟨w, hw, rfl⟩ := h
  obtain ⟨w', hw', heq⟩ := h'
  obtain ⟨b, t, rfl, hb⟩ := hr
  obtain ⟨b', t', rfl, hb'⟩ := hr'
  rcases List.append_eq_append_iff.mp heq with ⟨x, rfl, hx⟩ | ⟨x, rfl, hx⟩
  · cases x with
    | nil => exact hx
    | cons c x =>
        obtain ⟨rfl, -⟩ := List.cons.inj hx
        exact absurd (hw' b (by simp)) hb
  · cases x with
    | nil => exact hx.symm
    | cons c x =>
        obtain ⟨rfl, -⟩ := List.cons.inj hx
        exact absurd (hw b' (by simp)) hb'

/-- The characters with a token meaning are not whitespace. -/
theorem startsToken_cons {b : UInt8} (h : ¬ IsWs b) (r : List UInt8) : StartsToken (b :: r) :=
  ⟨b, r, rfl, h⟩

/-! ### Strings -/

/-- The letter of the hexadecimal escape is no simple escape. -/
theorem simpleEscape_u : simpleEscape 0x75 = none := rfl

/-- **Strings are unambiguous.** -/
theorem ReadsChars.unique {s r r' : List UInt8} {u u' : List UInt16}
    (h : ReadsChars s u r) (h' : ReadsChars s u' r') : u = u' ∧ r = r' := by
  induction h generalizing u' with
  | close =>
      cases h' with
      | close => exact ⟨rfl, rfl⟩
      | plain hc heq _ _ =>
          exact absurd (toNat_of_utf8EncodeChar_append (by decide) heq).1 hc.2.1
  | plain hc heq hu _ ih =>
      cases h' with
      | close => exact absurd (toNat_of_utf8EncodeChar_append (by decide) heq).1 hc.2.1
      | plain hc' heq' hu' h' =>
          obtain ⟨rfl, rfl⟩ := utf8EncodeChar_append_inj (heq.symm.trans heq')
          obtain ⟨rfl, rfl⟩ := ih h'
          exact ⟨hu.trans hu'.symm, rfl⟩
      | escape _ _ => exact absurd (toNat_of_utf8EncodeChar_append (by decide) heq).1 hc.2.2
      | unicode _ _ => exact absurd (toNat_of_utf8EncodeChar_append (by decide) heq).1 hc.2.2
  | escape hb _ ih =>
      cases h' with
      | plain hc heq _ _ =>
          exact absurd (toNat_of_utf8EncodeChar_append (by decide) heq).1 hc.2.2
      | escape hb' h' =>
          obtain ⟨rfl, rfl⟩ := ih h'
          exact ⟨by rw [Option.some.inj (hb.symm.trans hb')], rfl⟩
      | unicode _ _ => exact absurd (hb.symm.trans simpleEscape_u) (by simp)
  | unicode hunit _ ih =>
      cases h' with
      | plain hc heq _ _ =>
          exact absurd (toNat_of_utf8EncodeChar_append (by decide) heq).1 hc.2.2
      | escape hb _ => exact absurd (hb.symm.trans simpleEscape_u) (by simp)
      | unicode hunit' h' =>
          obtain ⟨rfl, rfl⟩ := ih h'
          exact ⟨by rw [Option.some.inj (hunit.symm.trans hunit')], rfl⟩

/-! ### Numbers -/

/-- Digits are bytes of numbers. -/
theorem IsDigits.isNumberByte {t : List UInt8} (h : IsDigits t) : ∀ b ∈ t, IsNumberByte b :=
  fun b hb => .inl (h.2 b hb)

/-- A number is made of number bytes. -/
theorem IsNumber.isNumberByte {t : List UInt8} (h : IsNumber t) :
    ∀ b ∈ t, IsNumberByte b := by
  obtain ⟨minus, int, frac, exp, rfl, hminus, hint, hfrac, hexp⟩ := h
  have hm : ∀ b ∈ minus, IsNumberByte b := by
    rcases hminus with rfl | rfl
    · exact fun _ h => absurd h List.not_mem_nil
    · exact fun b hb => .inr (.inl (List.mem_singleton.mp hb))
  have hi : ∀ b ∈ int, IsNumberByte b := by
    rcases hint with rfl | ⟨hds, -⟩
    · intro b hb
      rw [List.mem_singleton.mp hb]
      exact .inl ⟨by decide, by decide⟩
    · exact hds.isNumberByte
  have hf : ∀ b ∈ frac, IsNumberByte b := by
    rcases hfrac with rfl | ⟨ds, rfl, hds⟩
    · exact fun _ h => absurd h List.not_mem_nil
    · exact List.forall_mem_cons.mpr ⟨.inr (.inr (.inr (.inl rfl))), hds.isNumberByte⟩
  have he : ∀ b ∈ exp, IsNumberByte b := by
    rcases hexp with rfl | ⟨e, sign, ds, rfl, he, hsign, hds⟩
    · exact fun _ h => absurd h List.not_mem_nil
    · refine List.forall_mem_cons.mpr ⟨?_, List.forall_mem_append.mpr ⟨?_, hds.isNumberByte⟩⟩
      · rcases he with rfl | rfl
        · exact .inr (.inr (.inr (.inr (.inl rfl))))
        · exact .inr (.inr (.inr (.inr (.inr rfl))))
      · rcases hsign with rfl | rfl | rfl
        · exact fun _ h => absurd h List.not_mem_nil
        · exact fun b hb => .inr (.inl (List.mem_singleton.mp hb))
        · exact fun b hb => .inr (.inr (.inl (List.mem_singleton.mp hb)))
  exact List.forall_mem_append.mpr ⟨List.forall_mem_append.mpr
    ⟨List.forall_mem_append.mpr ⟨hm, hi⟩, hf⟩, he⟩

/-- A number is not empty. -/
theorem IsNumber.ne_nil {t : List UInt8} (h : IsNumber t) : t ≠ [] := by
  obtain ⟨minus, int, frac, exp, rfl, -, hint, -, -⟩ := h
  have hne : int ≠ [] := by
    rcases hint with rfl | ⟨hds, -⟩
    · simp
    · exact hds.1
  simp [hne]

/-- Two ways to split a text into number bytes and a text that does not go on with one are
the same. -/
theorem EndsNumber.unique {t t' r r' : List UInt8} (ht : ∀ b ∈ t, IsNumberByte b)
    (ht' : ∀ b ∈ t', IsNumberByte b) (hr : EndsNumber r) (hr' : EndsNumber r')
    (h : t ++ r = t' ++ r') : t = t' ∧ r = r' := by
  rcases List.append_eq_append_iff.mp h with ⟨x, rfl, rfl⟩ | ⟨x, rfl, rfl⟩
  · cases x with
    | nil => exact ⟨(List.append_nil _).symm, rfl⟩
    | cons b x => exact absurd (ht' b (by simp)) (hr b rfl)
  · cases x with
    | nil => exact ⟨List.append_nil _, rfl⟩
    | cons b x => exact absurd (ht b (by simp)) (hr' b rfl)

/-! ### Values -/

/-- A text that starts with a number starts with a number byte. -/
theorem isNumberByte_of_cons {t r s : List UInt8} {b : UInt8} (h : IsNumber t)
    (heq : b :: s = t ++ r) : IsNumberByte b := by
  cases t with
  | nil => exact absurd rfl h.ne_nil
  | cons c t =>
      obtain ⟨rfl, -⟩ := List.cons.inj heq
      exact h.isNumberByte b List.mem_cons_self

/-- No byte of a number is white space. -/
theorem not_isWs_of_isNumberByte {b : UInt8} (h : IsNumberByte b) : ¬ IsWs b := by
  rintro (rfl | rfl | rfl | rfl) <;> exact absurd h (by decide)

/-- A value starts with its own token. -/
theorem ReadsValue.startsToken {s r : List UInt8} {v : Value} (h : ReadsValue s v r) :
    StartsToken s := by
  cases h with
  | num heq hnum _ =>
      subst heq
      obtain ⟨b, t, rfl⟩ := List.exists_cons_of_ne_nil hnum.ne_nil
      exact ⟨b, _, rfl, not_isWs_of_isNumberByte (hnum.isNumberByte b List.mem_cons_self)⟩
  | _ => exact startsToken_cons (by decide) _

/-- Whitespace before a value can be skipped in one way only. -/
theorem Ws.unique_value {s t t' r r' : List UInt8} {v v' : Value} (h : Ws s t)
    (hv : ReadsValue t v r) (h' : Ws s t') (hv' : ReadsValue t' v' r') : t = t' :=
  h.unique h' hv.startsToken hv'.startsToken

/-- Whitespace before two punctuation marks. -/
theorem Ws.unique_cons {s r r' : List UInt8} {b b' : UInt8} (h : Ws s (b :: r))
    (h' : Ws s (b' :: r')) (hb : ¬ IsWs b) (hb' : ¬ IsWs b') : b = b' ∧ r = r' :=
  List.cons.inj (h.unique h' (startsToken_cons hb r) (startsToken_cons hb' r'))

/-- The elements of an array do not start with its end. -/
theorem ReadsElements.not_ws {s r r' : List UInt8} {vs : List Value}
    (h : ReadsElements s vs r) : ¬ Ws s (0x5D :: r') := by
  intro hws
  have hbracket : ∀ {t u : List UInt8} {v : Value}, Ws s t → ReadsValue t v u → False := by
    intro t u v hwt hv
    obtain rfl := hwt.unique hws hv.startsToken (startsToken_cons (by decide) _)
    cases hv with
    | num heq hnum _ => exact absurd (isNumberByte_of_cons hnum heq) (by decide)
  cases h with
  | last hwt hv _ => exact hbracket hwt hv
  | cons hwt hv _ _ => exact hbracket hwt hv

/-- The members of an object do not start with its end. -/
theorem ReadsMembers.not_ws {s r r' : List UInt8} {ms : List (List UInt16 × Value)}
    (h : ReadsMembers s ms r) : ¬ Ws s (0x7D :: r') := by
  intro hws
  have hbrace : ∀ {m : List UInt16 × Value} {t : List UInt8}, ReadsMember s m t → False := by
    rintro m t ⟨hquote, -, -, -, -⟩
    exact absurd (hquote.unique_cons hws (by decide) (by decide)).1 (by decide)
  cases h with
  | last hm _ => exact hbrace hm
  | cons hm _ _ => exact hbrace hm

mutual

/-- **Values are unambiguous.** -/
theorem ReadsValue.unique {s r r' : List UInt8} {v v' : Value} :
    ReadsValue s v r → ReadsValue s v' r' → v = v' ∧ r = r'
  | .null, h => by
      cases h with
      | null => exact ⟨rfl, rfl⟩
      | num heq hnum _ => exact absurd (isNumberByte_of_cons hnum heq) (by decide)
  | .true, h => by
      cases h with
      | true => exact ⟨rfl, rfl⟩
      | num heq hnum _ => exact absurd (isNumberByte_of_cons hnum heq) (by decide)
  | .false, h => by
      cases h with
      | false => exact ⟨rfl, rfl⟩
      | num heq hnum _ => exact absurd (isNumberByte_of_cons hnum heq) (by decide)
  | .num heq hnum hend, h => by
      cases h with
      | num heq' hnum' hend' =>
          obtain ⟨rfl, rfl⟩ := EndsNumber.unique hnum.isNumberByte hnum'.isNumberByte hend
            hend' (heq.symm.trans heq')
          exact ⟨rfl, rfl⟩
      | _ => exact absurd (isNumberByte_of_cons hnum heq) (by decide)
  | .str hchars, h => by
      cases h with
      | num heq hnum _ => exact absurd (isNumberByte_of_cons hnum heq) (by decide)
      | str hchars' =>
          obtain ⟨rfl, rfl⟩ := hchars.unique hchars'
          exact ⟨rfl, rfl⟩
  | .emptyArr hws, h => by
      cases h with
      | num heq hnum _ => exact absurd (isNumberByte_of_cons hnum heq) (by decide)
      | emptyArr hws' =>
          obtain ⟨-, rfl⟩ := hws.unique_cons hws' (by decide) (by decide)
          exact ⟨rfl, rfl⟩
      | arr helems => exact absurd hws helems.not_ws
  | .arr helems, h => by
      cases h with
      | num heq hnum _ => exact absurd (isNumberByte_of_cons hnum heq) (by decide)
      | emptyArr hws => exact absurd hws helems.not_ws
      | arr helems' =>
          obtain ⟨rfl, rfl⟩ := ReadsElements.unique helems helems'
          exact ⟨rfl, rfl⟩
  | .emptyObj hws, h => by
      cases h with
      | num heq hnum _ => exact absurd (isNumberByte_of_cons hnum heq) (by decide)
      | emptyObj hws' =>
          obtain ⟨-, rfl⟩ := hws.unique_cons hws' (by decide) (by decide)
          exact ⟨rfl, rfl⟩
      | obj hmembers => exact absurd hws hmembers.not_ws
  | .obj hmembers, h => by
      cases h with
      | num heq hnum _ => exact absurd (isNumberByte_of_cons hnum heq) (by decide)
      | emptyObj hws => exact absurd hws hmembers.not_ws
      | obj hmembers' =>
          obtain ⟨rfl, rfl⟩ := ReadsMembers.unique hmembers hmembers'
          exact ⟨rfl, rfl⟩
termination_by structural h => h

/-- The elements of an array are unambiguous. -/
theorem ReadsElements.unique {s r r' : List UInt8} {vs vs' : List Value} :
    ReadsElements s vs r → ReadsElements s vs' r' → vs = vs' ∧ r = r'
  | .last hws hv hend, h => by
      cases h with
      | last hws' hv' hend' =>
          obtain rfl := hws.unique_value hv hws' hv'
          obtain ⟨rfl, rfl⟩ := ReadsValue.unique hv hv'
          obtain ⟨-, rfl⟩ := hend.unique_cons hend' (by decide) (by decide)
          exact ⟨rfl, rfl⟩
      | cons hws' hv' hsep _ =>
          obtain rfl := hws.unique_value hv hws' hv'
          obtain ⟨rfl, rfl⟩ := ReadsValue.unique hv hv'
          exact absurd (hend.unique_cons hsep (by decide) (by decide)).1 (by decide)
  | .cons hws hv hsep hrest, h => by
      cases h with
      | last hws' hv' hend =>
          obtain rfl := hws.unique_value hv hws' hv'
          obtain ⟨rfl, rfl⟩ := ReadsValue.unique hv hv'
          exact absurd (hsep.unique_cons hend (by decide) (by decide)).1 (by decide)
      | cons hws' hv' hsep' hrest' =>
          obtain rfl := hws.unique_value hv hws' hv'
          obtain ⟨rfl, rfl⟩ := ReadsValue.unique hv hv'
          obtain ⟨-, rfl⟩ := hsep.unique_cons hsep' (by decide) (by decide)
          obtain ⟨rfl, rfl⟩ := ReadsElements.unique hrest hrest'
          exact ⟨rfl, rfl⟩
termination_by structural h => h

/-- The members of an object are unambiguous. -/
theorem ReadsMembers.unique {s r r' : List UInt8} {ms ms' : List (List UInt16 × Value)} :
    ReadsMembers s ms r → ReadsMembers s ms' r' → ms = ms' ∧ r = r'
  | .last hm hend, h => by
      cases h with
      | last hm' hend' =>
          obtain ⟨rfl, rfl⟩ := ReadsMember.unique hm hm'
          obtain ⟨-, rfl⟩ := hend.unique_cons hend' (by decide) (by decide)
          exact ⟨rfl, rfl⟩
      | cons hm' hsep _ =>
          obtain ⟨rfl, rfl⟩ := ReadsMember.unique hm hm'
          exact absurd (hend.unique_cons hsep (by decide) (by decide)).1 (by decide)
  | .cons hm hsep hrest, h => by
      cases h with
      | last hm' hend =>
          obtain ⟨rfl, rfl⟩ := ReadsMember.unique hm hm'
          exact absurd (hsep.unique_cons hend (by decide) (by decide)).1 (by decide)
      | cons hm' hsep' hrest' =>
          obtain ⟨rfl, rfl⟩ := ReadsMember.unique hm hm'
          obtain ⟨-, rfl⟩ := hsep.unique_cons hsep' (by decide) (by decide)
          obtain ⟨rfl, rfl⟩ := ReadsMembers.unique hrest hrest'
          exact ⟨rfl, rfl⟩
termination_by structural h => h

/-- A member of an object is unambiguous. -/
theorem ReadsMember.unique {s r r' : List UInt8} {m m' : List UInt16 × Value} :
    ReadsMember s m r → ReadsMember s m' r' → m = m' ∧ r = r'
  | .mk hquote hkey hcolon hws hv, .mk hquote' hkey' hcolon' hws' hv' => by
      obtain ⟨-, rfl⟩ := hquote.unique_cons hquote' (by decide) (by decide)
      obtain ⟨hk, rfl⟩ := hkey.unique hkey'
      obtain ⟨-, rfl⟩ := hcolon.unique_cons hcolon' (by decide) (by decide)
      obtain rfl := hws.unique_value hv hws' hv'
      obtain ⟨hval, rfl⟩ := ReadsValue.unique hv hv'
      exact ⟨Prod.ext hk hval, rfl⟩
termination_by structural h => h

end

/-- A text is at most one document. -/
theorem IsDocument.unique {s : List UInt8} {v v' : Value} (h : IsDocument s v)
    (h' : IsDocument s v') : v = v' := by
  obtain ⟨t, r, hws, hv, -⟩ := h
  obtain ⟨t', r', hws', hv', -⟩ := h'
  obtain rfl := hws.unique_value hv hws' hv'
  exact (hv.unique hv').1

/-- The text is one JSON document, which has this value and no other. -/
def ParsesAs (s : List UInt8) (v : Value) : Prop := ∀ w, IsDocument s w ↔ w = v

/-- A document parses as its value. -/
theorem parsesAs_iff {s : List UInt8} {v : Value} : ParsesAs s v ↔ IsDocument s v := by
  refine ⟨fun h => (h v).mpr rfl, fun h w => ⟨fun hw => hw.unique h, ?_⟩⟩
  rintro rfl
  exact h

/-! ### Encoding -/

/-- Whitespace does not matter to the encoding. -/
theorem Ws.isUtf8_iff {s r : List UInt8} (h : Ws s r) : IsUtf8 s ↔ IsUtf8 r := by
  obtain ⟨w, hw, rfl⟩ := h
  refine isUtf8_append_iff_of_lt fun b hb => ?_
  rcases hw b hb with rfl | rfl | rfl | rfl <;> decide

/-- Whitespace up to a punctuation mark. -/
theorem Ws.isUtf8_cons_iff {s r : List UInt8} {b : UInt8} (h : Ws s (b :: r)) (hb : b < 0x80) :
    IsUtf8 s ↔ IsUtf8 r := by
  rw [h.isUtf8_iff, Utf8.isUtf8_cons_iff hb]

/-- The letters of the simple escapes are ASCII. -/
theorem lt_of_simpleEscape {b : UInt8} {unit : UInt16} (h : simpleEscape b = some unit) :
    b < 0x80 := by
  unfold simpleEscape at h
  split at h
  all_goals first | decide | exact absurd h (by simp)

/-- Hexadecimal digits are ASCII. -/
theorem lt_of_hexValue {b : UInt8} {n : ℕ} (h : hexValue b = some n) : b < 0x80 := by
  rw [hexValue] at h
  split_ifs at h with hdigit hupper hlower
  · exact UInt8.lt_of_le_of_lt hdigit.2 (by decide)
  · exact UInt8.lt_of_le_of_lt hupper.2 (by decide)
  · exact UInt8.lt_of_le_of_lt hlower.2 (by decide)

/-- So are the four digits of a code unit. -/
theorem lt_of_hexUnit {a b c d : UInt8} {unit : UInt16} (h : hexUnit a b c d = some unit) :
    a < 0x80 ∧ b < 0x80 ∧ c < 0x80 ∧ d < 0x80 := by
  simp only [hexUnit, Option.bind_eq_bind, Option.bind_eq_some_iff] at h
  obtain ⟨_, ha, _, hb, _, hc, _, hd, -⟩ := h
  exact ⟨lt_of_hexValue ha, lt_of_hexValue hb, lt_of_hexValue hc, lt_of_hexValue hd⟩

/-- The bytes of numbers are ASCII. -/
theorem lt_of_isNumberByte {b : UInt8} (h : IsNumberByte b) : b < 0x80 := by
  rcases h with h | rfl | rfl | rfl | rfl | rfl
  · exact UInt8.lt_of_le_of_lt h.2 (by decide)
  all_goals decide

/-- The characters of a string are UTF-8. -/
theorem ReadsChars.isUtf8_iff {s r : List UInt8} {u : List UInt16} (h : ReadsChars s u r) :
    IsUtf8 s ↔ IsUtf8 r := by
  induction h with
  | close => exact isUtf8_cons_iff (by decide)
  | plain _ heq _ _ ih => rw [heq, isUtf8_utf8EncodeChar_append_iff, ih]
  | escape hb _ ih =>
      rw [isUtf8_cons_iff (by decide), isUtf8_cons_iff (lt_of_simpleEscape hb), ih]
  | unicode hunit _ ih =>
      obtain ⟨ha, hb, hc, hd⟩ := lt_of_hexUnit hunit
      rw [isUtf8_cons_iff (by decide), isUtf8_cons_iff (by decide), isUtf8_cons_iff ha,
        isUtf8_cons_iff hb, isUtf8_cons_iff hc, isUtf8_cons_iff hd, ih]

mutual

/-- What is read as a value is UTF-8. -/
theorem ReadsValue.isUtf8_iff {s r : List UInt8} {v : Value} :
    ReadsValue s v r → (IsUtf8 s ↔ IsUtf8 r)
  | .null => isUtf8_append_iff_of_lt (s := [0x6E, 0x75, 0x6C, 0x6C]) (by decide)
  | .true => isUtf8_append_iff_of_lt (s := [0x74, 0x72, 0x75, 0x65]) (by decide)
  | .false => isUtf8_append_iff_of_lt (s := [0x66, 0x61, 0x6C, 0x73, 0x65]) (by decide)
  | .num heq hnum _ => by
      rw [heq]
      exact isUtf8_append_iff_of_lt fun b hb => lt_of_isNumberByte (hnum.isNumberByte b hb)
  | .str h => (isUtf8_cons_iff (by decide)).trans h.isUtf8_iff
  | .emptyArr h => (isUtf8_cons_iff (by decide)).trans (h.isUtf8_cons_iff (by decide))
  | .arr h => (isUtf8_cons_iff (by decide)).trans h.isUtf8_iff
  | .emptyObj h => (isUtf8_cons_iff (by decide)).trans (h.isUtf8_cons_iff (by decide))
  | .obj h => (isUtf8_cons_iff (by decide)).trans h.isUtf8_iff
termination_by structural h => h

/-- Reading the elements of an array keeps the rest UTF-8 or not. -/
theorem ReadsElements.isUtf8_iff {s r : List UInt8} {vs : List Value} :
    ReadsElements s vs r → (IsUtf8 s ↔ IsUtf8 r)
  | .last hws hv hend =>
      (hws.isUtf8_iff.trans hv.isUtf8_iff).trans (hend.isUtf8_cons_iff (by decide))
  | .cons hws hv hsep hrest =>
      ((hws.isUtf8_iff.trans hv.isUtf8_iff).trans (hsep.isUtf8_cons_iff (by decide))).trans
        hrest.isUtf8_iff
termination_by structural h => h

/-- Reading the members of an object keeps the rest UTF-8 or not. -/
theorem ReadsMembers.isUtf8_iff {s r : List UInt8} {ms : List (List UInt16 × Value)} :
    ReadsMembers s ms r → (IsUtf8 s ↔ IsUtf8 r)
  | .last hm hend => hm.isUtf8_iff.trans (hend.isUtf8_cons_iff (by decide))
  | .cons hm hsep hrest =>
      (hm.isUtf8_iff.trans (hsep.isUtf8_cons_iff (by decide))).trans hrest.isUtf8_iff
termination_by structural h => h

/-- Reading one member keeps the rest UTF-8 or not. -/
theorem ReadsMember.isUtf8_iff {s r : List UInt8} {m : List UInt16 × Value} :
    ReadsMember s m r → (IsUtf8 s ↔ IsUtf8 r)
  | .mk hquote hkey hcolon hws hv =>
      (((hquote.isUtf8_cons_iff (by decide)).trans hkey.isUtf8_iff).trans
        (hcolon.isUtf8_cons_iff (by decide))).trans (hws.isUtf8_iff.trans hv.isUtf8_iff)
termination_by structural h => h

end

/-- **A document is UTF-8.** -/
theorem IsDocument.isUtf8 {s : List UInt8} {v : Value} (h : IsDocument s v) : IsUtf8 s := by
  obtain ⟨t, r, hws, hv, hend⟩ := h
  rw [hws.isUtf8_iff, hv.isUtf8_iff, hend.isUtf8_iff]
  exact isUtf8_encode []

end Json
