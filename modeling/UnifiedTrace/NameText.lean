import Mathlib.Data.List.Forall2
import UnifiedTrace.CallChain
import UnifiedTrace.JsonText
import UnifiedTrace.Utf8

/-!
# Names in the Output are Cut by Bytes

A name goes through two buffers on its way into the output: `copy_str` keeps its first
`BSW_STR_MAX - 1` bytes, and `json_escape` stops when the escaped text fills a buffer of twice
that size. Both count bytes, so either may stop in the middle of a character.

## Main results

* `isUtf8_printedName_iff`: the printed form of a UTF-8 name is UTF-8 exactly when neither
  limit falls inside a character.
* `printsUtf8_iff`: so for everything that `emit_stack_json` prints.
* `isUtf8_stackText_iff`: the printed array is UTF-8 exactly when its strings are.
-/

/-- Statements about the elements of related lists. -/
theorem List.Forall₂.forall_mem_iff {α β : Type*} {R : α → β → Prop} {P : α → Prop}
    {Q : β → Prop} {l : List α} {l' : List β} (h : List.Forall₂ R l l')
    (hPQ : ∀ a, ∀ b ∈ l', R a b → (P a ↔ Q b)) : (∀ a ∈ l, P a) ↔ ∀ b ∈ l', Q b := by
  induction h with
  | nil => exact iff_of_true (by simp) (by simp)
  | @cons a b l l' hab htail ih =>
      rw [List.forall_mem_cons, List.forall_mem_cons, hPQ a b List.mem_cons_self hab,
        ih fun a' b' hb' => hPQ a' b' (List.mem_cons_of_mem b hb')]

/-- Every element has one it is related to. -/
theorem List.Forall₂.exists_of_mem {α β : Type*} {R : α → β → Prop} {l : List α} {l' : List β}
    (h : List.Forall₂ R l l') {a : α} (ha : a ∈ l) : ∃ b ∈ l', R a b := by
  induction h with
  | nil => exact absurd ha List.not_mem_nil
  | @cons a' b l l' hab _ ih =>
      rcases List.mem_cons.mp ha with rfl | ha
      · exact ⟨b, List.mem_cons_self, hab⟩
      · obtain ⟨b', hb', hab'⟩ := ih ha
        exact ⟨b', List.mem_cons_of_mem b hb', hab'⟩

namespace UnifiedTrace

open Json Printf Utf8

/-! ### Where a name is cut -/

/-- How many bytes `json_escape` writes for a character. -/
def escapedSize (c : Char) : ℕ :=
  if c.toNat = 0x22 ∨ c.toNat = 0x5C then 2 else if c.toNat < 0x20 then 6 else c.utf8Size

/-- How many bytes `json_escape` writes for a text. -/
def escapedLength (cs : List Char) : ℕ := (cs.map escapedSize).sum

/-- With `n` bytes left to copy and `di` bytes written into a buffer of `dstLen`, every
character that is begun before the end of the string is completed. -/
def NotCutFrom (dstLen n di : ℕ) (cs : List Char) : Prop :=
  ∀ pre c post, cs = pre ++ c :: post → (∀ d ∈ pre, d.toNat ≠ 0) →
    (encode pre).length < n → di + escapedLength pre + 2 < dstLen →
    (encode pre).length + c.utf8Size ≤ n ∧ di + escapedLength pre + c.utf8Size + 2 ≤ dstLen

/-- Neither of the two limits falls inside a character of the name. -/
def NotCut (name : Bytes) : Prop :=
  ∀ cs, name = encode cs → NotCutFrom (bswStrMax * 2) (bswStrMax - 1) 0 cs

/-- What is printed of a name. -/
def printedName (name : Bytes) : Bytes :=
  escapedField (cString (copyStr (List.replicate bswStrMax 0) name))

/-- The first character, and the rest after it. -/
theorem notCutFrom_cons_iff {dstLen n di : ℕ} {c : Char} {cs : List Char} (hn : 0 < n)
    (hdi : di + 2 < dstLen) :
    NotCutFrom dstLen n di (c :: cs) ↔
      (c.utf8Size ≤ n ∧ di + c.utf8Size + 2 ≤ dstLen) ∧
        (c.toNat ≠ 0 → NotCutFrom dstLen (n - c.utf8Size) (di + escapedSize c) cs) := by
  have hlen : ∀ pre, (encode (c :: pre)).length = c.utf8Size + (encode pre).length := by
    intro pre
    rw [encode_cons, List.length_append, String.length_utf8EncodeChar]
  have hesc : ∀ pre, escapedLength (c :: pre) = escapedSize c + escapedLength pre := by
    intro pre
    rw [escapedLength, List.map_cons, List.sum_cons, escapedLength]
  constructor
  · intro h
    refine ⟨?_, fun hc pre d post hcs hpre hlt hfit => ?_⟩
    · have hfirst := h [] c cs rfl (by simp)
      rw [encode_nil, List.length_nil, escapedLength, List.map_nil, List.sum_nil] at hfirst
      have := hfirst hn hdi
      omega
    · have hrest := h (c :: pre) d post (by rw [hcs, List.cons_append])
        (List.forall_mem_cons.mpr ⟨hc, hpre⟩)
      rw [hlen, hesc] at hrest
      have := hrest (by omega) (by omega)
      omega
  · rintro ⟨hfirst, hrest⟩ pre d post hcs hpre hlt hfit
    cases pre with
    | nil =>
        obtain ⟨rfl, -⟩ := List.cons.inj hcs
        rw [encode_nil, List.length_nil, escapedLength, List.map_nil, List.sum_nil]
        omega
    | cons e pre =>
        obtain ⟨rfl, rfl⟩ := List.cons.inj hcs
        obtain ⟨hc, hpre⟩ := List.forall_mem_cons.mp hpre
        rw [hlen] at hlt ⊢
        rw [hesc] at hfit ⊢
        have := hrest hc pre d post rfl hpre (by omega) (by omega)
        omega

/-- Nothing is begun when one of the limits is reached. -/
theorem notCutFrom_of_full {dstLen n di : ℕ} (cs : List Char) (h : n = 0 ∨ dstLen ≤ di + 2) :
    NotCutFrom dstLen n di cs := by
  intro pre c post hcs hpre hlt hfit
  omega

/-! ### Escaping character by character -/

/-- The loop copies bytes that need no escape until the buffer is full. -/
theorem jsonEscapeLoop_append {bs : Bytes} (h : ∀ b ∈ bs, 0x80 ≤ b) {dstLen di : ℕ}
    (hdi : di + 2 ≤ dstLen) (rest : Bytes) :
    jsonEscapeLoop dstLen di (bs ++ rest) =
      if di + bs.length + 2 ≤ dstLen then bs ++ jsonEscapeLoop dstLen (di + bs.length) rest
      else bs.take (dstLen - 2 - di) := by
  induction bs generalizing di with
  | nil =>
      rw [List.length_nil, Nat.add_zero, if_pos hdi, List.nil_append, List.nil_append]
      rfl
  | cons b bs ih =>
      obtain ⟨hb, hbs⟩ := List.forall_mem_cons.mp h
      have hplain : ¬ (b = 0x22 ∨ b = 0x5C) ∧ ¬ b < 0x20 := by
        rw [UInt8.le_iff_toNat_le, show (0x80 : UInt8).toNat = 128 from rfl] at hb
        refine ⟨?_, fun hlt => ?_⟩
        · rintro (rfl | rfl)
          · exact absurd hb (by decide)
          · exact absurd hb (by decide)
        · rw [UInt8.lt_iff_toNat_lt, show (0x20 : UInt8).toNat = 32 from rfl] at hlt
          omega
      rw [List.cons_append, jsonEscapeLoop, if_neg hplain.1, if_neg hplain.2, List.length_cons]
      by_cases hroom : di + 2 < dstLen
      · rw [if_pos hroom, ih hbs (by omega)]
        by_cases hfit : di + 1 + bs.length + 2 ≤ dstLen
        · rw [if_pos hfit, if_pos (by omega), List.cons_append,
            show di + 1 + bs.length = di + (bs.length + 1) by omega]
        · rw [if_neg hfit, if_neg (by omega),
            show dstLen - 2 - di = dstLen - 2 - (di + 1) + 1 by omega, List.take_succ_cons]
      · rw [if_neg hroom, if_neg (by omega), show dstLen - 2 - di = 0 by omega, List.take_zero]

/-- With at most two bytes left, nothing more is written. -/
theorem jsonEscapeLoop_of_le {dstLen di : ℕ} (h : dstLen ≤ di + 2) (src : Bytes) :
    jsonEscapeLoop dstLen di src = [] := by
  cases src with
  | nil => rfl
  | cons b src => rw [jsonEscapeLoop, if_neg (by omega)]

/-- Whether a text is UTF-8 need not be asked where it is empty. -/
theorem isUtf8_iff_of_nil {p : Prop} {s : Bytes} (h : ¬ p → s = []) :
    IsUtf8 s ↔ (p → IsUtf8 s) := by
  refine ⟨fun hs _ => hs, fun hs => ?_⟩
  rcases em p with hp | hp
  · exact hs hp
  · rw [h hp]
    exact isUtf8_encode []

/-- The escape of a control character is ASCII. -/
theorem isAscii_unicodeEscape {b : UInt8} (hb : b < 0x20) : IsAscii (unicodeEscape b) := by
  have hall : ∀ n < 0x20, IsAscii (unicodeEscape (UInt8.ofNat n)) := by decide
  have hn := hall b.toNat hb
  rwa [UInt8.ofNat_toNat] at hn

/-- A character that needs more than one byte is copied as a whole or cut. -/
theorem isUtf8_jsonEscapeLoop_of_utf8Size_ne_one {c : Char} (hc : c.utf8Size ≠ 1)
    {dstLen n di : ℕ} (hn : 0 < n) (hdi : di + 2 < dstLen) (rest : Bytes) :
    IsUtf8 (jsonEscapeLoop dstLen di
        (((String.utf8EncodeChar c ++ rest).take n).takeWhile (· ≠ 0))) ↔
      (c.utf8Size ≤ n ∧ di + c.utf8Size + 2 ≤ dstLen) ∧
        IsUtf8 (jsonEscapeLoop dstLen (di + c.utf8Size)
          ((rest.take (n - c.utf8Size)).takeWhile (· ≠ 0))) := by
  have hlen := String.length_utf8EncodeChar c
  have hbytes : ∀ b ∈ String.utf8EncodeChar c, 0x80 ≤ b := fun b hb =>
    le_of_mem_utf8EncodeChar hc hb
  have hself : ∀ bs : Bytes, bs ⊆ String.utf8EncodeChar c → ∀ ds : Bytes,
      (bs ++ ds).takeWhile (· ≠ 0) = bs ++ ds.takeWhile (· ≠ 0) := by
    intro bs hbs ds
    refine List.takeWhile_append_of_pos fun b hb => decide_eq_true ?_
    rintro rfl
    exact absurd (hbytes 0 (hbs hb)) (by decide)
  rcases Nat.lt_or_ge n c.utf8Size with hcut | hfit
  · -- the copy stops inside the character
    have htake : (String.utf8EncodeChar c ++ rest).take n =
        (String.utf8EncodeChar c).take n ++ [] := by
      rw [List.take_append_of_le_length (by omega), List.append_nil]
    have hsubset : (String.utf8EncodeChar c).take n ⊆ String.utf8EncodeChar c :=
      List.take_subset n _
    refine iff_of_false ?_ fun h => by omega
    rw [htake, hself _ hsubset, List.takeWhile_nil,
      jsonEscapeLoop_append (fun b hb => hbytes b (hsubset hb)) hdi.le, jsonEscapeLoop,
      List.append_nil, List.take_take]
    split
    · exact not_isUtf8_take hn hcut
    · exact not_isUtf8_take (by omega) (by omega)
  · have htake : (String.utf8EncodeChar c ++ rest).take n =
        String.utf8EncodeChar c ++ rest.take (n - c.utf8Size) := by
      rw [List.take_append, hlen, List.take_of_length_le (by omega)]
    rw [htake, hself _ (List.Subset.refl _), jsonEscapeLoop_append hbytes hdi.le, hlen]
    split
    · rename_i hroom
      rw [isUtf8_utf8EncodeChar_append_iff, and_iff_right ⟨hfit, hroom⟩]
    · -- the buffer is full inside the character
      rename_i hfull
      exact iff_of_false (not_isUtf8_take (by omega) (by omega)) fun h => hfull h.1.2

/-- An ASCII character is escaped as a whole or not at all. -/
theorem isUtf8_jsonEscapeLoop_of_utf8Size_eq_one {c : Char} (hc : c.utf8Size = 1)
    {dstLen n di : ℕ} (hn : 0 < n) (hdi : di + 2 < dstLen) (rest : Bytes) :
    IsUtf8 (jsonEscapeLoop dstLen di
        (((String.utf8EncodeChar c ++ rest).take n).takeWhile (· ≠ 0))) ↔
      (c.toNat ≠ 0 → di + escapedSize c + 2 < dstLen →
        IsUtf8 (jsonEscapeLoop dstLen (di + escapedSize c)
          ((rest.take (n - 1)).takeWhile (· ≠ 0)))) := by
  obtain ⟨hlt, hbytes⟩ := utf8EncodeChar_of_utf8Size_eq_one hc
  obtain ⟨k, rfl⟩ : ∃ k, n = k + 1 := ⟨n - 1, by omega⟩
  have hnat : (UInt8.ofNat c.toNat).toNat = c.toNat :=
    UInt8.toNat_ofNat_of_lt' (hlt.trans (by decide))
  have heq : ∀ m : UInt8, UInt8.ofNat c.toNat = m ↔ c.toNat = m.toNat := by
    intro m
    rw [← UInt8.toNat_inj, hnat]
  have hcontrol : UInt8.ofNat c.toNat < 0x20 ↔ c.toNat < 0x20 := by
    rw [UInt8.lt_iff_toNat_lt, hnat]
    rfl
  have hascii : UInt8.ofNat c.toNat < 0x80 := by
    rw [UInt8.lt_iff_toNat_lt, hnat]
    exact hlt
  have hrest : ∀ src, ¬ di + escapedSize c + 2 < dstLen →
      jsonEscapeLoop dstLen (di + escapedSize c) src = [] := fun src hfull =>
    jsonEscapeLoop_of_le (by omega) src
  rw [hbytes, List.singleton_append, List.take_succ_cons, Nat.add_sub_cancel]
  rcases eq_or_ne c.toNat 0 with hzero | hne
  · rw [hzero, List.takeWhile_cons_of_neg (by simp), jsonEscapeLoop]
    exact iff_of_true (isUtf8_encode []) fun h => absurd rfl h
  · have hbyte : UInt8.ofNat c.toNat ≠ 0 := fun h => hne ((heq 0).mp h)
    rw [List.takeWhile_cons_of_pos (by simpa using hbyte), jsonEscapeLoop, if_pos hdi,
      forall_prop_of_true hne]
    by_cases hspecial : c.toNat = 0x22 ∨ c.toNat = 0x5C
    · have hsize : escapedSize c = 2 := if_pos hspecial
      rw [hsize] at hrest ⊢
      rw [if_pos (hspecial.imp (heq 0x22).mpr (heq 0x5C).mpr)]
      split
      · exact iff_of_true (isUtf8_encode []) fun h => by omega
      · rw [isUtf8_cons_iff (by decide), isUtf8_cons_iff hascii]
        exact isUtf8_iff_of_nil (hrest _)
    · rw [if_neg (mt (Or.imp (heq 0x22).mp (heq 0x5C).mp) hspecial)]
      by_cases hctl : c.toNat < 0x20
      · have hsize : escapedSize c = 6 := by rw [escapedSize, if_neg hspecial, if_pos hctl]
        rw [hsize] at hrest ⊢
        rw [if_pos (hcontrol.mpr hctl)]
        split
        · exact iff_of_true (isUtf8_encode []) fun h => by omega
        · rw [isUtf8_append_iff_of_lt (isAscii_unicodeEscape (hcontrol.mpr hctl))]
          exact isUtf8_iff_of_nil (hrest _)
      · have hsize : escapedSize c = 1 := by
          rw [escapedSize, if_neg hspecial, if_neg hctl, hc]
        rw [hsize] at hrest ⊢
        rw [if_neg (mt hcontrol.mp hctl), isUtf8_cons_iff hascii]
        exact isUtf8_iff_of_nil (hrest _)

/-- **What the two buffers leave of a text** is UTF-8 exactly when no character of it is cut. -/
theorem isUtf8_jsonEscapeLoop_iff (dstLen n di : ℕ) (cs : List Char) :
    IsUtf8 (jsonEscapeLoop dstLen di (((encode cs).take n).takeWhile (· ≠ 0))) ↔
      NotCutFrom dstLen n di cs := by
  induction cs generalizing n di with
  | nil =>
      rw [encode_nil, List.take_nil, List.takeWhile_nil, jsonEscapeLoop]
      exact iff_of_true (isUtf8_encode []) fun pre c post hcs => absurd hcs (by simp)
  | cons c cs ih =>
      rcases Nat.eq_zero_or_pos n with rfl | hn
      · rw [List.take_zero, List.takeWhile_nil, jsonEscapeLoop]
        exact iff_of_true (isUtf8_encode []) (notCutFrom_of_full _ (.inl rfl))
      rcases Nat.lt_or_ge (di + 2) dstLen with hdi | hdi
      · rw [notCutFrom_cons_iff hn hdi, encode_cons]
        rcases eq_or_ne c.utf8Size 1 with hone | hmany
        · rw [isUtf8_jsonEscapeLoop_of_utf8Size_eq_one hone hn hdi, hone,
            and_iff_right ⟨hn, by omega⟩]
          refine forall_congr' fun hc => ?_
          rw [ih]
          refine ⟨fun h => ?_, fun h _ => h⟩
          rcases Nat.lt_or_ge (di + escapedSize c + 2) dstLen with hroom | hfull
          · exact h hroom
          · exact notCutFrom_of_full _ (.inr hfull)
        · have hnat : ¬ c.toNat < 0x80 := by
            intro hlt
            refine hmany (Char.utf8Size_eq_one_iff.mpr (UInt32.le_iff_toNat_le.mpr ?_))
            exact Nat.le_of_lt_succ hlt
          have hesc : escapedSize c = c.utf8Size := by
            rw [escapedSize, if_neg (by omega), if_neg (by omega)]
          rw [isUtf8_jsonEscapeLoop_of_utf8Size_ne_one hmany hn hdi, ih, hesc]
          refine and_congr_right fun _ => ⟨fun h _ => h, fun h => h (by omega)⟩
      · rw [jsonEscapeLoop_of_le hdi]
        exact iff_of_true (isUtf8_encode []) (notCutFrom_of_full _ (.inr hdi))

/-! ### Names -/

/-- A name is copied up to its first NUL or the end of the field. -/
theorem take_cString_copyStr (name : Bytes) :
    cString (copyStr (List.replicate bswStrMax 0) name) =
      (name.take (bswStrMax - 1)).takeWhile (· ≠ 0) := by
  have htake : name.take (min name.length (bswStrMax - 1)) = name.take (bswStrMax - 1) := by
    rcases Nat.le_total name.length (bswStrMax - 1) with h | h
    · rw [Nat.min_eq_left h, List.take_length, List.take_of_length_le h]
    · rw [Nat.min_eq_right h]
  rw [cString, copyStr, htake, List.takeWhile_append, List.takeWhile_cons_of_neg (by simp),
    List.append_nil]
  split
  · rename_i h
    exact ((List.takeWhile_prefix _).eq_of_length h).symm
  · rfl

/-- The text of a field is what the escape loop writes into its buffer. -/
theorem escapedField_eq (s : Bytes) : escapedField s = jsonEscapeLoop (bswStrMax * 2) 0 s := by
  rw [escapedField, jsonEscape, if_neg (by rw [bswStrMax]; omega), Option.getD_some]

/-- **When the printed form of a name is UTF-8**: exactly when neither limit falls inside a
character. -/
theorem isUtf8_printedName_iff {name : Bytes} (h : IsUtf8 name) :
    IsUtf8 (printedName name) ↔ NotCut name := by
  obtain ⟨cs, rfl⟩ := isUtf8_iff.mp h
  rw [printedName, take_cString_copyStr, escapedField_eq, isUtf8_jsonEscapeLoop_iff]
  refine ⟨fun hcut ds hds => ?_, fun hcut => hcut cs rfl⟩
  rwa [← encode_injective hds]

/-- What follows the last slash of a UTF-8 path is UTF-8. -/
theorem isUtf8_basename {path : Bytes} (h : IsUtf8 path) : IsUtf8 (basename path) := by
  have hsplit := List.takeWhile_append_dropWhile (p := fun b : UInt8 => b ≠ 0x2F)
    (l := path.reverse)
  rw [basename]
  cases hrest : path.reverse.dropWhile (· ≠ 0x2F) with
  | nil =>
      rw [hrest, List.append_nil] at hsplit
      rw [hsplit, List.reverse_reverse]
      exact h
  | cons b rest =>
      have hslash : b = 0x2F := by
        have hhead := List.head_dropWhile_not (p := fun b : UInt8 => b ≠ 0x2F) (l := path.reverse)
          (by rw [hrest]; exact List.cons_ne_nil b rest)
        simp only [hrest, List.head_cons] at hhead
        simpa using hhead
      have hpath : path = rest.reverse ++ 0x2F ::
          (path.reverse.takeWhile (· ≠ 0x2F)).reverse := by
        rw [hrest, hslash] at hsplit
        have hrev := congrArg List.reverse hsplit
        rw [List.reverse_reverse, List.reverse_append, List.reverse_cons, List.append_assoc,
          List.singleton_append] at hrev
        exact hrev.symm
      rw [hpath] at h
      exact ((isUtf8_append_cons_iff (by decide)).mp h).2

/-- Only UTF-8 has a `&str`. -/
theorem isUtf8_of_toStr {s t : Bytes} (h : toStr s = some t) : IsUtf8 t := by
  rw [toStr] at h
  split at h
  · rename_i hvalid
    exact Option.some.inj h ▸ hvalid
  · exact absurd h (by simp)

/-! ### Frames -/

/-- The names that a frame is printed with, as the symbolizer gives them. -/
structure FrameNames where
  name : Bytes
  file : Option Bytes
  module : Option Bytes

/-- The names of the frames of a result. -/
def Symbolized.frameNames : Symbolized → List FrameNames
  | sym s => ⟨s.name, s.codeInfo.map CodeInfo.file, s.module⟩ ::
      s.inlined.map fun inl => ⟨inl.name, inl.codeInfo.map CodeInfo.file, none⟩
  | unknown => [⟨ascii "??", none, none⟩]

/-- The texts that are copied into a frame: paths are left out unless they are Unicode, and cut
down to what follows the last slash. -/
def FrameNames.texts (names : FrameNames) : List Bytes :=
  [names.name, ((names.file.bind toStr).map basename).getD [],
    ((names.module.bind toStr).map basename).getD []]

/-- The strings that are printed for a frame. -/
def StackFrame.strings : StackFrame → List Bytes
  | addr a => [ascii "0x" ++ hex a.toNat]
  | resolved frame =>
      [escapedField (if (cString frame.sym).length ≠ 0 then cString frame.sym else ascii "??"),
        escapedField (cString frame.file), escapedField (cString frame.lib)]

/-- The names behind what `emit_stack_json` prints. -/
def printedNames (env : StackEnv) (i : ℕ) (stackId : Int32) (pid : UInt32) :
    List FrameNames :=
  let addrs := shownAddrs env stackId
  if env.symbolizeEnabled ∧ env.symbolizer ∧ env.calloc i then
    ((((env.symbolize i pid addrs).getD []).take addrs.length).flatMap
      Symbolized.frameNames).take (addrs.length * 4)
  else []

/-- Every string that `emit_stack_json` prints is UTF-8. -/
def PrintsUtf8 (env : StackEnv) (i : ℕ) (stackId : Int32) (pid : UInt32) : Prop :=
  ∀ el ∈ emitStackJson env i stackId pid, ∀ s ∈ el.strings, IsUtf8 s

/-- The fields of a frame hold its names. -/
def BswFrame.Holds (frame : BswFrame) (names : FrameNames) : Prop :=
  [cString frame.sym, cString frame.file, cString frame.lib] =
    names.texts.map fun s => cString (copyStr (List.replicate bswStrMax 0) s)

/-- An empty field is the empty string. -/
theorem cString_replicate (n : ℕ) : cString (List.replicate n 0) = [] := by
  rw [cString, List.takeWhile_replicate, if_neg (by simp)]

/-- An empty text leaves the field empty. -/
theorem cString_copyStr_nil : cString (copyStr (List.replicate bswStrMax 0) []) = [] := by
  rw [take_cString_copyStr, List.take_nil, List.takeWhile_nil]

/-- The file of the code information. -/
theorem cString_setCodeInfo {frame : BswFrame} (h : frame.file = List.replicate bswStrMax 0)
    (code : Option CodeInfo) :
    cString (frame.setCodeInfo code).file =
      cString (copyStr (List.replicate bswStrMax 0)
        ((((code.map CodeInfo.file).bind toStr).map basename).getD [])) := by
  cases code with
  | none => exact (congrArg cString h).trans ((cString_replicate _).trans cString_copyStr_nil.symm)
  | some code =>
      rw [BswFrame.setCodeInfo, Option.map_some, Option.bind_some, h]
      cases toStr code.file with
      | none => exact (cString_replicate _).trans cString_copyStr_nil.symm
      | some file => rfl

/-- The source location leaves the symbol alone. -/
@[simp] theorem sym_setCodeInfo (frame : BswFrame) (code : Option CodeInfo) :
    (frame.setCodeInfo code).sym = frame.sym := by
  cases code <;> rfl

/-- The source location leaves the library alone. -/
@[simp] theorem lib_setCodeInfo (frame : BswFrame) (code : Option CodeInfo) :
    (frame.setCodeInfo code).lib = frame.lib := by
  cases code <;> rfl

/-- The frame of a symbol holds its name, its file and its module. -/
theorem holds_fillFrame (addr : UInt64) (s : Sym) :
    (fillFrame (.zeroed addr) s).Holds ⟨s.name, s.codeInfo.map CodeInfo.file, s.module⟩ := by
  have hlib : cString (fillFrame (.zeroed addr) s).lib =
      cString (copyStr (List.replicate bswStrMax 0) (((s.module.bind toStr).map basename).getD
        [])) := by
    rw [fillFrame]
    dsimp only
    rw [lib_setCodeInfo]
    cases s.module.bind toStr with
    | none => exact (cString_replicate _).trans cString_copyStr_nil.symm
    | some path => rfl
  have hfile : cString (fillFrame (.zeroed addr) s).file =
      cString (copyStr (List.replicate bswStrMax 0)
        ((((s.codeInfo.map CodeInfo.file).bind toStr).map basename).getD [])) :=
    cString_setCodeInfo rfl s.codeInfo
  have hsym : (fillFrame (.zeroed addr) s).sym = copyStr (List.replicate bswStrMax 0) s.name := by
    rw [fillFrame]
    exact sym_setCodeInfo _ _
  rw [BswFrame.Holds, hsym, hfile, hlib]
  rfl

/-- The frame of an inlined call holds its name and its file. -/
theorem holds_inlinedFrame (addr : UInt64) (inl : InlinedFn) :
    (inlinedFrame addr inl).Holds ⟨inl.name, inl.codeInfo.map CodeInfo.file, none⟩ := by
  have hfile : cString (inlinedFrame addr inl).file =
      cString (copyStr (List.replicate bswStrMax 0)
        ((((inl.codeInfo.map CodeInfo.file).bind toStr).map basename).getD [])) :=
    cString_setCodeInfo rfl inl.codeInfo
  rw [BswFrame.Holds, hfile, inlinedFrame]
  dsimp only
  rw [sym_setCodeInfo, lib_setCodeInfo]
  show [_, _, cString (List.replicate bswStrMax 0)] = _
  rw [cString_replicate, ← cString_copyStr_nil]
  rfl

/-- The frame of an unknown address holds `??` alone. -/
theorem holds_unknownFrame (addr : UInt64) :
    (unknownFrame addr).Holds ⟨ascii "??", none, none⟩ := by
  show [_, cString (List.replicate bswStrMax 0), cString (List.replicate bswStrMax 0)] = _
  rw [cString_replicate, ← cString_copyStr_nil]
  rfl

/-- The frames of a result hold its names. -/
theorem holds_framesOf (pair : UInt64 × Symbolized) :
    List.Forall₂ BswFrame.Holds (framesOf pair) pair.2.frameNames := by
  obtain ⟨addr, res⟩ := pair
  cases res with
  | sym s =>
      refine .cons (holds_fillFrame addr s) ?_
      rw [List.forall₂_map_left_iff, List.forall₂_map_right_iff]
      exact List.forall₂_same.mpr fun inl _ => holds_inlinedFrame addr inl
  | unknown => exact .cons (holds_unknownFrame addr) .nil

/-- So do those of all results. -/
theorem holds_flatMap_framesOf (pairs : List (UInt64 × Symbolized)) :
    List.Forall₂ BswFrame.Holds (pairs.flatMap framesOf)
      ((pairs.map Prod.snd).flatMap Symbolized.frameNames) := by
  induction pairs with
  | nil => exact .nil
  | cons pair pairs ih => exact List.rel_append (holds_framesOf pair) ih

/-- The names of a frame are UTF-8, as far as they are copied. -/
theorem isUtf8_of_mem_texts {names : FrameNames} (h : IsUtf8 names.name) :
    ∀ s ∈ names.texts, IsUtf8 s := by
  have hpath : ∀ path : Option Bytes,
      IsUtf8 (((path.bind toStr).map basename).getD []) := by
    intro path
    cases hstr : path.bind toStr with
    | none => exact isUtf8_encode []
    | some t =>
        obtain ⟨s, -, ht⟩ := Option.bind_eq_some_iff.mp hstr
        exact isUtf8_basename (isUtf8_of_toStr ht)
  simp only [FrameNames.texts, List.forall_mem_cons]
  exact ⟨h, hpath names.file, hpath names.module, fun s hs => absurd hs List.not_mem_nil⟩

/-- **When the strings of a frame are UTF-8**: exactly when none of its names is cut. -/
theorem isUtf8_strings_iff {frame : BswFrame} {names : FrameNames} (hholds : frame.Holds names)
    (h : IsUtf8 names.name) :
    (∀ s ∈ (StackFrame.resolved frame).strings, IsUtf8 s) ↔ ∀ s ∈ names.texts, NotCut s := by
  have hprinted : (∀ s ∈ names.texts, IsUtf8 (printedName s)) ↔ ∀ s ∈ names.texts, NotCut s :=
    forall₂_congr fun s hs => isUtf8_printedName_iff (isUtf8_of_mem_texts h s hs)
  have hsym : IsUtf8 (escapedField (if (cString frame.sym).length ≠ 0 then cString frame.sym
      else ascii "??")) ↔ IsUtf8 (escapedField (cString frame.sym)) := by
    rcases em ((cString frame.sym).length ≠ 0) with hne | hempty
    · rw [if_pos hne]
    · rw [if_neg hempty, List.length_eq_zero_iff.mp (not_not.mp hempty)]
      refine iff_of_true ?_ (isUtf8_encode [])
      exact isUtf8_iff.mpr ⟨[Char.ofNat 0x3F, Char.ofNat 0x3F], by decide⟩
  rw [← hprinted, ← List.forall_mem_map (f := printedName) (P := IsUtf8)]
  rw [BswFrame.Holds] at hholds
  have hfields := congrArg (List.map escapedField) hholds
  rw [List.map_map] at hfields
  show _ ↔ ∀ s ∈ names.texts.map (escapedField ∘ fun s => _), IsUtf8 s
  rw [← hfields]
  simp only [StackFrame.strings, List.map_cons, List.map_nil, List.forall_mem_cons, hsym]

/-! ### The printed stack -/

/-- Without the symbolizer's frames only raw addresses are printed. -/
theorem exists_addr_of_mem_emitStackJson {env : StackEnv} {i : ℕ} {stackId : Int32}
    {pid : UInt32} (h : ¬ (env.symbolizeEnabled ∧ env.symbolizer ∧ env.calloc i))
    {el : StackFrame} (hel : el ∈ emitStackJson env i stackId pid) : ∃ a, el = .addr a := by
  rw [emitStackJson] at hel
  dsimp only at hel
  split at hel
  · exact absurd hel List.not_mem_nil
  · split at hel
    · obtain ⟨a, -, rfl⟩ := List.mem_map.mp hel
      exact ⟨a, rfl⟩
    · rename_i hon
      rw [not_or, not_not, not_not] at hon
      have hcalloc : ¬ env.calloc i = true := fun hcalloc => h ⟨hon.1, hon.2, hcalloc⟩
      rw [if_pos hcalloc] at hel
      exact absurd hel List.not_mem_nil

/-- **When everything printed for a stack is UTF-8**: exactly when no name of a printed frame
is cut inside a character. -/
theorem printsUtf8_iff {env : StackEnv} {i : ℕ} {stackId : Int32} {pid : UInt32}
    (h : ∀ names ∈ printedNames env i stackId pid, IsUtf8 names.name) :
    PrintsUtf8 env i stackId pid ↔
      ∀ names ∈ printedNames env i stackId pid, ∀ s ∈ names.texts, NotCut s := by
  rw [PrintsUtf8]
  rw [printedNames] at h ⊢
  by_cases hon : env.symbolizeEnabled ∧ env.symbolizer ∧ env.calloc i
  · rw [if_pos hon] at h ⊢
    have hholds := holds_flatMap_framesOf ((shownAddrs env stackId).zip
      ((env.symbolize i pid (shownAddrs env stackId)).getD []))
    rw [map_snd_zip_eq_take] at hholds
    rw [emitStackJson_eq hon.1 hon.2.1 hon.2.2, filled_bswResolve, List.length_replicate,
      List.forall_mem_map]
    have htaken := List.forall₂_take ((shownAddrs env stackId).length * 4) hholds
    exact htaken.forall_mem_iff fun frame names hnames hframe =>
      isUtf8_strings_iff hframe (h names hnames)
  · rw [if_neg hon]
    refine iff_of_true (fun el hel s hs => ?_) fun names hnames => absurd hnames List.not_mem_nil
    obtain ⟨a, rfl⟩ := exists_addr_of_mem_emitStackJson hon hel
    obtain rfl := List.mem_singleton.mp hs
    rw [← List.append_nil (ascii "0x" ++ hex a.toNat)]
    refine (isUtf8_append_iff_of_lt ?_).mpr (isUtf8_encode [])
    have hplain : IsPlain (ascii "0x" ++ hex a.toNat) :=
      isPlain_append (by decide) (isPlain_hex _)
    exact fun b hb => (hplain b hb).2.1

/-! ### The text of the array -/

/-- A string between quotes. -/
theorem isUtf8_quoted_append_iff {p s t : Bytes} (hp : IsAscii p) :
    IsUtf8 (p ++ s ++ ascii "\"" ++ t) ↔ IsUtf8 s ∧ IsUtf8 t := by
  rw [List.append_assoc, List.append_assoc, isUtf8_append_iff_of_lt hp]
  exact isUtf8_append_cons_iff (by decide)

/-- A string that is only printed when it is not empty. -/
theorem isUtf8_optional_append_iff {p s t : Bytes} (hp : IsAscii p) :
    IsUtf8 ((if s.length ≠ 0 then p ++ s ++ ascii "\"" else []) ++ t) ↔
      IsUtf8 s ∧ IsUtf8 t := by
  rcases em (s.length ≠ 0) with hne | hempty
  · rw [if_pos hne, isUtf8_quoted_append_iff hp]
  · rw [if_neg hempty, List.length_eq_zero_iff.mp (not_not.mp hempty), List.nil_append]
    exact (and_iff_right (isUtf8_encode [])).symm

/-- A text without escapes is ASCII. -/
theorem isAscii_of_isPlain {s : Bytes} (h : IsPlain s) : IsAscii s := fun b hb => (h b hb).2.1

/-- The text of an element is UTF-8 exactly when its strings are. -/
theorem isUtf8_text_append_iff (el : StackFrame) (t : Bytes) :
    IsUtf8 (el.text ++ t) ↔ (∀ s ∈ el.strings, IsUtf8 s) ∧ IsUtf8 t := by
  cases el with
  | addr a =>
      have hplain : IsAscii (ascii "0x" ++ hex a.toNat) :=
        isAscii_of_isPlain (isPlain_append (by decide) (isPlain_hex _))
      have htext : (StackFrame.addr a).text =
          ascii "\x7b\"addr\":\"" ++ (ascii "0x" ++ hex a.toNat) ++ ascii "\"" ++
            ascii "\x7d" := by
        simp only [StackFrame.text, List.append_assoc]
        rfl
      rw [htext, List.append_assoc, isUtf8_quoted_append_iff (by decide),
        isUtf8_append_iff_of_lt (show IsAscii (ascii "\x7d") by decide), StackFrame.strings,
        List.forall_mem_singleton]
  | resolved frame =>
      have hline : IsAscii (if frame.line ≠ 0 then
          ascii ",\"line\":" ++ decimal frame.line.toNat else []) := by
        split
        · exact isAscii_append (by decide) (isAscii_of_isPlain (isPlain_decimal _))
        · exact fun b hb => absurd hb List.not_mem_nil
      have hinlined : IsAscii (if frame.inlined ≠ 0 then ascii ",\"inlined\":1" else []) := by
        split
        · decide
        · exact fun b hb => absurd hb List.not_mem_nil
      rw [StackFrame.text, List.append_assoc, List.append_assoc, List.append_assoc,
        List.append_assoc, List.append_assoc, isUtf8_quoted_append_iff (by decide),
        isUtf8_optional_append_iff (by decide), isUtf8_append_iff_of_lt hline,
        isUtf8_optional_append_iff (by decide), isUtf8_append_iff_of_lt hinlined,
        isUtf8_append_iff_of_lt (show IsAscii (ascii "\x7d") by decide), StackFrame.strings,
        List.forall_mem_cons, List.forall_mem_cons, List.forall_mem_singleton, and_assoc,
        and_assoc]

/-- The frames of a stack are UTF-8 when their strings are. -/
theorem isUtf8_intercalate_append_iff (frames : List StackFrame) (t : Bytes) :
    IsUtf8 (List.intercalate (ascii ",") (frames.map StackFrame.text) ++ t) ↔
      (∀ el ∈ frames, ∀ s ∈ el.strings, IsUtf8 s) ∧ IsUtf8 t := by
  induction frames with
  | nil => exact (and_iff_right fun el hel => absurd hel List.not_mem_nil).symm
  | cons el frames ih =>
      rw [List.forall_mem_cons, and_assoc, ← ih, ← isUtf8_text_append_iff]
      cases frames with
      | nil =>
          rw [List.map_cons, List.map_nil, List.intercalate_singleton]
          rfl
      | cons el' frames =>
          rw [List.map_cons, List.map_cons, List.intercalate_cons_cons, List.append_assoc,
            List.append_assoc, isUtf8_text_append_iff, isUtf8_text_append_iff,
            isUtf8_append_iff_of_lt (show IsAscii (ascii ",") by decide)]

/-- **When a printed stack is UTF-8**: exactly when every string in it is. -/
theorem isUtf8_stackText_iff (env : StackEnv) (i : ℕ) (stackId : Int32) (pid : UInt32) :
    IsUtf8 (stackText (emitStackJson env i stackId pid)) ↔ PrintsUtf8 env i stackId pid := by
  rw [stackText, List.append_assoc,
    isUtf8_append_iff_of_lt (show IsAscii (ascii "[") by decide), isUtf8_intercalate_append_iff,
    PrintsUtf8]
  exact and_iff_left (isUtf8_iff.mpr ⟨[Char.ofNat 0x5D], by decide⟩)

/-! ### Names that are not cut -/

/-- Escaping makes a character at most six times as long. -/
theorem escapedSize_le (c : Char) : escapedSize c ≤ 6 * c.utf8Size := by
  have hpos := c.utf8Size_pos
  rw [escapedSize]
  split
  · omega
  · split <;> omega

/-- Escaping makes a name at most six times as long. -/
theorem escapedLength_le (cs : List Char) : escapedLength cs ≤ 6 * (encode cs).length := by
  induction cs with
  | nil => exact Nat.zero_le _
  | cons c cs ih =>
      have hc := escapedSize_le c
      rw [escapedLength] at ih ⊢
      rw [List.map_cons, List.sum_cons, encode_cons, List.length_append,
        String.length_utf8EncodeChar]
      omega

/-- Names that fit into both buffers however they are escaped are not cut. -/
theorem notCut_of_length_le {name : Bytes} (h : 6 * name.length + 2 ≤ bswStrMax * 2) :
    NotCut name := by
  rintro cs rfl pre c post rfl - - -
  have hesc := escapedLength_le pre
  rw [encode_append, encode_cons, List.length_append, List.length_append,
    String.length_utf8EncodeChar] at h
  rw [bswStrMax] at h ⊢
  omega

/-- The latin letter of two bytes `C3 A9`. -/
def eAcute : Char := Char.ofNat 0xE9

/-- A stack of one address at which the symbolizer finds a function. -/
def oneAddress (name : Bytes) : StackEnv where
  stackMap := some fun _ => some fun j => if j.val < 1 then 0x400000 else 0
  symbolizeEnabled := true
  symbolizer := true
  maxStackFramesInJson := 12
  calloc := fun _ => true
  symbolize := fun _ _ _ => some [.sym { name, codeInfo := none, inlined := [], module := none }]

/-- A short name with an accent is printed as UTF-8. -/
theorem printsUtf8_iff_short_name : PrintsUtf8 (oneAddress (encode [eAcute])) 0 3 7 := by
  have hnames : printedNames (oneAddress (encode [eAcute])) 0 3 7 =
      [⟨encode [eAcute], none, none⟩] := rfl
  refine (printsUtf8_iff ?_).mpr ?_
  · rw [hnames]
    rintro names hmem
    rw [List.mem_singleton.mp hmem]
    exact isUtf8_encode _
  · rw [hnames]
    intro names hmem s hs
    rw [List.mem_singleton.mp hmem] at hs
    refine notCut_of_length_le ?_
    rcases List.mem_cons.mp hs with rfl | hs
    · decide
    · rcases List.mem_cons.mp hs with rfl | hs
      · decide
      · obtain rfl := List.mem_singleton.mp hs
        decide

/-- A name of 512 bytes whose last character has two of them. -/
def longName : Bytes := encode (List.replicate 510 (Char.ofNat 0x61) ++ [eAcute])

/-- The last character of the name loses its second byte. -/
theorem long_name_is_cut :
    IsUtf8 longName ∧
      (emitStackJson (oneAddress longName) 0 3 7).map StackFrame.strings =
        [[List.replicate 510 0x61 ++ [0xC3], [], []]] ∧
      ¬ PrintsUtf8 (oneAddress longName) 0 3 7 := by
  have hprinted : (emitStackJson (oneAddress longName) 0 3 7).map StackFrame.strings =
      [[List.replicate 510 0x61 ++ [0xC3], [], []]] := by
    decide +kernel
  refine ⟨isUtf8_encode _, hprinted, fun h => ?_⟩
  have hall : ∀ ss ∈ (emitStackJson (oneAddress longName) 0 3 7).map StackFrame.strings,
      ∀ s ∈ ss, IsUtf8 s := List.forall_mem_map.mpr h
  rw [hprinted] at hall
  have hcut := hall _ (List.mem_singleton_self _) _ List.mem_cons_self
  rw [isUtf8_append_iff_of_lt fun b hb => List.eq_of_mem_replicate hb ▸ by decide] at hcut
  exact @not_isUtf8_take eAcute 1 (by decide) (by decide) hcut

end UnifiedTrace
