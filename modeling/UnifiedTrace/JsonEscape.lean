import UnifiedTrace.ByteStores
import UnifiedTrace.StackText

/-!
# The Buffer of `json_escape`

`json_escape` of `src/user/unified_trace.c` store by store: which bytes of `dst` it writes, what
string it leaves there, and how much of the source that string stands for. Sizes are natural
numbers, since no buffer is so long that `di + 7` wraps around.

The three branches of the loop have different checks, but all of them ask for the same: the
escape of a byte is written if two bytes are left after it. The string thus ends up one byte
shorter than it would have to be.

## Main results

* `leavesString_jsonEscape`: the loop ends, stores below `dst_len` only, and leaves the string of
  `jsonEscape`.
* `jsonEscape_safe_and_faithful`: that string is well escaped and decodes to the beginning of
  the source, and to all of it if two bytes are left.
* `truncatesOnlyIfNeeded_iff`: it is the escaped form of the longest beginning that fits,
  exactly when no beginning fits with nothing left but the NUL.
-/

namespace UnifiedTrace

open ByteStores Json

/-! ### The stores -/

/-- `snprintf` into `size` bytes from index `di` on: its stores. -/
def snprintfStores (di size : ℕ) (text : Bytes) : List Store :=
  if size = 0 then [] else storesFrom di (text.take (size - 1) ++ [0])

/-- The loop of `json_escape` and the store after it, where `src` is what is left of the source
array; `none` if the loop runs past its end. -/
def escapeStores (dstLen di : ℕ) : Bytes → Option (List Store)
  | [] => none
  | c :: src =>
      if c ≠ 0 ∧ di + 2 < dstLen then
        if c = 0x22 ∨ c = 0x5C then
          if di + 3 ≥ dstLen then some [⟨di, 0⟩]
          else (escapeStores dstLen (di + 2) src).map ([⟨di, 0x5C⟩, ⟨di + 1, c⟩] ++ ·)
        else if c < 0x20 then
          if di + 7 ≥ dstLen then some [⟨di, 0⟩]
          else
            (escapeStores dstLen (di + (unicodeEscape c).length) src).map
              (snprintfStores di (dstLen - di) (unicodeEscape c) ++ ·)
        else
          (escapeStores dstLen (di + 1) src).map ([⟨di, c⟩] ++ ·)
      else
        some [⟨di, 0⟩]

/-- `json_escape`: its stores into `dst`, in order. -/
def jsonEscapeStores (dstLen : ℕ) (src : Bytes) : Option (List Store) :=
  if dstLen = 0 then some [] else escapeStores dstLen 0 src

/-- `json_escape` ends, having stored below `dst_len` only, and leaves a string in `dst`,
whatever was there. -/
def LeavesString (dstLen : ℕ) (src text : Bytes) : Prop :=
  ∃ stores, jsonEscapeStores dstLen src = some stores ∧ (∀ s ∈ stores, s.index < dstLen) ∧
    ∀ mem, HoldsString (run mem stores) text

/-! ### What is escaped and how -/

/-- The escape of a byte. -/
def escapeByte (c : UInt8) : Bytes :=
  if c = 0x22 ∨ c = 0x5C then [0x5C, c] else if c < 0x20 then unicodeEscape c else [c]

/-- The escaped form of a string. -/
def escapeText (s : Bytes) : Bytes := s.flatMap escapeByte

/-- Decoding an escaped string byte by byte: `\\"`, `\\\\` and `\\u00XX` stand for a byte, and
quotation marks, backslashes and control bytes stand nowhere else. -/
def unescape : Bytes → Option Bytes
  | [] => some []
  | c :: text =>
      if c = 0x5C then
        match text with
        | [] => none
        | e :: text =>
            if e = 0x22 ∨ e = 0x5C then (unescape text).map (e :: ·)
            else
              match text with
              | z₁ :: z₂ :: h :: l :: text =>
                  if e = 0x75 ∧ z₁ = 0x30 ∧ z₂ = 0x30 then
                    (hexUnit z₁ z₂ h l).bind fun u => (unescape text).map (u.toUInt8 :: ·)
                  else none
              | _ => none
      else if c = 0x22 ∨ c < 0x20 then none
      else (unescape text).map (c :: ·)

/-- That a text has no control byte is decided byte by byte of the text, not over all bytes. -/
instance (priority := high) decidableNoControl (s : Bytes) : Decidable (∀ b ∈ s, 0x20 ≤ b) :=
  List.decidableBAll _ s

/-! ### One byte -/

/-- A control character is written as six bytes. -/
theorem length_unicodeEscape {c : UInt8} (h : c < 0x20) : (unicodeEscape c).length = 6 := by
  obtain ⟨hi, lo, htext, -⟩ := unicodeEscape_eq h
  rw [htext]
  rfl

/-- Every byte is written as one byte or more. -/
theorem length_escapeByte_pos (c : UInt8) : 1 ≤ (escapeByte c).length := by
  rw [escapeByte]
  split_ifs with hspecial hcontrol
  · exact Nat.succ_pos _
  · rw [length_unicodeEscape hcontrol]
    decide
  · exact Nat.succ_pos _

/-- The escape of a byte decodes to it. -/
theorem unescape_escapeByte_append (c : UInt8) (text : Bytes) :
    unescape (escapeByte c ++ text) = (unescape text).map (c :: ·) := by
  rw [escapeByte]
  split_ifs with hspecial hcontrol
  · rw [List.cons_append, List.cons_append, List.nil_append, unescape.eq_def]
    dsimp only
    rw [if_pos rfl, if_pos hspecial]
  · obtain ⟨hi, lo, htext, hunit⟩ := unicodeEscape_eq hcontrol
    rw [htext, List.cons_append, unescape.eq_def]
    dsimp only [List.cons_append, List.nil_append]
    rw [if_pos rfl, if_neg (by decide), if_pos ⟨rfl, rfl, rfl⟩, hunit, Option.bind_some]
    simp
  · rw [List.singleton_append, unescape.eq_def]
    dsimp only
    rw [if_neg fun h => hspecial (.inr h), if_neg]
    rintro (h | h)
    · exact hspecial (.inl h)
    · exact hcontrol h

/-- The escape of a byte needs no further escape. -/
theorem le_of_mem_escapeByte {c b : UInt8} (h : b ∈ escapeByte c) : 0x20 ≤ b := by
  rw [escapeByte] at h
  split_ifs at h with hspecial hcontrol
  · rcases hspecial with rfl | rfl
    · exact (by decide : ∀ b ∈ ([0x5C, 0x22] : Bytes), 0x20 ≤ b) b h
    · exact (by decide : ∀ b ∈ ([0x5C, 0x5C] : Bytes), 0x20 ≤ b) b h
  · have hall : ∀ n < 0x20, ∀ b ∈ unicodeEscape (UInt8.ofNat n), 0x20 ≤ b := by decide
    have hn := hall c.toNat hcontrol
    rw [UInt8.ofNat_toNat] at hn
    exact hn b h
  · obtain rfl := List.mem_singleton.mp h
    exact UInt8.not_lt.mp hcontrol

/-- The check of the loop and that of a branch ask for the same together: room for the escape
and two bytes. -/
theorem ite_guards {α : Type} {dstLen di n : ℕ} (hn : 1 ≤ n) (stop go : α) :
    (if di + 2 < dstLen then if di + (n + 1) ≥ dstLen then stop else go else stop) =
      if di + n + 2 ≤ dstLen then go else stop := by
  by_cases hroom : di + n + 2 ≤ dstLen
  · rw [if_pos (by omega), if_neg (by omega), if_pos hroom]
  · rw [if_neg hroom]
    split_ifs with hloop hbranch
    · rfl
    · omega
    · rfl

/-- **One round of the loop**: whichever branch is taken, the escape is written if it leaves
two bytes. -/
theorem jsonEscapeLoop_cons (dstLen di : ℕ) (c : UInt8) (src : Bytes) :
    jsonEscapeLoop dstLen di (c :: src) =
      if di + (escapeByte c).length + 2 ≤ dstLen then
        escapeByte c ++ jsonEscapeLoop dstLen (di + (escapeByte c).length) src
      else [] := by
  rw [jsonEscapeLoop, escapeByte]
  by_cases hspecial : c = 0x22 ∨ c = 0x5C
  · rw [if_pos hspecial, if_pos hspecial]
    exact ite_guards (Nat.le_succ 1) _ _
  · rw [if_neg hspecial, if_neg hspecial]
    by_cases hcontrol : c < 0x20
    · rw [if_pos hcontrol, if_pos hcontrol, length_unicodeEscape hcontrol]
      exact ite_guards (Nat.succ_pos 5) _ _
    · rw [if_neg hcontrol, if_neg hcontrol]
      rfl

/-- The same for the stores. `snprintf` stores a NUL after the escape, which the next store
replaces. -/
theorem escapeStores_cons (dstLen di : ℕ) {c : UInt8} (hc : c ≠ 0) (src : Bytes) :
    ∃ nul : Bytes, nul.length ≤ 1 ∧ escapeStores dstLen di (c :: src) =
      if di + (escapeByte c).length + 2 ≤ dstLen then
        (escapeStores dstLen (di + (escapeByte c).length) src).map
          (storesFrom di (escapeByte c ++ nul) ++ ·)
      else some [⟨di, 0⟩] := by
  have hguard : (c ≠ 0 ∧ di + 2 < dstLen) = (di + 2 < dstLen) := propext (and_iff_right hc)
  rw [escapeStores, escapeByte]
  simp only [hguard]
  by_cases hspecial : c = 0x22 ∨ c = 0x5C
  · refine ⟨[], Nat.zero_le _, ?_⟩
    rw [if_pos hspecial, if_pos hspecial]
    exact ite_guards (Nat.le_succ 1) _ _
  · rw [if_neg hspecial, if_neg hspecial]
    by_cases hcontrol : c < 0x20
    · refine ⟨[0], Nat.le_refl _, ?_⟩
      have hlen := length_unicodeEscape hcontrol
      rw [if_pos hcontrol, if_pos hcontrol, hlen, ite_guards (Nat.succ_pos 5)]
      refine ite_congr rfl (fun hroom => ?_) fun _ => rfl
      rw [snprintfStores, if_neg (by omega), List.take_of_length_le (by omega)]
    · refine ⟨[], Nat.zero_le _, ?_⟩
      rw [if_neg hcontrol, if_neg hcontrol]
      rfl

/-! ### The whole string -/

/-- The first byte is written first. -/
theorem escapeText_cons (c : UInt8) (s : Bytes) :
    escapeText (c :: s) = escapeByte c ++ escapeText s :=
  List.flatMap_cons ..

/-- Texts are escaped one after the other. -/
theorem escapeText_append (s t : Bytes) : escapeText (s ++ t) = escapeText s ++ escapeText t :=
  List.flatMap_append ..

/-- Decoding undoes escaping. -/
theorem unescape_escapeText (s : Bytes) : unescape (escapeText s) = some s := by
  induction s with
  | nil => rfl
  | cons c s ih => rw [escapeText_cons, unescape_escapeByte_append, ih, Option.map_some]

/-- No control character is left. -/
theorem le_of_mem_escapeText {s : Bytes} {b : UInt8} (h : b ∈ escapeText s) : 0x20 ≤ b := by
  obtain ⟨c, -, hb⟩ := List.mem_flatMap.mp h
  exact le_of_mem_escapeByte hb

/-- A longer beginning has a longer escaped form. -/
theorem length_escapeText_append (s t : Bytes) :
    (escapeText s).length + t.length ≤ (escapeText (s ++ t)).length := by
  have hlen : t.length ≤ (escapeText t).length := by
    induction t with
    | nil => exact Nat.le_refl 0
    | cons c t ih =>
        have := length_escapeByte_pos c
        rw [escapeText_cons, List.length_append, List.length_cons]
        omega
  rw [escapeText_append, List.length_append]
  exact Nat.add_le_add_left hlen _

/-- **What the loop writes**: the escaped form of the longest beginning of its source that
leaves two bytes. -/
theorem jsonEscapeLoop_eq_escapeText (dstLen di : ℕ) (src : Bytes) :
    ∃ pre, pre <+: src ∧ jsonEscapeLoop dstLen di src = escapeText pre ∧
      (pre = [] ∨ di + (escapeText pre).length + 2 ≤ dstLen) ∧
      ∀ pre', pre' <+: src → di + (escapeText pre').length + 2 ≤ dstLen → pre' <+: pre := by
  induction src generalizing di with
  | nil =>
      refine ⟨[], List.prefix_rfl, rfl, .inl rfl, fun pre' hpre' _ => ?_⟩
      exact hpre'
  | cons c src ih =>
      rw [jsonEscapeLoop_cons]
      by_cases hroom : di + (escapeByte c).length + 2 ≤ dstLen
      · obtain ⟨pre, hpre, htext, hlen, hmax⟩ := ih (di + (escapeByte c).length)
        refine ⟨c :: pre, List.cons_prefix_cons.mpr ⟨rfl, hpre⟩, ?_, .inr ?_, ?_⟩
        · rw [if_pos hroom, htext, escapeText_cons]
        · rw [escapeText_cons, List.length_append]
          rcases hlen with rfl | hlen
          · exact hroom
          · omega
        · intro pre' hpre' hfit
          rcases List.prefix_cons_iff.mp hpre' with rfl | ⟨t, rfl, ht⟩
          · exact List.nil_prefix
          · rw [escapeText_cons, List.length_append, ← Nat.add_assoc] at hfit
            exact List.cons_prefix_cons.mpr ⟨rfl, hmax t ht hfit⟩
      · -- not even the first byte fits
        refine ⟨[], List.nil_prefix, if_neg hroom, .inl rfl, fun pre' hpre' hfit => ?_⟩
        rcases List.prefix_cons_iff.mp hpre' with rfl | ⟨t, rfl, -⟩
        · exact List.prefix_rfl
        · rw [escapeText_cons, List.length_append] at hfit
          omega

/-- **What the stores leave**: they go below `dst_len`, and the string and its NUL stand from
where the loop starts. -/
theorem run_escapeStores {dstLen di : ℕ} {src : Bytes} (hdi : di < dstLen) (hsrc : 0 ∈ src) :
    ∃ stores, escapeStores dstLen di src = some stores ∧
      (∀ s ∈ stores, di ≤ s.index ∧ s.index < dstLen) ∧
      ∀ mem, Holds (run mem stores) di (jsonEscapeLoop dstLen di (cString src) ++ [0]) := by
  have hnul : ∀ i < dstLen, (∀ s ∈ [Store.mk i 0], i ≤ s.index ∧ s.index < dstLen) ∧
      ∀ mem, Holds (run mem [⟨i, 0⟩]) i ([] ++ [0]) := by
    refine fun i hi => ⟨fun s hs => ?_, fun mem => holds_run_storesFrom mem i [0]⟩
    rw [List.mem_singleton.mp hs]
    exact ⟨Nat.le_refl i, hi⟩
  induction src generalizing di with
  | nil => exact absurd hsrc List.not_mem_nil
  | cons c src ih =>
      rcases eq_or_ne c 0 with rfl | hc
      · exact ⟨[⟨di, 0⟩], if_neg fun h => h.1 rfl, hnul di hdi⟩
      · have hrest : 0 ∈ src := (List.mem_cons.mp hsrc).resolve_left hc.symm
        have hstring : cString (c :: src) = c :: cString src :=
          List.takeWhile_cons_of_pos (by simpa using hc)
        obtain ⟨nul, hlen, heq⟩ := escapeStores_cons dstLen di hc src
        rw [heq, hstring, jsonEscapeLoop_cons]
        by_cases hroom : di + (escapeByte c).length + 2 ≤ dstLen
        · obtain ⟨stores, hstores, hindex, hholds⟩ :=
            @ih (di + (escapeByte c).length) (by omega) hrest
          rw [if_pos hroom, if_pos hroom, hstores]
          refine ⟨_, rfl, List.forall_mem_append.mpr ⟨fun s hs => ?_, fun s hs => ?_⟩, ?_⟩
          · have := index_of_mem_storesFrom hs
            rw [List.length_append] at this
            omega
          · have := hindex s hs
            omega
          · intro mem
            rw [List.append_assoc, holds_append, run_append]
            refine ⟨?_, hholds _⟩
            have hchunk := holds_run_storesFrom mem di (escapeByte c ++ nul)
            exact (holds_append.mp hchunk).1.run_of_le fun s hs => (hindex s hs).1
        · rw [if_neg hroom, if_neg hroom]
          exact ⟨_, rfl, hnul di hdi⟩

/-- **`json_escape` ends**, stores below `dst_len` only, and leaves the string of
`jsonEscape`. -/
theorem leavesString_jsonEscape {dstLen : ℕ} {src : Bytes} (hdst : 1 ≤ dstLen) (hsrc : 0 ∈ src) :
    LeavesString dstLen src (jsonEscapeLoop dstLen 0 (cString src)) := by
  obtain ⟨stores, hstores, hindex, hholds⟩ := run_escapeStores hdst hsrc
  have hne : dstLen ≠ 0 := by omega
  refine ⟨stores, ?_, fun s hs => (hindex s hs).2, fun mem => ⟨hholds mem, fun hzero => ?_⟩⟩
  · rw [jsonEscapeStores, if_neg hne, hstores]
  · obtain ⟨pre, -, htext, -⟩ := jsonEscapeLoop_eq_escapeText dstLen 0 (cString src)
    rw [htext] at hzero
    exact absurd (le_of_mem_escapeText hzero) (by decide)

/-- Only one string is left. -/
theorem LeavesString.unique {dstLen : ℕ} {src text text' : Bytes}
    (h : LeavesString dstLen src text) (h' : LeavesString dstLen src text') : text = text' := by
  obtain ⟨stores, hstores, -, hholds⟩ := h
  obtain ⟨stores', hstores', -, hholds'⟩ := h'
  obtain rfl := Option.some.inj (hstores.symm.trans hstores')
  exact (hholds fun _ => 0).unique (hholds' fun _ => 0)

/-- With room for the escaped string and two more bytes nothing is cut. -/
theorem jsonEscapeLoop_of_room {dstLen : ℕ} {src : Bytes}
    (h : (escapeText src).length + 2 ≤ dstLen) : jsonEscapeLoop dstLen 0 src = escapeText src := by
  obtain ⟨pre, hpre, htext, -, hmax⟩ := jsonEscapeLoop_eq_escapeText dstLen 0 src
  have hwhole : src = pre :=
    (hmax src List.prefix_rfl (by omega)).eq_of_length_le hpre.length_le
  rw [htext, ← hwhole]

/-- Without control bytes escaping at most doubles the length. -/
theorem length_escapeText_le {s : Bytes} (h : ∀ b ∈ s, 0x20 ≤ b) :
    (escapeText s).length ≤ 2 * s.length := by
  induction s with
  | nil => exact Nat.le_refl 0
  | cons c s ih =>
      obtain ⟨hc, hs⟩ := List.forall_mem_cons.mp h
      have hbyte : (escapeByte c).length ≤ 2 := by
        rw [escapeByte, if_neg (UInt8.not_lt.mpr hc)]
        split
        · exact Nat.le_refl 2
        · exact Nat.le_succ 1
      have := ih hs
      rw [escapeText_cons, List.length_append, List.length_cons]
      omega

/-- **`json_escape` is safe and faithful**: for a buffer of at least one byte it leaves a
string without control bytes that decodes to the beginning of its source, and to all of it if
the escaped form leaves two bytes; that is so for whatever a string field of a frame can hold
without control bytes, in the buffers of `emit_stack_json`. Without a buffer nothing is
stored. -/
theorem jsonEscape_safe_and_faithful (src : Bytes) (hsrc : 0 ∈ src) :
    (∀ dstLen, 1 ≤ dstLen → ∃ text decoded, jsonEscape dstLen (cString src) = some text ∧
      LeavesString dstLen src text ∧ (∀ b ∈ text, 0x20 ≤ b) ∧ unescape text = some decoded ∧
      decoded <+: cString src ∧
      ((escapeText (cString src)).length + 2 ≤ dstLen → decoded = cString src)) ∧
    ((cString src).length ≤ bswStrMax - 1 → (∀ b ∈ cString src, 0x20 ≤ b) →
      LeavesString (bswStrMax * 2) src (escapeText (cString src))) ∧
    jsonEscapeStores 0 src = some [] := by
  refine ⟨fun dstLen hdst => ?_, fun hlen hhigh => ?_, rfl⟩
  · obtain ⟨pre, hpre, htext, -, -⟩ := jsonEscapeLoop_eq_escapeText dstLen 0 (cString src)
    refine ⟨escapeText pre, pre, ?_, htext ▸ leavesString_jsonEscape hdst hsrc,
      fun b hb => le_of_mem_escapeText hb, unescape_escapeText pre, hpre, fun hroom => ?_⟩
    · rw [jsonEscape, if_neg (by omega), htext]
    · rw [jsonEscapeLoop_of_room hroom] at htext
      have hdecode := congrArg unescape htext
      rw [unescape_escapeText, unescape_escapeText] at hdecode
      exact (Option.some.inj hdecode).symm
  · have hescaped := length_escapeText_le hhigh
    have hroom : (escapeText (cString src)).length + 2 ≤ bswStrMax * 2 := by
      rw [bswStrMax] at hlen ⊢
      omega
    rw [← jsonEscapeLoop_of_room hroom]
    exact leavesString_jsonEscape (by decide) hsrc

/-- A symbol name with two quotes. -/
theorem jsonEscape_safe_and_faithful_quotes :
    LeavesString (bswStrMax * 2) (ascii "frame\"with\"quotes" ++ [0])
      (ascii "frame\\\"with\\\"quotes") := by
  have hescaped : escapeText (cString (ascii "frame\"with\"quotes" ++ [0])) =
      ascii "frame\\\"with\\\"quotes" := by
    decide
  rw [← hescaped]
  exact (jsonEscape_safe_and_faithful (ascii "frame\"with\"quotes" ++ [0]) (by decide)).2.1
    (by decide) (by decide)

/-! ### What is cut -/

/-- The string in `dst` is the escaped form of the longest beginning of the source whose
escaped form and a NUL fit, so a source that fits as a whole is not cut. -/
def TruncatesOnlyIfNeeded (dstLen : ℕ) (src : Bytes) : Prop :=
  (∃ pre, pre <+: cString src ∧ (escapeText pre).length ≤ dstLen - 1 ∧
    (∀ pre', pre' <+: cString src → (escapeText pre').length ≤ dstLen - 1 →
      pre'.length ≤ pre.length) ∧
    LeavesString dstLen src (escapeText pre)) ∧
  ((escapeText (cString src)).length ≤ dstLen - 1 →
    LeavesString dstLen src (escapeText (cString src)))

/-- A beginning that would fill the buffer is cut. -/
theorem not_truncatesOnlyIfNeeded {dstLen : ℕ} {src pre : Bytes} (hsrc : 0 ∈ src)
    (hpre : pre <+: cString src) (hne : pre ≠ [])
    (hlen : (escapeText pre).length + 1 = dstLen) : ¬ TruncatesOnlyIfNeeded dstLen src := by
  rintro ⟨⟨longest, hlongest, -, hmax, hleaves⟩, -⟩
  obtain ⟨p, hp, htext, hroom, -⟩ := jsonEscapeLoop_eq_escapeText dstLen 0 (cString src)
  have hsame := hleaves.unique (htext ▸ leavesString_jsonEscape (by omega) hsrc)
  have hle := hmax pre hpre (by omega)
  obtain ⟨rest, rfl⟩ := List.prefix_of_prefix_length_le hpre hlongest hle
  have hlonger := length_escapeText_append pre rest
  rw [hsame] at hlonger
  rcases hroom with rfl | hroom
  · -- the string is empty, but the escaped beginning is not
    have hzero := length_escapeText_append [] pre
    have hpos := List.length_pos_of_ne_nil hne
    rw [List.nil_append] at hzero
    have hnil : (escapeText []).length = 0 := rfl
    omega
  · omega

/-- **When `json_escape` cuts only where it has to**: when no beginning of the source, other
than the empty one, fills the buffer up to the NUL. -/
theorem truncatesOnlyIfNeeded_iff {dstLen : ℕ} {src : Bytes} (hdst : 1 ≤ dstLen)
    (hsrc : 0 ∈ src) :
    TruncatesOnlyIfNeeded dstLen src ↔
      ∀ pre, pre <+: cString src → pre ≠ [] → (escapeText pre).length + 1 ≠ dstLen := by
  refine ⟨fun h pre hpre hne hlen => not_truncatesOnlyIfNeeded hsrc hpre hne hlen h, fun h => ?_⟩
  obtain ⟨p, hp, htext, hroom, hmax⟩ := jsonEscapeLoop_eq_escapeText dstLen 0 (cString src)
  have hleaves : LeavesString dstLen src (escapeText p) :=
    htext ▸ leavesString_jsonEscape hdst hsrc
  -- what fits with the NUL fits with two bytes left, or is empty
  have hfits : ∀ pre, pre <+: cString src → (escapeText pre).length ≤ dstLen - 1 → pre <+: p := by
    intro pre hpre hlen
    rcases eq_or_ne pre [] with rfl | hne
    · exact List.nil_prefix
    · have := h pre hpre hne
      exact hmax pre hpre (by omega)
  refine ⟨⟨p, hp, ?_, fun pre hpre hlen => (hfits pre hpre hlen).length_le, hleaves⟩,
    fun hlen => ?_⟩
  · rcases hroom with rfl | hroom
    · exact Nat.zero_le _
    · omega
  · have hwhole : cString src = p :=
      (hfits _ List.prefix_rfl hlen).eq_of_length_le hp.length_le
    rw [hwhole]
    exact hleaves

/-- A name that fits into its buffer is written out in full. -/
theorem truncatesOnlyIfNeeded_iff_short_name :
    TruncatesOnlyIfNeeded 8 (ascii "ab" ++ [0]) := by
  refine (truncatesOnlyIfNeeded_iff (by decide) (by decide)).mpr fun pre hpre _ hlen => ?_
  have hhigh : ∀ b ∈ pre, 0x20 ≤ b := fun b hb =>
    (by decide : ∀ b ∈ ascii "ab", 0x20 ≤ b) b (hpre.subset hb)
  have hshort : pre.length ≤ 2 := hpre.length_le
  have := length_escapeText_le hhigh
  omega

/-- Sixteen letters and a buffer of eight bytes: six letters are left, though seven fit. -/
theorem small_buffer_loses_letter :
    LeavesString 8 (ascii "abcdefghijklmnop" ++ [0]) (ascii "abcdef") ∧
      (escapeText (ascii "abcdefg")).length = 8 - 1 ∧
      ¬ TruncatesOnlyIfNeeded 8 (ascii "abcdefghijklmnop" ++ [0]) := by
  refine ⟨?_, by decide, ?_⟩
  · have htext : jsonEscapeLoop 8 0 (cString (ascii "abcdefghijklmnop" ++ [0])) =
        ascii "abcdef" := by
      decide
    rw [← htext]
    exact leavesString_jsonEscape (by decide) (by decide)
  · have hpre : ascii "abcdefg" <+: cString (ascii "abcdefghijklmnop" ++ [0]) :=
      ⟨ascii "hijklmnop", by decide⟩
    exact not_truncatesOnlyIfNeeded (by decide) hpre (by decide) (by decide)

end UnifiedTrace
