import UnifiedTrace.JsonText
import UnifiedTrace.StackJson

/-!
# Printed Stacks are JSON

What `emit_stack_json` prints is one JSON value whatever the symbolizer's names are, as long
as they are ASCII: `json_escape` leaves nothing in a string that would end it, and where the
buffer is full it stops between two escapes.

## Main results

* `denotes_jsonEscapeLoop`: the output of `json_escape` denotes the beginning of its source, for
  every buffer length.
* `denotes_escapedField_of_isPrintable`: a printable string of a frame denotes itself.
* `reads_stackText`: a printed stack reads as the array of its elements.
-/

namespace UnifiedTrace

open Json Printf

/-! ### Escaped names -/

/-- `\u%04x` of a control byte. -/
theorem unicodeEscape_eq {c : UInt8} (h : c < 0x20) :
    ∃ hi lo, unicodeEscape c = [0x5C, 0x75, 0x30, 0x30, hi, lo] ∧
      hexUnit 0x30 0x30 hi lo = some c.toUInt16 := by
  have hescapes : ∀ n < 0x20, unicodeEscape (UInt8.ofNat n) = [0x5C, 0x75, 0x30, 0x30,
        UInt8.ofNat (Nat.digitChar (n / 16)).toNat, UInt8.ofNat (Nat.digitChar (n % 16)).toNat] ∧
      hexUnit 0x30 0x30 (UInt8.ofNat (Nat.digitChar (n / 16)).toNat)
        (UInt8.ofNat (Nat.digitChar (n % 16)).toNat) = some (UInt8.ofNat n).toUInt16 := by
    decide
  obtain ⟨htext, hunit⟩ := hescapes c.toNat h
  rw [UInt8.ofNat_toNat] at htext hunit
  exact ⟨_, _, htext, hunit⟩

/-- `\u%04x` of a control byte is an escape for it. -/
theorem denotes_unicodeEscape {c : UInt8} (h : c < 0x20) :
    Denotes (unicodeEscape c) [c.toUInt16] := by
  obtain ⟨hi, lo, htext, hunit⟩ := unicodeEscape_eq h
  rw [htext]
  exact .unicode hunit

/-- `json_escape` writes characters and escapes for the beginning of its source, and for all of
it if there are no control bytes and there is room to escape every byte. -/
theorem denotes_jsonEscapeLoop (dstLen di : ℕ) {src : Bytes} (h : IsAscii src) :
    ∃ n, Denotes (jsonEscapeLoop dstLen di src) (units (src.take n)) ∧
      ((∀ b ∈ src, 0x20 ≤ b) → di + 2 * src.length + 2 ≤ dstLen → src.length ≤ n) := by
  induction src generalizing di with
  | nil => exact ⟨0, .nil, fun _ _ => Nat.le_refl 0⟩
  | cons c src ih =>
      obtain ⟨hc, hsrc⟩ := List.forall_mem_cons.mp h
      rw [jsonEscapeLoop, List.length_cons]
      split_ifs with hroom hspecial hfull hcontrol hfull
      · exact ⟨0, .nil, fun _ hfits => by omega⟩
      · obtain ⟨n, hu, hn⟩ := ih (di + 2) hsrc
        have hescape : simpleEscape c = some c.toUInt16 := by
          rcases hspecial with rfl | rfl <;> rfl
        refine ⟨n + 1, (Denotes.escape hescape).append hu, fun hhigh hfits => ?_⟩
        have := hn (List.forall_mem_cons.mp hhigh).2
        omega
      · exact ⟨0, .nil, fun hhigh _ => absurd hcontrol
          (UInt8.not_lt.mpr (List.forall_mem_cons.mp hhigh).1)⟩
      · obtain ⟨n, hu, hn⟩ := ih (di + 6) hsrc
        exact ⟨n + 1, (denotes_unicodeEscape hcontrol).append hu, fun hhigh _ =>
          absurd hcontrol (UInt8.not_lt.mpr (List.forall_mem_cons.mp hhigh).1)⟩
      · obtain ⟨n, hu, hn⟩ := ih (di + 1) hsrc
        have hplain : IsPlainByte c :=
          ⟨UInt8.not_lt.mp hcontrol, hc, fun h => hspecial (.inl h), fun h => hspecial (.inr h)⟩
        refine ⟨n + 1, (Denotes.plain hplain).append hu, fun hhigh hfits => ?_⟩
        have := hn (List.forall_mem_cons.mp hhigh).2
        omega
      · exact ⟨0, .nil, fun _ hfits => by omega⟩

/-- **What `json_escape` leaves in its buffer denotes a string.** -/
theorem denotes_escapedField {s : Bytes} (h : IsAscii s) : ∃ u, Denotes (escapedField s) u := by
  obtain ⟨n, hu, -⟩ := denotes_jsonEscapeLoop (bswStrMax * 2) 0 h
  exact ⟨_, hu⟩

/-- An ASCII text without control bytes. -/
def IsPrintable (s : Bytes) : Prop := ∀ b ∈ s, 0x20 ≤ b ∧ b < 0x80

instance (s : Bytes) : Decidable (IsPrintable s) := List.decidableBAll _ s

/-- What is printable is ASCII. -/
theorem IsPrintable.isAscii {s : Bytes} (h : IsPrintable s) : IsAscii s := fun b hb => (h b hb).2

/-- **A printable string that fits into its array denotes itself**: in a buffer of twice the
size there is room to escape every byte. -/
theorem denotes_escapedField_of_isPrintable {s : Bytes} (h : IsPrintable s)
    (hlen : s.length < bswStrMax) : Denotes (escapedField s) (units s) := by
  obtain ⟨n, hu, hn⟩ := denotes_jsonEscapeLoop (bswStrMax * 2) 0 h.isAscii
  have hfits : 0 + 2 * s.length + 2 ≤ bswStrMax * 2 := by omega
  rwa [List.take_of_length_le (hn (fun b hb => (h b hb).1) hfits)] at hu

/-- The buffer is empty only if the string is. -/
theorem escapedField_length_ne_zero {s : Bytes} :
    (escapedField s).length ≠ 0 ↔ s.length ≠ 0 := by
  cases s with
  | nil => exact iff_of_false (fun h => h rfl) fun h => h rfl
  | cons c s =>
      refine iff_of_true ?_ (Nat.succ_ne_zero _)
      show (jsonEscapeLoop (bswStrMax * 2) 0 (c :: s)).length ≠ 0
      rw [jsonEscapeLoop, if_pos (by decide)]
      split
      · rw [if_neg (by decide)]
        exact Nat.succ_ne_zero _
      · split
        · rw [if_neg (by decide), unicodeEscape, List.append_assoc, List.length_append]
          exact fun h => absurd (Nat.add_eq_zero_iff.mp h).1 (by decide)
        · exact Nat.succ_ne_zero _

/-! ### Members -/

/-- A member whose value is a plain string. -/
def strField (key text : Bytes) (hkey : IsPlain key) (htext : IsPlain text) : Field :=
  ⟨key, quoted text, .str (units text), hkey, .str (.of_isPlain htext)⟩

/-- A member whose value is a number. -/
def numField (key text : Bytes) (hkey : IsPlain key) (htext : IsNumber text) : Field :=
  ⟨key, text, .num text, hkey, .num htext⟩

/-- A member whose value is an address or a handle. -/
def hexField (key : Bytes) (n : ℕ) (hkey : IsPlain key) : Field :=
  strField key (ascii "0x" ++ hex n) hkey (isPlain_append (by decide) (isPlain_hex n))

/-! ### Frames -/

/-- A raw address reads as an object. -/
theorem reads_addr (a : UInt64) : Reads (StackFrame.addr a).text
    (.obj [(units (ascii "addr"), .str (units (ascii "0x" ++ hex a.toNat)))]) := by
  have htext : (StackFrame.addr a).text = objectText .compact [] (ascii "addr")
      (hexField (ascii "addr") a.toNat (by decide)).text [] := by
    simp only [StackFrame.text, objectText, hexField, strField, quoted, List.append_assoc,
      List.cons_append]
    rfl
  rw [htext]
  exact .object [] [] (by decide) (hexField (ascii "addr") a.toNat (by decide)).reads

/-- The symbol printed for a frame. -/
def BswFrame.shownSym (frame : BswFrame) : Bytes :=
  if (cString frame.sym).length ≠ 0 then cString frame.sym else ascii "??"

/-- The object printed for a frame, by what its strings are. Members after the symbol are
printed only where they say something. -/
def BswFrame.value (frame : BswFrame) (sym file lib : List UInt16) : Json.Value :=
  .obj ((units (ascii "sym"), .str sym) ::
    ((if (cString frame.file).length ≠ 0 then [(units (ascii "file"), .str file)] else []) ++
    ((if frame.line ≠ 0 then [(units (ascii "line"), .num (decimal frame.line.toNat))] else []) ++
    ((if (cString frame.lib).length ≠ 0 then [(units (ascii "lib"), .str lib)] else []) ++
    (if frame.inlined ≠ 0 then [(units (ascii "inlined"), .num (decimal 1))] else [])))))

/-- A resolved frame reads as an object. -/
theorem reads_resolved {frame : BswFrame} {sym file lib : List UInt16}
    (hsym : Denotes (escapedField frame.shownSym) sym)
    (hfile : Denotes (escapedField (cString frame.file)) file)
    (hlib : Denotes (escapedField (cString frame.lib)) lib) :
    Reads (StackFrame.resolved frame).text (frame.value sym file lib) := by
  have hfileText : IsMore .compact [(units (ascii "file"), .str file)]
      (ascii ",\"file\":\"" ++ escapedField (cString frame.file) ++ ascii "\"") := by
    refine .of_reads (ascii "file") (by decide) (.str hfile) ?_
    rw [quoted, List.append_assoc]
    rfl
  have hlineText : IsMore .compact [(units (ascii "line"), .num (decimal frame.line.toNat))]
      (ascii ",\"line\":" ++ decimal frame.line.toNat) :=
    .of_reads (ascii "line") (by decide) (.num (isNumber_decimal _)) rfl
  have hlibText : IsMore .compact [(units (ascii "lib"), .str lib)]
      (ascii ",\"lib\":\"" ++ escapedField (cString frame.lib) ++ ascii "\"") := by
    refine .of_reads (ascii "lib") (by decide) (.str hlib) ?_
    rw [quoted, List.append_assoc]
    rfl
  have hinlinedText : IsMore .compact [(units (ascii "inlined"), .num (decimal 1))]
      (ascii ",\"inlined\":1") :=
    .of_reads (ascii "inlined") (by decide) (.num (isNumber_decimal 1)) rfl
  obtain ⟨post, hmembers, hpost⟩ := (hfileText.ite ((cString frame.file).length ≠ 0)).append
    ((hlineText.ite (frame.line ≠ 0)).append
      ((hlibText.ite ((cString frame.lib).length ≠ 0)).append
        (hinlinedText.ite (frame.inlined ≠ 0))))
  have htext : (StackFrame.resolved frame).text = objectText .compact [] (ascii "sym")
      (quoted (escapedField frame.shownSym)) post := by
    rw [StackFrame.text, objectText, ← hpost, quoted]
    simp only [escapedField_length_ne_zero, BswFrame.shownSym, List.append_assoc,
      List.cons_append]
    rfl
  rw [htext, BswFrame.value, ← hmembers]
  exact .object [] post (by decide) (.str hsym)

/-! ### Stacks -/

/-- The elements that need no care, and those of ASCII names. -/
def StackFrame.IsAscii : StackFrame → Prop
  | addr _ => True
  | resolved frame => frame.IsAscii

/-- A frame of ASCII names is read as some value. -/
theorem exists_reads_stackFrame {frame : StackFrame} (h : frame.IsAscii) :
    ∃ v, Reads frame.text v := by
  cases frame with
  | addr a => exact ⟨_, reads_addr a⟩
  | resolved frame =>
      have hname : UnifiedTrace.IsAscii frame.shownSym := by
        rw [BswFrame.shownSym]
        split
        · exact isAscii_cString h.sym
        · decide
      obtain ⟨sym, hsym⟩ := denotes_escapedField hname
      obtain ⟨file, hfile⟩ := denotes_escapedField (isAscii_cString h.file)
      obtain ⟨lib, hlib⟩ := denotes_escapedField (isAscii_cString h.lib)
      exact ⟨_, reads_resolved hsym hfile hlib⟩

/-- Frames are written as the elements of an array. -/
theorem intercalate_comma (t : Bytes) (ts : List Bytes) :
    List.intercalate (ascii ",") (t :: ts) = t ++ elementsText ts := by
  induction ts generalizing t with
  | nil => rw [List.intercalate_singleton, elementsText, List.flatMap_nil, List.append_nil]
  | cons t₂ ts ih =>
      rw [List.intercalate_cons_cons, ih, elementsText_cons, List.append_assoc]
      rfl

/-- **A printed stack is an array of its elements.** -/
theorem reads_stackText {frames : List StackFrame} {vs : List Json.Value}
    (h : List.Forall₂ (fun frame v => Reads frame.text v) frames vs) :
    Reads (stackText frames) (.arr vs) := by
  cases h with
  | nil => exact .emptyArr
  | @cons frame v frames vs hv hvs =>
      have htext : stackText (frame :: frames) = 0x5B :: (frame.text ++
          (elementsText (frames.map StackFrame.text) ++ [0x5D])) := by
        rw [stackText, List.map_cons, intercalate_comma, List.append_assoc, List.append_assoc]
        rfl
      rw [htext]
      exact .arr hv (List.forall₂_map_left_iff.mpr hvs)

/-- A printed stack of ASCII names is one JSON value. -/
theorem exists_reads_stackText {frames : List StackFrame} (h : ∀ frame ∈ frames, frame.IsAscii) :
    ∃ v, Reads (stackText frames) v := by
  have hvalues : ∃ vs, List.Forall₂ (fun frame v => Reads frame.text v) frames vs := by
    induction frames with
    | nil => exact ⟨[], .nil⟩
    | cons frame frames ih =>
        obtain ⟨hframe, hframes⟩ := List.forall_mem_cons.mp h
        obtain ⟨v, hv⟩ := exists_reads_stackFrame hframe
        obtain ⟨vs, hvs⟩ := ih hframes
        exact ⟨v :: vs, .cons hv hvs⟩
  obtain ⟨vs, hvs⟩ := hvalues
  exact ⟨_, reads_stackText hvs⟩

/-- The symbolizer's names are ASCII. -/
def StackEnv.AsciiNames (env : StackEnv) : Prop :=
  ∀ i pid addrs, ∀ rs ∈ env.symbolize i pid addrs, ∀ res ∈ rs, res.IsAscii

/-- ASCII names give ASCII elements. -/
theorem isAscii_emitStackJson {env : StackEnv} (h : env.AsciiNames) (i : ℕ) (stackId : Int32)
    (pid : UInt32) : ∀ frame ∈ emitStackJson env i stackId pid, frame.IsAscii := by
  intro frame hframe
  simp only [emitStackJson] at hframe
  generalize (if (readStackAddrs env stackId perfMaxStackDepth).length >
    env.maxStackFramesInJson then _ else _) = addrs at hframe
  split_ifs at hframe
  · exact absurd hframe List.not_mem_nil
  · obtain ⟨a, -, rfl⟩ := List.mem_map.mp hframe
    exact trivial
  · obtain ⟨frame, hmem, rfl⟩ := List.mem_map.mp hframe
    exact isAscii_of_mem_filled (h i pid _) hmem
  · exact absurd hframe List.not_mem_nil

end UnifiedTrace
