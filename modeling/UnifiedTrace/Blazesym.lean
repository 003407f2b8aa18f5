import Mathlib.Data.List.Basic
import UnifiedTrace.Common

/-!
# Stack Symbolization

A model of `src/symbolize/blazesym_wrap.rs`: `bsw_resolve` expands the symbolizer's results
into an array of fixed-size frames. What blazesym itself answers is a parameter: `none` is
an error, and otherwise there is one result for each address, in order. Pointers are never
NULL where the caller passes its own arrays, so the null checks are left out.

The string fields are the `STR_MAX` bytes of the array; `cString` reads them as the C side
does.

## Main results

* `filled_bswResolve`: what is written is the frames of the results in order, each symbol
  before its inlined calls, cut to the length of the array.
* `isAscii_of_mem_filled`: the frames of ASCII names are ASCII.
-/

namespace UnifiedTrace

/-- `STR_MAX`, `BSW_STR_MAX`. -/
def bswStrMax : ℕ := 512

/-- The C string at the start of an array. -/
def cString (field : Bytes) : Bytes := field.takeWhile (· ≠ 0)

/-- `CodeInfo` of blazesym. -/
structure CodeInfo where
  file : Bytes
  line : Option UInt32

/-- `InlinedFn` of blazesym. -/
structure InlinedFn where
  name : Bytes
  codeInfo : Option CodeInfo

/-- `Sym` of blazesym. -/
structure Sym where
  name : Bytes
  codeInfo : Option CodeInfo
  inlined : List InlinedFn
  module : Option Bytes

/-- `Symbolized` of blazesym. -/
inductive Symbolized
  | sym (s : Sym)
  | unknown

/-- `BswFrame`, `struct bsw_frame`. -/
structure BswFrame where
  addr : UInt64
  line : UInt32
  inlined : UInt8
  sym : Bytes
  file : Bytes
  lib : Bytes

/-- `BswFrame::zeroed`. -/
def BswFrame.zeroed (addr : UInt64) : BswFrame where
  addr
  line := 0
  inlined := 0
  sym := List.replicate bswStrMax 0
  file := List.replicate bswStrMax 0
  lib := List.replicate bswStrMax 0

/-- `copy_str`: the array after copying a string into it. -/
def copyStr (dst src : Bytes) : Bytes :=
  let n := min src.length (bswStrMax - 1)
  src.take n ++ 0 :: dst.drop (n + 1)

/-- `basename`: what follows the last slash. -/
def basename (path : Bytes) : Bytes := (path.reverse.takeWhile (· ≠ 0x2F)).reverse

/-- `OsStr::to_str`: the string if it is valid Unicode. -/
def toStr (s : Bytes) : Option Bytes := if s.toByteArray.IsValidUTF8 then some s else none

/-- The code information of a symbol or inlined call goes into its frame. -/
def BswFrame.setCodeInfo (frame : BswFrame) : Option CodeInfo → BswFrame
  | none => frame
  | some code =>
      { frame with
        file := (toStr code.file).elim frame.file fun file => copyStr frame.file (basename file)
        line := code.line.getD 0 }

/-- `fill_frame`. -/
def fillFrame (frame : BswFrame) (sym : Sym) : BswFrame :=
  let named := { frame with sym := copyStr frame.sym sym.name }
  let located := named.setCodeInfo sym.codeInfo
  { located with
    lib := (sym.module.bind toStr).elim located.lib fun s =>
      copyStr located.lib (basename s) }

/-- The frame of an inlined call. -/
def inlinedFrame (addr : UInt64) (inl : InlinedFn) : BswFrame :=
  let frame := { BswFrame.zeroed addr with inlined := 1 }
  { frame with sym := copyStr frame.sym inl.name }.setCodeInfo inl.codeInfo

/-- The frame of an address without a symbol. -/
def unknownFrame (addr : UInt64) : BswFrame :=
  let frame := BswFrame.zeroed addr
  { frame with sym := copyStr frame.sym (ascii "??") }

/-- The output array, and how many of its slots are written. -/
structure FrameBuf where
  out : List BswFrame
  written : ℕ

/-- Write the next slot. -/
def FrameBuf.push (buf : FrameBuf) (frame : BswFrame) : FrameBuf where
  out := buf.out.set buf.written frame
  written := buf.written + 1

/-- The loop over the inlined calls of a symbol. -/
def writeInlined (addr : UInt64) (buf : FrameBuf) : List InlinedFn → FrameBuf
  | [] => buf
  | inl :: rest =>
      if buf.written ≥ buf.out.length then buf
      else writeInlined addr (buf.push (inlinedFrame addr inl)) rest

/-- The loop over the results. -/
def writeResults (buf : FrameBuf) : List (UInt64 × Symbolized) → FrameBuf
  | [] => buf
  | (addr, res) :: rest =>
      if buf.written ≥ buf.out.length then buf
      else
        match res with
        | .sym s =>
            writeResults
              (writeInlined addr (buf.push (fillFrame (BswFrame.zeroed addr) s)) s.inlined) rest
        | .unknown => writeResults (buf.push (unknownFrame addr)) rest

/-- `bsw_resolve`, for the answer of the symbolizer: the array and the returned count. -/
def bswResolve (results : Option (List Symbolized)) (addrs : List UInt64)
    (out : List BswFrame) : FrameBuf :=
  if addrs.length = 0 ∨ out.length = 0 then
    ⟨out, 0⟩
  else
    match results with
    | none => ⟨out, 0⟩
    | some results => writeResults ⟨out, 0⟩ (addrs.zip results)

/-! ### What is written -/

/-- The slots that are written. -/
def FrameBuf.filled (buf : FrameBuf) : List BswFrame := buf.out.take buf.written

/-- The frames of a result. -/
def framesOf : UInt64 × Symbolized → List BswFrame
  | (addr, .sym s) => fillFrame (BswFrame.zeroed addr) s :: s.inlined.map (inlinedFrame addr)
  | (addr, .unknown) => [unknownFrame addr]

/-- Writing a free slot. -/
theorem FrameBuf.filled_push {buf : FrameBuf} (frame : BswFrame)
    (h : buf.written < buf.out.length) : (buf.push frame).filled = buf.filled ++ [frame] := by
  rw [filled, filled, push, List.take_succ_eq_append_getElem (by simpa using h)]
  simp [List.take_set_of_le]

/-- Nothing is written when the array is full. -/
theorem FrameBuf.take_filled {buf : FrameBuf} (frames : List BswFrame)
    (h : buf.written = buf.out.length) :
    (buf.filled ++ frames).take buf.out.length = buf.filled := by
  rw [filled, h, List.take_length, List.take_append_of_le_length (Nat.le_refl _),
    List.take_length]

/-- The loop over the inlined calls writes their frames. -/
theorem writeInlined_spec (addr : UInt64) {buf : FrameBuf} (inls : List InlinedFn)
    (h : buf.written ≤ buf.out.length) :
    (writeInlined addr buf inls).filled =
        (buf.filled ++ inls.map (inlinedFrame addr)).take buf.out.length ∧
      (writeInlined addr buf inls).written ≤ (writeInlined addr buf inls).out.length ∧
      (writeInlined addr buf inls).out.length = buf.out.length := by
  induction inls generalizing buf with
  | nil =>
      refine ⟨?_, h, rfl⟩
      rw [writeInlined, List.map_nil, List.append_nil, List.take_of_length_le]
      rw [FrameBuf.filled, List.length_take]
      exact Nat.min_le_right ..
  | cons inl inls ih =>
      rw [writeInlined]
      split
      · rename_i hfull
        exact ⟨(FrameBuf.take_filled _ (by omega)).symm, h, rfl⟩
      · rename_i hfree
        have hlt : buf.written < buf.out.length := by omega
        have hlen : (buf.push (inlinedFrame addr inl)).out.length = buf.out.length := by
          simp [FrameBuf.push]
        have hle : (buf.push (inlinedFrame addr inl)).written ≤
            (buf.push (inlinedFrame addr inl)).out.length := by
          rw [hlen]
          exact hlt
        obtain ⟨hfilled, hwritten, hout⟩ := ih hle
        refine ⟨?_, hwritten, hout.trans hlen⟩
        rw [hfilled, hlen, FrameBuf.filled_push _ hlt, List.map_cons, List.append_assoc]
        rfl

/-- Cutting before appending is no different from cutting once at the end. -/
theorem take_append_take {α : Type} (n : ℕ) (l m : List α) :
    (l.take n ++ m).take n = (l ++ m).take n := by
  rw [List.take_append, List.take_append, List.take_take, Nat.min_self, List.length_take]
  congr 2
  omega

/-- The loop over the results writes the frames of the results. -/
theorem filled_writeResults {buf : FrameBuf} (results : List (UInt64 × Symbolized))
    (h : buf.written ≤ buf.out.length) :
    (writeResults buf results).filled =
      (buf.filled ++ results.flatMap framesOf).take buf.out.length := by
  induction results generalizing buf with
  | nil =>
      rw [writeResults, List.flatMap_nil, List.append_nil, List.take_of_length_le]
      rw [FrameBuf.filled, List.length_take]
      exact Nat.min_le_right ..
  | cons result results ih =>
      obtain ⟨addr, res⟩ := result
      have hlen : ∀ frame, (buf.push frame).out.length = buf.out.length := by
        simp [FrameBuf.push]
      cases res with
      | sym s =>
          rw [writeResults]
          split
          · exact (FrameBuf.take_filled _ (by omega)).symm
          · have hlt : buf.written < buf.out.length := by omega
            have hle : (buf.push (fillFrame (BswFrame.zeroed addr) s)).written ≤
                (buf.push (fillFrame (BswFrame.zeroed addr) s)).out.length := by
              rw [hlen]
              exact hlt
            obtain ⟨hfilled, hwritten, hout⟩ := writeInlined_spec addr s.inlined hle
            rw [ih hwritten, hout, hfilled, hlen, FrameBuf.filled_push _ hlt, take_append_take,
              List.flatMap_cons, framesOf, List.append_assoc, List.append_assoc]
            rfl
      | unknown =>
          rw [writeResults]
          split
          · exact (FrameBuf.take_filled _ (by omega)).symm
          · have hlt : buf.written < buf.out.length := by omega
            rw [ih (by rw [hlen]; exact hlt), hlen, FrameBuf.filled_push _ hlt,
              List.flatMap_cons, framesOf, List.append_assoc]

/-- **`bsw_resolve` writes the frames of the results in order**, as many as fit. -/
theorem filled_bswResolve (results : Option (List Symbolized)) (addrs : List UInt64)
    (out : List BswFrame) : (bswResolve results addrs out).filled =
      ((addrs.zip (results.getD [])).flatMap framesOf).take out.length := by
  rcases em (addrs.length = 0 ∨ out.length = 0) with h | h
  · have hempty : bswResolve results addrs out = ⟨out, 0⟩ := by
      cases results <;> rw [bswResolve, if_pos h]
    rw [hempty]
    rcases h with h | h
    · rw [List.length_eq_zero_iff.mp h]
      simp [FrameBuf.filled]
    · rw [h]
      simp [FrameBuf.filled]
  · cases results with
    | none =>
        rw [bswResolve, if_neg h]
        simp [FrameBuf.filled]
    | some results =>
        rw [bswResolve, if_neg h]
        exact @filled_writeResults ⟨out, 0⟩ _ (Nat.zero_le _)

/-! ### ASCII names -/

/-- Every byte is ASCII. -/
def IsAscii (s : Bytes) : Prop := ∀ b ∈ s, b < 0x80

instance (s : Bytes) : Decidable (IsAscii s) := List.decidableBAll _ s

/-- The names of an inlined call or symbol are ASCII. -/
def CodeInfo.IsAscii (code : CodeInfo) : Prop := UnifiedTrace.IsAscii code.file

/-- The names of an inlined call are ASCII. -/
def InlinedFn.IsAscii (inl : InlinedFn) : Prop :=
  UnifiedTrace.IsAscii inl.name ∧ ∀ code ∈ inl.codeInfo, code.IsAscii

/-- The names of a result are ASCII. -/
def Symbolized.IsAscii : Symbolized → Prop
  | sym s => UnifiedTrace.IsAscii s.name ∧ (∀ code ∈ s.codeInfo, code.IsAscii) ∧
      (∀ inl ∈ s.inlined, inl.IsAscii) ∧ ∀ path ∈ s.module, UnifiedTrace.IsAscii path
  | unknown => True

/-- The string fields of a frame are ASCII. -/
structure BswFrame.IsAscii (frame : BswFrame) : Prop where
  sym : UnifiedTrace.IsAscii frame.sym
  file : UnifiedTrace.IsAscii frame.file
  lib : UnifiedTrace.IsAscii frame.lib

/-- ASCII after ASCII. -/
theorem isAscii_append {s t : Bytes} (hs : IsAscii s) (ht : IsAscii t) : IsAscii (s ++ t) :=
  List.forall_mem_append.mpr ⟨hs, ht⟩

/-- Copying ASCII into an ASCII field keeps it ASCII. -/
theorem isAscii_copyStr {dst src : Bytes} (hdst : IsAscii dst) (hsrc : IsAscii src) :
    IsAscii (copyStr dst src) :=
  List.forall_mem_append.mpr ⟨fun b hb => hsrc b (List.mem_of_mem_take hb),
    List.forall_mem_cons.mpr ⟨by decide, fun b hb => hdst b (List.mem_of_mem_drop hb)⟩⟩

/-- The last component of an ASCII path is ASCII. -/
theorem isAscii_basename {path : Bytes} (h : IsAscii path) : IsAscii (basename path) := by
  intro b hb
  have hmem := (List.takeWhile_sublist _).subset (List.mem_reverse.mp hb)
  exact h b (List.mem_reverse.mp hmem)

/-- The string in an ASCII field is ASCII. -/
theorem isAscii_cString {field : Bytes} (h : IsAscii field) : IsAscii (cString field) :=
  fun b hb => h b ((List.takeWhile_sublist _).subset hb)

/-- A zeroed frame is ASCII. -/
theorem BswFrame.isAscii_zeroed (addr : UInt64) : (BswFrame.zeroed addr).IsAscii := by
  have hzero : UnifiedTrace.IsAscii (List.replicate bswStrMax 0) := by
    intro b hb
    rw [List.eq_of_mem_replicate hb]
    decide
  exact ⟨hzero, hzero, hzero⟩

/-- A `&str` has the bytes it is made from. -/
theorem toStr_eq_some {s t : Bytes} (h : toStr s = some t) : t = s := by
  rw [toStr] at h
  split at h
  · exact (Option.some.inj h).symm
  · exact absurd h (by simp)

/-- An ASCII source location keeps a frame ASCII. -/
theorem BswFrame.IsAscii.setCodeInfo {frame : BswFrame} {code : Option CodeInfo}
    (h : frame.IsAscii) (hcode : ∀ c ∈ code, c.IsAscii) :
    (frame.setCodeInfo code).IsAscii := by
  cases code with
  | none => exact h
  | some c =>
      refine ⟨h.sym, ?_, h.lib⟩
      rw [BswFrame.setCodeInfo]
      cases hstr : toStr c.file with
      | none => exact h.file
      | some t =>
          obtain rfl := toStr_eq_some hstr
          exact isAscii_copyStr h.file (isAscii_basename (hcode c rfl))

/-- The frames of ASCII names are ASCII. -/
theorem isAscii_of_mem_framesOf {addr : UInt64} {res : Symbolized} (h : res.IsAscii)
    {frame : BswFrame} (hframe : frame ∈ framesOf (addr, res)) : frame.IsAscii := by
  have hzero := BswFrame.isAscii_zeroed addr
  cases res with
  | unknown =>
      obtain rfl := List.mem_singleton.mp hframe
      exact ⟨isAscii_copyStr hzero.sym (by decide), hzero.file, hzero.lib⟩
  | sym s =>
      obtain ⟨hname, hcode, hinlined, hmodule⟩ := h
      rcases List.mem_cons.mp hframe with rfl | hframe
      · have hnamed : BswFrame.IsAscii
            { BswFrame.zeroed addr with sym := copyStr (BswFrame.zeroed addr).sym s.name } :=
          ⟨isAscii_copyStr hzero.sym hname, hzero.file, hzero.lib⟩
        have hlocated := hnamed.setCodeInfo hcode
        refine ⟨hlocated.sym, hlocated.file, ?_⟩
        rw [fillFrame]
        cases hlib : s.module.bind toStr with
        | none => exact hlocated.lib
        | some t =>
            obtain ⟨path, hpath, hstr⟩ := Option.bind_eq_some_iff.mp hlib
            obtain rfl := toStr_eq_some hstr
            exact isAscii_copyStr hlocated.lib (isAscii_basename (hmodule _ hpath))
      · obtain ⟨inl, hinl, rfl⟩ := List.mem_map.mp hframe
        obtain ⟨hname, hcode⟩ := hinlined inl hinl
        have hnamed : BswFrame.IsAscii
            { BswFrame.zeroed addr with
              inlined := 1, sym := copyStr (BswFrame.zeroed addr).sym inl.name } :=
          ⟨isAscii_copyStr hzero.sym hname, hzero.file, hzero.lib⟩
        exact hnamed.setCodeInfo hcode

/-- **ASCII names give ASCII frames.** -/
theorem isAscii_of_mem_filled {results : Option (List Symbolized)} {addrs : List UInt64}
    {out : List BswFrame} (h : ∀ rs ∈ results, ∀ res ∈ rs, res.IsAscii) {frame : BswFrame}
    (hframe : frame ∈ (bswResolve results addrs out).filled) : frame.IsAscii := by
  rw [filled_bswResolve] at hframe
  obtain ⟨⟨addr, res⟩, hmem, hframe⟩ := List.mem_flatMap.mp (List.mem_of_mem_take hframe)
  refine isAscii_of_mem_framesOf ?_ hframe
  cases results with
  | none => exact absurd (List.of_mem_zip hmem).2 List.not_mem_nil
  | some rs => exact h rs rfl res (List.of_mem_zip hmem).2

end UnifiedTrace
