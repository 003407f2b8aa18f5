import UnifiedTrace.Blazesym

/-!
# The Expansion of a Stack

What `bsw_resolve` is for: every address is replaced by the frame of its function followed by
one frame for each call inlined there, and the array receives as many of these as it has
slots. The frames are given here by their contents, without the slots they are built in.

## Main results

* `framesOf_eq_expansionOf`: a slot that is cleared and filled holds the frame of its address,
  whatever it held before.
* `bswResolve_eq_expansion`: the array and the count after a successful symbolization.
-/

namespace UnifiedTrace

/-! ### Frames by their contents -/

/-- An array of `STR_MAX` bytes with the first `STR_MAX - 1` bytes of a text and zeros after
them. -/
def cutText (text : Bytes) : Bytes :=
  text.take (bswStrMax - 1) ++ List.replicate (bswStrMax - min text.length (bswStrMax - 1)) 0

/-- The base name of a path that is valid Unicode. -/
def pathName (path : Option Bytes) : Bytes := ((path.bind toStr).map basename).getD []

/-- The source line, `0` if unknown. -/
def codeLine (code : Option CodeInfo) : UInt32 := (code.bind CodeInfo.line).getD 0

/-- The frame of the function at an address. -/
def functionFrame (addr : UInt64) (s : Sym) : BswFrame where
  addr
  line := codeLine s.codeInfo
  inlined := 0
  sym := cutText s.name
  file := cutText (pathName (s.codeInfo.map CodeInfo.file))
  lib := cutText (pathName s.module)

/-- The frame of a call inlined at an address. -/
def inlinedCallFrame (addr : UInt64) (inl : InlinedFn) : BswFrame where
  addr
  line := codeLine inl.codeInfo
  inlined := 1
  sym := cutText inl.name
  file := cutText (pathName (inl.codeInfo.map CodeInfo.file))
  lib := cutText []

/-- The frame of an address without a symbol. -/
def noSymbolFrame (addr : UInt64) : BswFrame where
  addr
  line := 0
  inlined := 0
  sym := cutText (ascii "??")
  file := cutText []
  lib := cutText []

/-- The frames that stand for an address. -/
def expansionOf : UInt64 × Symbolized → List BswFrame
  | (addr, .sym s) => functionFrame addr s :: s.inlined.map (inlinedCallFrame addr)
  | (addr, .unknown) => [noSymbolFrame addr]

/-- The full expansion of a stack. -/
def expansion (addrs : List UInt64) (results : List Symbolized) : List BswFrame :=
  (addrs.zip results).flatMap expansionOf

/-! ### Filling a cleared slot -/

/-- A text that is copied into a cleared array leaves zeros after it. -/
theorem copyStr_zeros (text : Bytes) :
    copyStr (List.replicate bswStrMax 0) text = cutText text := by
  have htake : text.take (min text.length (bswStrMax - 1)) = text.take (bswStrMax - 1) :=
    List.take_eq_take_iff.mpr (by omega)
  have hlt : min text.length (bswStrMax - 1) < bswStrMax :=
    (Nat.min_le_right ..).trans_lt (by decide)
  rw [copyStr, cutText, htake, List.drop_replicate, ← List.replicate_succ]
  congr 2
  omega

/-- A path whose base name is copied into a cleared array. -/
theorem elim_copyStr_zeros (path : Option Bytes) :
    ((path.bind toStr).elim (List.replicate bswStrMax 0) fun s =>
      copyStr (List.replicate bswStrMax 0) (basename s)) = cutText (pathName path) := by
  rw [pathName]
  cases path.bind toStr with
  | none => rfl
  | some s => exact copyStr_zeros (basename s)

/-- The code information of a frame whose line and file are cleared. -/
theorem setCodeInfo_eq {frame : BswFrame} (hfile : frame.file = List.replicate bswStrMax 0)
    (hline : frame.line = 0) (code : Option CodeInfo) :
    frame.setCodeInfo code =
      { frame with
        file := cutText (pathName (code.map CodeInfo.file))
        line := codeLine code } := by
  cases code with
  | none =>
      obtain ⟨addr, line, inlined, sym, file, lib⟩ := frame
      obtain rfl : file = List.replicate bswStrMax 0 := hfile
      obtain rfl : line = 0 := hline
      rfl
  | some code =>
      rw [BswFrame.setCodeInfo, hfile, ← elim_copyStr_zeros]
      rfl

/-- **The frames of a result**: each slot holds the frame of its function or inlined call. -/
theorem framesOf_eq_expansionOf (pair : UInt64 × Symbolized) :
    framesOf pair = expansionOf pair := by
  obtain ⟨addr, res⟩ := pair
  cases res with
  | unknown =>
      rw [framesOf, expansionOf, unknownFrame, BswFrame.zeroed]
      dsimp only
      rw [copyStr_zeros]
      rfl
  | sym s =>
      have hfunction : fillFrame (BswFrame.zeroed addr) s = functionFrame addr s := by
        rw [fillFrame, setCodeInfo_eq rfl rfl, functionFrame, ← elim_copyStr_zeros s.module,
          ← copyStr_zeros s.name]
        rfl
      have hinlined : inlinedFrame addr = inlinedCallFrame addr := by
        funext inl
        rw [inlinedFrame, setCodeInfo_eq rfl rfl, inlinedCallFrame, BswFrame.zeroed, copyStr_zeros]
        rfl
      rw [framesOf, expansionOf, hfunction, hinlined]

/-! ### What is not written -/

/-- Writing a slot keeps the slots after it. -/
theorem drop_push (buf : FrameBuf) (frame : BswFrame) {k : ℕ} (h : buf.written < k) :
    (buf.push frame).out.drop k = buf.out.drop k :=
  List.drop_set_of_lt h

/-- The loop over the inlined calls keeps the slots after the last one it writes. -/
theorem writeInlined_frame (addr : UInt64) (buf : FrameBuf) (inls : List InlinedFn) :
    buf.written ≤ (writeInlined addr buf inls).written ∧
      ∀ k, (writeInlined addr buf inls).written ≤ k →
        (writeInlined addr buf inls).out.drop k = buf.out.drop k := by
  induction inls generalizing buf with
  | nil => exact ⟨Nat.le_refl _, fun _ _ => rfl⟩
  | cons inl inls ih =>
      rw [writeInlined]
      split
      · exact ⟨Nat.le_refl _, fun _ _ => rfl⟩
      · obtain ⟨hle, hdrop⟩ := ih (buf.push (inlinedFrame addr inl))
        have hpush : (buf.push (inlinedFrame addr inl)).written = buf.written + 1 := rfl
        refine ⟨by omega, fun k hk => ?_⟩
        rw [hdrop k hk, drop_push _ _ (by omega)]

/-- The loop over the results stays inside the array, and keeps the slots after the last one
it writes. -/
theorem writeResults_frame {buf : FrameBuf} (h : buf.written ≤ buf.out.length)
    (results : List (UInt64 × Symbolized)) :
    (writeResults buf results).written ≤ (writeResults buf results).out.length ∧
      (writeResults buf results).out.length = buf.out.length ∧
      buf.written ≤ (writeResults buf results).written ∧
      ∀ k, (writeResults buf results).written ≤ k →
        (writeResults buf results).out.drop k = buf.out.drop k := by
  induction results generalizing buf with
  | nil => exact ⟨h, rfl, Nat.le_refl _, fun _ _ => rfl⟩
  | cons result results ih =>
      obtain ⟨addr, res⟩ := result
      have hlen : ∀ frame, (buf.push frame).out.length = buf.out.length := by
        simp [FrameBuf.push]
      have hwritten : ∀ frame, (buf.push frame).written = buf.written + 1 := fun _ => rfl
      cases res with
      | unknown =>
          rw [writeResults]
          split
          · exact ⟨h, rfl, Nat.le_refl _, fun _ _ => rfl⟩
          · have hroom : (buf.push (unknownFrame addr)).written ≤
                (buf.push (unknownFrame addr)).out.length := by
              rw [hlen, hwritten]
              omega
            obtain ⟨hle, hout, hmono, hdrop⟩ := ih hroom
            rw [hwritten] at hmono
            refine ⟨hle, hout.trans (hlen _), by omega, fun k hk => ?_⟩
            rw [hdrop k hk, drop_push _ _ (by omega)]
      | sym s =>
          rw [writeResults]
          split
          · exact ⟨h, rfl, Nat.le_refl _, fun _ _ => rfl⟩
          · have hroom : (buf.push (fillFrame (BswFrame.zeroed addr) s)).written ≤
                (buf.push (fillFrame (BswFrame.zeroed addr) s)).out.length := by
              rw [hlen, hwritten]
              omega
            obtain ⟨-, hle', hout'⟩ := writeInlined_spec addr s.inlined hroom
            obtain ⟨hmono', hdrop'⟩ := writeInlined_frame addr
              (buf.push (fillFrame (BswFrame.zeroed addr) s)) s.inlined
            obtain ⟨hle, hout, hmono, hdrop⟩ := ih hle'
            rw [hwritten] at hmono'
            refine ⟨hle, (hout.trans hout').trans (hlen _), by omega, fun k hk => ?_⟩
            rw [hdrop k hk, hdrop' k (by omega), drop_push _ _ (by omega)]

/-- Without addresses or slots the loop would write nothing either. -/
theorem bswResolve_some (results : List Symbolized) (addrs : List UInt64)
    (out : List BswFrame) :
    bswResolve (some results) addrs out = writeResults ⟨out, 0⟩ (addrs.zip results) := by
  rw [bswResolve]
  split
  · rename_i h
    rcases h with h | h
    · rw [List.length_eq_zero_iff.mp h]
      rfl
    · -- the loop stops at its first check
      cases addrs.zip results with
      | nil => rfl
      | cons pair pairs =>
          obtain ⟨addr, res⟩ := pair
          cases res <;> exact (if_pos (by show _ ≥ out.length; omega)).symm
  · rfl

/-- **`bsw_resolve` writes exactly the capped expansion**: it returns how many frames of the
expansion fit, these fill the array from its first slot on, and the other slots are as they
were. -/
theorem bswResolve_eq_expansion (results : List Symbolized) (addrs : List UInt64)
    (out : List BswFrame) :
    let buf := bswResolve (some results) addrs out
    buf.written = min out.length (expansion addrs results).length ∧
      buf.out = (expansion addrs results).take buf.written ++ out.drop buf.written := by
  dsimp only
  have hspec : framesOf = expansionOf := funext framesOf_eq_expansionOf
  have hfilled := filled_bswResolve (some results) addrs out
  rw [Option.getD_some, hspec, ← expansion] at hfilled
  obtain ⟨hle, hlen, -, hdrop⟩ := @writeResults_frame ⟨out, 0⟩ (Nat.zero_le _)
    (addrs.zip results)
  rw [← bswResolve_some] at hle hlen hdrop
  have hwritten : (bswResolve (some results) addrs out).written =
      min out.length (expansion addrs results).length := by
    have hcount := congrArg List.length hfilled
    rw [FrameBuf.filled, List.length_take, List.length_take, Nat.min_eq_left hle] at hcount
    exact hcount
  refine ⟨hwritten, ?_⟩
  rw [← hdrop _ (Nat.le_refl _), hwritten]
  conv_lhs => rw [← List.take_append_drop (min out.length (expansion addrs results).length)
    (bswResolve (some results) addrs out).out]
  congr 1
  rw [← hwritten, ← FrameBuf.filled, hfilled, hwritten]
  refine List.take_eq_take_iff.mpr ?_
  omega

end UnifiedTrace
