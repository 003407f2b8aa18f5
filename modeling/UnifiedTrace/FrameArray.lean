import UnifiedTrace.Blazesym
import UnifiedTrace.WireFormat

/-!
# Frames Across the Language Border

`emit_stack_json` hands `bsw_resolve` an array of `struct bsw_frame`, and the Rust side fills it
through its own `BswFrame`, which is `repr(C)`: both list the same members, and both compilers
place them by the same rule. The stores of the Rust side are modelled byte by byte, `copy_str`
included, which writes no more of a field than the string and its NUL.

## Main results

* `writesFrame_fillFrame`, `writesFrame_inlinedFrame`: the stores for a slot leave the frame in
  it, whatever it held, and touch nothing else.
* `frames_across_border`: the C side reads what the Rust side wrote, and the memory outside of
  the slots that are counted is as it was.
-/

namespace UnifiedTrace

open ByteStores RecordLayout

/-! ### The struct -/

/-- `uint8_t`. -/
def memberU8 : Member := ⟨1, 1, Nat.one_pos⟩

/-- `char[BSW_STR_MAX]`. -/
def memberStr : Member := ⟨bswStrMax, 1, Nat.one_pos⟩

/-- `struct bsw_frame`, and `BswFrame` with `repr(C)`. -/
def bswFrameMembers : List Member :=
  [memberU64, memberU32, memberU8, memberStr, memberStr, memberStr]

/-- Where the compiler puts the six members of a `bsw_frame`. -/
theorem spans_bswFrameMembers : spans bswFrameMembers =
    [⟨0, 8⟩, ⟨8, 4⟩, ⟨12, 1⟩, ⟨13, 512⟩, ⟨525, 512⟩, ⟨1037, 512⟩] := rfl

/-- `sizeof(struct bsw_frame)`. -/
def bswFrameSize : ℕ := sizeof bswFrameMembers

/-- There is no padding at the end. -/
theorem bswFrameSize_eq : bswFrameSize = 1552 := rfl

/-- The `struct bsw_frame` at an address. -/
def BswFrame.load (mem : ℕ → UInt8) (base : ℕ) : BswFrame where
  addr := uint64.load mem (base + 0)
  line := uint32.load mem (base + 8)
  inlined := uint8.load mem (base + 12)
  sym := (chars bswStrMax).load mem (base + 13)
  file := (chars bswStrMax).load mem (base + 525)
  lib := (chars bswStrMax).load mem (base + 1037)

/-! ### The stores of the Rust side -/

/-- `*frame = BswFrame::zeroed(addr)`. -/
def zeroedAssigns (addr : UInt64) : List Assign :=
  [⟨0, bytesOf 8 addr.toNat⟩, ⟨8, bytesOf 4 (0 : UInt32).toNat⟩, ⟨12, bytesOf 1 (0 : UInt8).toNat⟩,
    ⟨13, List.replicate bswStrMax 0⟩, ⟨525, List.replicate bswStrMax 0⟩,
    ⟨1037, List.replicate bswStrMax 0⟩]

/-- `copy_str` into the field at an address. -/
def copyStrStores (field : ℕ) (src : Bytes) : List Store :=
  storesFrom field (src.take (min src.length (bswStrMax - 1)) ++ [0])

/-- The code information of a symbol or inlined call. -/
def codeInfoStores (base : ℕ) : Option CodeInfo → List Store
  | none => []
  | some code =>
      (toStr code.file).elim [] (fun file => copyStrStores (base + 525) (basename file)) ++
        storesFrom (base + 8) (bytesOf 4 (code.line.getD 0).toNat)

/-- The slot of a symbol. -/
def fillFrameStores (addr : UInt64) (sym : Sym) (base : ℕ) : List Store :=
  storesOf base (zeroedAssigns addr) ++ copyStrStores (base + 13) sym.name ++
    codeInfoStores base sym.codeInfo ++
    (sym.module.bind toStr).elim [] fun s => copyStrStores (base + 1037) (basename s)

/-- The slot of an inlined call. -/
def inlinedFrameStores (addr : UInt64) (inl : InlinedFn) (base : ℕ) : List Store :=
  storesOf base (zeroedAssigns addr) ++ storesFrom (base + 12) (bytesOf 1 (1 : UInt8).toNat) ++
    copyStrStores (base + 13) inl.name ++ codeInfoStores base inl.codeInfo

/-- The slot of an address without a symbol. -/
def unknownFrameStores (addr : UInt64) (base : ℕ) : List Store :=
  storesOf base (zeroedAssigns addr) ++ copyStrStores (base + 13) (ascii "??")

/-- The memory, and how many slots are written. -/
structure FrameMem where
  mem : ℕ → UInt8
  written : ℕ

section Resolve

variable (out cap : ℕ)

/-- Write the next slot of the array at `out`. -/
def FrameMem.push (m : FrameMem) (stores : ℕ → List Store) : FrameMem where
  mem := run m.mem (stores (out + m.written * bswFrameSize))
  written := m.written + 1

/-- The loop over the inlined calls of a symbol. -/
def writeInlinedData (addr : UInt64) (m : FrameMem) : List InlinedFn → FrameMem
  | [] => m
  | inl :: rest =>
      if m.written ≥ cap then m
      else writeInlinedData addr (m.push out (inlinedFrameStores addr inl)) rest

/-- The loop over the results. -/
def writeResultsData (m : FrameMem) : List (UInt64 × Symbolized) → FrameMem
  | [] => m
  | (addr, res) :: rest =>
      if m.written ≥ cap then m
      else
        match res with
        | .sym s =>
            writeResultsData
              (writeInlinedData out cap addr (m.push out (fillFrameStores addr s)) s.inlined) rest
        | .unknown => writeResultsData (m.push out (unknownFrameStores addr)) rest

/-- `bsw_resolve` on the array of `cap` slots at `out`. -/
def bswResolveData (results : Option (List Symbolized)) (addrs : List UInt64)
    (mem : ℕ → UInt8) : FrameMem :=
  if addrs.length = 0 ∨ cap = 0 then
    ⟨mem, 0⟩
  else
    match results with
    | none => ⟨mem, 0⟩
    | some results => writeResultsData out cap ⟨mem, 0⟩ (addrs.zip results)

end Resolve

/-! ### One field -/

/-- A zeroed frame has all its members assigned. -/
theorem zeroedAssigns_fills (addr : UInt64) : Fills (zeroedAssigns addr) bswFrameMembers := by
  simp only [Fills, zeroedAssigns, List.map_cons, List.map_nil, Assign.span, length_bytesOf,
    List.length_replicate, spans_bswFrameMembers]
  rfl

section Field

variable (mem : ℕ → UInt8) (base : ℕ)

/-- A zeroed slot. -/
theorem load_zeroed (addr : UInt64) :
    BswFrame.load (run mem (storesOf base (zeroedAssigns addr))) base = .zeroed addr := by
  have hfills := zeroedAssigns_fills addr
  have hchars : ∀ (i : ℕ) {offset : ℕ},
      (zeroedAssigns addr)[i]? = some ⟨offset, List.replicate bswStrMax 0⟩ →
        (chars bswStrMax).load (run mem (storesOf base (zeroedAssigns addr))) (base + offset) =
          List.replicate bswStrMax 0 := fun i offset hw =>
    hfills.load (chars bswStrMax) (List.mem_of_getElem? hw) List.length_replicate mem base
  rw [BswFrame.load, hfills.load_uint64 mem base 0 rfl, hfills.load_uint32 mem base 1 rfl,
    hfills.load_uint8 mem base 2 rfl, hchars 3 rfl, hchars 4 rfl, hchars 5 rfl]
  rfl

/-- `copy_str` on memory is `copy_str` on the field. -/
theorem load_copyStr (src : Bytes) :
    (chars bswStrMax).load (run mem (copyStrStores base src)) base =
      copyStr ((chars bswStrMax).load mem base) src := by
  have hlen : (src.take (min src.length (bswStrMax - 1)) ++ [(0 : UInt8)]).length =
      min src.length (bswStrMax - 1) + 1 := by
    rw [List.length_append, List.length_take, List.length_singleton]
    omega
  have hle : min src.length (bswStrMax - 1) + 1 ≤ bswStrMax := by
    have hpos : bswStrMax = 512 := rfl
    omega
  change read (run mem (storesFrom base _)) base bswStrMax = copyStr (read mem base bswStrMax) src
  rw [read_run_storesFrom mem base (hlen.trans_le hle), hlen, copyStr, List.append_assoc,
    List.singleton_append]

/-- Where the stores of `copy_str` go. -/
theorem index_of_mem_copyStrStores {field : ℕ} {src : Bytes} {s : Store}
    (h : s ∈ copyStrStores field src) : field ≤ s.index ∧ s.index < field + 512 := by
  have hbounds := index_of_mem_storesFrom h
  rw [List.length_append, List.length_take, List.length_singleton] at hbounds
  have hmax : bswStrMax = 512 := rfl
  omega

/-- A field that stores do not reach keeps its value. -/
theorem load_keep {stores : List Store} {base lo hi : ℕ}
    (h : ∀ s ∈ stores, base + lo ≤ s.index ∧ s.index < base + hi) {α : Type} (c : CType α) (o : ℕ)
    (ho : o + c.size ≤ lo ∨ hi ≤ o) :
    c.load (run mem stores) (base + o) = c.load mem (base + o) :=
  c.load_run_of_outside (fun s hs => by have := h s hs; omega) mem

/-- Copying into the symbol changes the symbol only. -/
theorem load_sym (src : Bytes) :
    BswFrame.load (run mem (copyStrStores (base + 13) src)) base =
      { BswFrame.load mem base with sym := copyStr (BswFrame.load mem base).sym src } := by
  have hkeep := @load_keep mem (copyStrStores (base + 13) src) base 13 525
    fun s hs => by have := index_of_mem_copyStrStores hs; omega
  rw [BswFrame.load, hkeep uint64 0 (by decide), hkeep uint32 8 (by decide),
    hkeep uint8 12 (by decide), load_copyStr, hkeep (chars bswStrMax) 525 (by decide),
    hkeep (chars bswStrMax) 1037 (by decide)]
  rfl

/-- Copying into the file changes the file only. -/
theorem load_file (src : Bytes) :
    BswFrame.load (run mem (copyStrStores (base + 525) src)) base =
      { BswFrame.load mem base with file := copyStr (BswFrame.load mem base).file src } := by
  have hkeep := @load_keep mem (copyStrStores (base + 525) src) base 525 1037
    fun s hs => by have := index_of_mem_copyStrStores hs; omega
  rw [BswFrame.load, hkeep uint64 0 (by decide), hkeep uint32 8 (by decide),
    hkeep uint8 12 (by decide), hkeep (chars bswStrMax) 13 (by decide), load_copyStr,
    hkeep (chars bswStrMax) 1037 (by decide)]
  rfl

/-- Copying into the library changes the library only. -/
theorem load_lib (src : Bytes) :
    BswFrame.load (run mem (copyStrStores (base + 1037) src)) base =
      { BswFrame.load mem base with lib := copyStr (BswFrame.load mem base).lib src } := by
  have hkeep := @load_keep mem (copyStrStores (base + 1037) src) base 1037 1549
    fun s hs => by have := index_of_mem_copyStrStores hs; omega
  rw [BswFrame.load, hkeep uint64 0 (by decide), hkeep uint32 8 (by decide),
    hkeep uint8 12 (by decide), hkeep (chars bswStrMax) 13 (by decide),
    hkeep (chars bswStrMax) 525 (by decide), load_copyStr]
  rfl

/-- Assigning the line changes the line only. -/
theorem load_line (line : UInt32) :
    BswFrame.load (run mem (storesFrom (base + 8) (bytesOf 4 line.toNat))) base =
      { BswFrame.load mem base with line } := by
  have hkeep := @load_keep mem (storesFrom (base + 8) (bytesOf 4 line.toNat)) base 8 12
    fun s hs => by
      have := index_of_mem_storesFrom hs
      rw [length_bytesOf] at this
      omega
  have hline : uint32.load (run mem (storesFrom (base + 8) (bytesOf 4 line.toNat))) (base + 8) =
      line := (uint32.load_of_holds (length_bytesOf 4 _) (holds_run_storesFrom mem _ _)).trans
    (uint32_value line)
  rw [BswFrame.load, hkeep uint64 0 (by decide), hline, hkeep uint8 12 (by decide),
    hkeep (chars bswStrMax) 13 (by decide), hkeep (chars bswStrMax) 525 (by decide),
    hkeep (chars bswStrMax) 1037 (by decide)]
  rfl

/-- Assigning the inlined mark changes the mark only. -/
theorem load_inlined (inlined : UInt8) :
    BswFrame.load (run mem (storesFrom (base + 12) (bytesOf 1 inlined.toNat))) base =
      { BswFrame.load mem base with inlined } := by
  have hkeep := @load_keep mem (storesFrom (base + 12) (bytesOf 1 inlined.toNat)) base 12 13
    fun s hs => by
      have := index_of_mem_storesFrom hs
      rw [length_bytesOf] at this
      omega
  have hinlined : uint8.load (run mem (storesFrom (base + 12) (bytesOf 1 inlined.toNat)))
      (base + 12) = inlined :=
    (uint8.load_of_holds (length_bytesOf 1 _) (holds_run_storesFrom mem _ _)).trans
      (uint8_value inlined)
  rw [BswFrame.load, hkeep uint64 0 (by decide), hkeep uint32 8 (by decide), hinlined,
    hkeep (chars bswStrMax) 13 (by decide), hkeep (chars bswStrMax) 525 (by decide),
    hkeep (chars bswStrMax) 1037 (by decide)]
  rfl

/-- The code information goes into its two fields. -/
theorem load_codeInfo (info : Option CodeInfo) :
    BswFrame.load (run mem (codeInfoStores base info)) base =
      (BswFrame.load mem base).setCodeInfo info := by
  cases info with
  | none => rfl
  | some code =>
      rw [codeInfoStores, run_append, load_line, BswFrame.setCodeInfo]
      cases toStr code.file with
      | none => rfl
      | some file =>
          rw [Option.elim_some, Option.elim_some, load_file]

end Field

/-! ### One slot -/

/-- The stores leave a frame in the slot, and go nowhere else. -/
structure WritesFrame (stores : ℕ → List Store) (frame : BswFrame) : Prop where
  load_eq : ∀ mem base, BswFrame.load (run mem (stores base)) base = frame
  inside : ∀ base, ∀ s ∈ stores base, base ≤ s.index ∧ s.index < base + bswFrameSize

/-- The source location is written inside the frame. -/
theorem index_of_mem_codeInfo {base : ℕ} {info : Option CodeInfo} {s : Store}
    (h : s ∈ codeInfoStores base info) : base ≤ s.index ∧ s.index < base + bswFrameSize := by
  rw [bswFrameSize_eq]
  cases info with
  | none => exact absurd h List.not_mem_nil
  | some code =>
      rcases List.mem_append.mp h with h | h
      · cases htoStr : toStr code.file with
        | none =>
            rw [htoStr] at h
            exact absurd h List.not_mem_nil
        | some file =>
            rw [htoStr] at h
            have := index_of_mem_copyStrStores h
            omega
      · have hbounds := index_of_mem_storesFrom h
        rw [length_bytesOf] at hbounds
        omega

/-- **The slot of a symbol.** -/
theorem writesFrame_fillFrame (addr : UInt64) (sym : Sym) :
    WritesFrame (fillFrameStores addr sym) (fillFrame (.zeroed addr) sym) where
  load_eq := by
    intro mem base
    rw [fillFrameStores, run_append, run_append, run_append, fillFrame]
    cases sym.module.bind toStr with
    | none =>
        rw [Option.elim_none, Option.elim_none, run_nil, load_codeInfo, load_sym, load_zeroed]
    | some s =>
        rw [Option.elim_some, Option.elim_some, load_lib, load_codeInfo, load_sym, load_zeroed]
  inside := by
    intro base s hs
    rcases List.mem_append.mp hs with hs | hs
    · rcases List.mem_append.mp hs with hs | hs
      · rcases List.mem_append.mp hs with hs | hs
        · exact (zeroedAssigns_fills addr).index_bounds hs
        · have := index_of_mem_copyStrStores hs
          rw [bswFrameSize_eq]
          omega
      · exact index_of_mem_codeInfo hs
    · cases hmodule : sym.module.bind toStr with
      | none =>
          rw [hmodule] at hs
          exact absurd hs List.not_mem_nil
      | some lib =>
          rw [hmodule] at hs
          have := index_of_mem_copyStrStores hs
          rw [bswFrameSize_eq]
          omega

/-- **The slot of an inlined call.** -/
theorem writesFrame_inlinedFrame (addr : UInt64) (inl : InlinedFn) :
    WritesFrame (inlinedFrameStores addr inl) (inlinedFrame addr inl) where
  load_eq := by
    intro mem base
    rw [inlinedFrameStores, run_append, run_append, run_append, inlinedFrame, load_codeInfo,
      load_sym, load_inlined, load_zeroed]
  inside := by
    intro base s hs
    rcases List.mem_append.mp hs with hs | hs
    · rcases List.mem_append.mp hs with hs | hs
      · rcases List.mem_append.mp hs with hs | hs
        · exact (zeroedAssigns_fills addr).index_bounds hs
        · have := index_of_mem_storesFrom hs
          rw [length_bytesOf] at this
          rw [bswFrameSize_eq]
          omega
      · have := index_of_mem_copyStrStores hs
        rw [bswFrameSize_eq]
        omega
    · exact index_of_mem_codeInfo hs

/-- The stores of an unknown address write its frame and nothing else. -/
theorem writesFrame_unknownFrame (addr : UInt64) :
    WritesFrame (unknownFrameStores addr) (unknownFrame addr) where
  load_eq := by
    intro mem base
    rw [unknownFrameStores, run_append, unknownFrame, load_sym, load_zeroed]
  inside := by
    intro base s hs
    rcases List.mem_append.mp hs with hs | hs
    · exact (zeroedAssigns_fills addr).index_bounds hs
    · have := index_of_mem_copyStrStores hs
      rw [bswFrameSize_eq]
      omega

/-- A frame is read from its own slot. -/
theorem BswFrame.load_congr {mem mem' : ℕ → UInt8} {base : ℕ}
    (h : ∀ j, base ≤ j → j < base + bswFrameSize → mem' j = mem j) :
    load mem' base = load mem base := by
  rw [bswFrameSize_eq] at h
  have hload : ∀ {α : Type} (c : CType α) (o : ℕ), o + c.size ≤ 1552 →
      c.load mem' (base + o) = c.load mem (base + o) := fun c o ho =>
    c.load_congr fun k hk => h _ (by omega) (by omega)
  rw [load, load, hload uint64 0 (by decide), hload uint32 8 (by decide),
    hload uint8 12 (by decide), hload (chars bswStrMax) 13 (by decide),
    hload (chars bswStrMax) 525 (by decide), hload (chars bswStrMax) 1037 (by decide)]

/-! ### The array -/

/-- The array of `cap` slots at `out` in memory shows the frames of the list. `mem₀` is the memory
before the call: only the slots that are written differ from it. -/
structure FrameMem.Shows (out cap : ℕ) (mem₀ : ℕ → UInt8) (m : FrameMem) (buf : FrameBuf) :
    Prop where
  length_eq : buf.out.length = cap
  written_eq : m.written = buf.written
  written_le : m.written ≤ cap
  load_eq : ∀ k frame, buf.out[k]? = some frame →
    BswFrame.load m.mem (out + k * bswFrameSize) = frame
  outside : ∀ j, j < out ∨ out + m.written * bswFrameSize ≤ j → m.mem j = mem₀ j

section Array

variable {out cap : ℕ} {mem₀ : ℕ → UInt8} {m : FrameMem} {buf : FrameBuf}

/-- **One slot** is filled on both sides. -/
theorem FrameMem.Shows.push (h : m.Shows out cap mem₀ buf) {stores : ℕ → List Store}
    {frame : BswFrame} (hw : WritesFrame stores frame) (hroom : ¬ buf.written ≥ cap) :
    (m.push out stores).Shows out cap mem₀ (buf.push frame) where
  length_eq := List.length_set.trans h.length_eq
  written_eq := congrArg (· + 1) h.written_eq
  written_le := by
    rw [FrameMem.push, h.written_eq]
    exact Nat.not_le.mp hroom
  load_eq := by
    intro k frame' hk
    rw [FrameBuf.push, List.getElem?_set] at hk
    split_ifs at hk with heq
    · rw [FrameMem.push, h.written_eq, heq, hw.load_eq]
      exact Option.some.inj hk
    · -- another slot ends before this one, or starts behind it
      rw [← h.load_eq k frame' hk]
      refine BswFrame.load_congr fun j hlo hhi => run_of_forall_ne (fun s hs => ?_) m.mem
      have hbounds := hw.inside _ s hs
      rw [h.written_eq] at hbounds
      rcases Nat.lt_or_gt_of_ne heq with hlt | hgt
      · have hle := Nat.mul_le_mul_right bswFrameSize hlt
        rw [Nat.succ_mul] at hle
        omega
      · have hle := Nat.mul_le_mul_right bswFrameSize hgt
        rw [Nat.succ_mul] at hle
        omega
  outside := by
    intro j hj
    rw [FrameMem.push, Nat.succ_mul] at hj
    have hsame : (m.push out stores).mem j = m.mem j := by
      refine run_of_forall_ne (fun s hs => ?_) m.mem
      have hbounds := hw.inside _ s hs
      omega
    rw [hsame]
    exact h.outside j (by omega)

/-- The loop over the inlined calls. -/
theorem FrameMem.Shows.writeInlined (h : m.Shows out cap mem₀ buf) (addr : UInt64)
    (inls : List InlinedFn) :
    (writeInlinedData out cap addr m inls).Shows out cap mem₀
      (UnifiedTrace.writeInlined addr buf inls) := by
  induction inls generalizing m buf with
  | nil => exact h
  | cons inl inls ih =>
      rw [writeInlinedData, UnifiedTrace.writeInlined, h.written_eq, h.length_eq]
      split
      · exact h
      · rename_i hroom
        exact ih (h.push (writesFrame_inlinedFrame addr inl) hroom)

/-- The loop over the results. -/
theorem FrameMem.Shows.writeResults (h : m.Shows out cap mem₀ buf)
    (results : List (UInt64 × Symbolized)) :
    (writeResultsData out cap m results).Shows out cap mem₀
      (UnifiedTrace.writeResults buf results) := by
  induction results generalizing m buf with
  | nil => exact h
  | cons pair results ih =>
      obtain ⟨addr, s | _⟩ := pair
      · rw [writeResultsData, UnifiedTrace.writeResults, h.written_eq, h.length_eq]
        split
        · exact h
        · rename_i hroom
          exact ih ((h.push (writesFrame_fillFrame addr s) hroom).writeInlined addr s.inlined)
      · rw [writeResultsData, UnifiedTrace.writeResults, h.written_eq, h.length_eq]
        split
        · exact h
        · rename_i hroom
          exact ih (h.push (writesFrame_unknownFrame addr) hroom)

/-- The frames that an array shows before the call. -/
def loadFrames (out cap : ℕ) (mem : ℕ → UInt8) : List BswFrame :=
  (List.range cap).map fun k => BswFrame.load mem (out + k * bswFrameSize)

/-- Before the first frame, the array holds what it held. -/
theorem shows_loadFrames (out cap : ℕ) (mem : ℕ → UInt8) :
    (FrameMem.mk mem 0).Shows out cap mem ⟨loadFrames out cap mem, 0⟩ where
  length_eq := by rw [loadFrames, List.length_map, List.length_range]
  written_eq := rfl
  written_le := Nat.zero_le cap
  load_eq := by
    intro k frame hk
    rw [loadFrames, List.getElem?_map, Option.map_eq_some_iff] at hk
    obtain ⟨k', hk', rfl⟩ := hk
    obtain ⟨-, rfl⟩ := List.getElem?_eq_some_iff.mp hk'
    rw [List.getElem_range]
  outside := fun _ _ => rfl

/-- The slots that are written are the frames that the list has filled. -/
theorem FrameMem.Shows.loadFrames_eq (h : m.Shows out cap mem₀ buf) :
    loadFrames out m.written m.mem = buf.filled := by
  have hle : buf.written ≤ buf.out.length := by
    rw [h.length_eq, ← h.written_eq]
    exact h.written_le
  refine List.ext_getElem ?_ fun k hk hk' => ?_
  · rw [loadFrames, List.length_map, List.length_range, FrameBuf.filled, List.length_take,
      Nat.min_eq_left hle, h.written_eq]
  · have hlt : k < buf.out.length := by
      rw [FrameBuf.filled, List.length_take] at hk'
      omega
    simp only [loadFrames, FrameBuf.filled, List.getElem_map, List.getElem_range,
      List.getElem_take]
    exact h.load_eq k _ (List.getElem?_eq_getElem hlt)

/-- `bsw_resolve` in memory and on the list. -/
theorem shows_bswResolve (out cap : ℕ) (results : Option (List Symbolized))
    (addrs : List UInt64) (mem : ℕ → UInt8) :
    (bswResolveData out cap results addrs mem).Shows out cap mem
      (bswResolve results addrs (loadFrames out cap mem)) := by
  have hinit := shows_loadFrames out cap mem
  unfold bswResolveData bswResolve
  rw [hinit.length_eq]
  split
  · exact hinit
  · cases results with
    | none => exact hinit
    | some results => exact hinit.writeResults _

end Array

/-- **Across the border.** Whatever the array held before, the C side reads back, as many as are
counted, the frames that the list of frames says, never more than the array has room for; and no
byte changes outside of the slots that are counted. -/
theorem frames_across_border (out cap : ℕ) (results : Option (List Symbolized))
    (addrs : List UInt64) (mem : ℕ → UInt8) :
    (bswResolveData out cap results addrs mem).written ≤ cap ∧
      loadFrames out (bswResolveData out cap results addrs mem).written
          (bswResolveData out cap results addrs mem).mem =
        (bswResolve results addrs (List.replicate cap (.zeroed 0))).filled ∧
      ∀ j, j < out ∨
          out + (bswResolveData out cap results addrs mem).written * bswFrameSize ≤ j →
        (bswResolveData out cap results addrs mem).mem j = mem j := by
  have hshows := shows_bswResolve out cap results addrs mem
  refine ⟨hshows.written_le, ?_, hshows.outside⟩
  -- what the array held before does not matter
  rw [hshows.loadFrames_eq, filled_bswResolve, filled_bswResolve, List.length_replicate,
    loadFrames, List.length_map, List.length_range]

end UnifiedTrace
