import Mathlib.Data.List.TakeWhile
import UnifiedTrace.RecordLayout
import UnifiedTrace.TraceCpuSched
import UnifiedTrace.TraceCuda

/-!
# The Records in the Rings

The two structs of `include/common.h` that travel through the ring buffers, byte by byte. A
tracer reserves a slot, whose old contents can be anything, and assigns the members one after
the other in the order of its source; the collector reads the struct as its own compiler lays
it out. `char comm[TASK_COMM_LEN]` is a NUL-terminated name followed by bytes that nobody
reads.

## Main results

* `CudaEvent.load_assigns`, `CpuSchedEvent.load_assigns`: over any old contents, the record
  that is read is the record that was submitted.
-/

namespace UnifiedTrace

open ByteStores RecordLayout

/-! ### Names -/

/-- `char comm[TASK_COMM_LEN]`, read up to its first NUL. -/
def commArray : CType Comm where
  size := taskCommLen
  value bs :=
    { bytes := (bs.take (taskCommLen - 1)).takeWhile (· ≠ 0)
      length_lt := by
        have hle := (List.takeWhile_sublist (l := bs.take (taskCommLen - 1)) (· ≠ 0)).length_le
        rw [List.length_take] at hle
        have hpos : 0 < taskCommLen := by decide
        omega
      nul_notMem := fun h => by simpa using List.mem_takeWhile_imp h }

/-- An array that holds the name, and after its NUL the given bytes. -/
def Comm.array (comm : Comm) (rest : Bytes) : Bytes := comm.bytes ++ 0 :: rest

/-- The bytes after the NUL fill up the array. -/
def Comm.FilledBy (comm : Comm) (rest : Bytes) : Prop :=
  (comm.array rest).length = taskCommLen

instance (comm : Comm) (rest : Bytes) : Decidable (comm.FilledBy rest) :=
  inferInstanceAs (Decidable (_ = _))

/-- A task name is its bytes. -/
theorem Comm.eq_of_bytes_eq {c c' : Comm} (h : c.bytes = c'.bytes) : c = c' := by
  cases c
  cases c'
  cases h
  rfl

/-- The bytes after the NUL do not matter. -/
@[simp]
theorem commArray_value (comm : Comm) (rest : Bytes) :
    commArray.value (comm.array rest) = comm := by
  refine Comm.eq_of_bytes_eq ?_
  show ((comm.bytes ++ 0 :: rest).take (taskCommLen - 1)).takeWhile (· ≠ 0) = comm.bytes
  have hlt := comm.length_lt
  have hall : ∀ b ∈ comm.bytes, (decide (b ≠ 0)) = true := fun b hb =>
    decide_eq_true fun hzero => comm.nul_notMem (hzero ▸ hb)
  rw [List.take_append, List.take_of_length_le (by omega), List.takeWhile_append_of_pos hall]
  cases h : taskCommLen - 1 - comm.bytes.length with
  | zero => rw [List.take_zero, List.takeWhile_nil, List.append_nil]
  | succ n =>
      rw [List.take_succ_cons, List.takeWhile_cons_of_neg (by decide), List.append_nil]

/-! ### Members -/

/-- `__uint64`. -/
def memberU64 : Member := ⟨8, 8, by decide⟩

/-- `__u32`, `__s32` and `int`. -/
def memberU32 : Member := ⟨4, 4, by decide⟩

/-- `char[TASK_COMM_LEN]`. -/
def memberComm : Member := ⟨taskCommLen, 1, by decide⟩

/-- `struct cuda_event`. -/
def cudaEventMembers : List Member :=
  [memberU64, memberU64, memberU32, memberU32, memberU32, memberU64, memberU64, memberU32,
    memberComm, memberU64, memberU32, memberU32]

/-- `struct cpu_sched_event`. -/
def cpuSchedEventMembers : List Member :=
  [memberU64, memberU32, memberU32, memberU32, memberU32, memberU64, memberU32, memberComm]

/-! ### What the tracers write -/

/-- The assignments of `submit_event` to the members of the reserved record. The name comes
last, from `bpf_get_current_comm`. -/
def CudaEvent.assigns (e : CudaEvent) (rest : Bytes) : List Assign :=
  [⟨0, bytesOf 8 e.timestamp.toNat⟩,
    ⟨8, bytesOf 8 e.durationNs.toNat⟩,
    ⟨16, bytesOf 4 e.pid.toNat⟩,
    ⟨20, bytesOf 4 e.tid.toNat⟩,
    ⟨24, bytesOf 4 e.opType.toNat⟩,
    ⟨32, bytesOf 8 e.size.toNat⟩,
    ⟨40, bytesOf 8 e.ptr.toNat⟩,
    ⟨48, bytesOf 4 e.retVal.toUInt32.toNat⟩,
    ⟨72, bytesOf 8 e.streamId.toNat⟩,
    ⟨80, bytesOf 4 e.stackId.toUInt32.toNat⟩,
    ⟨84, bytesOf 4 e.flags.toNat⟩,
    ⟨52, e.comm.array rest⟩]

/-- The assignments of the programs on the scheduler's tracepoints, which are the same three
times. -/
def CpuSchedEvent.assigns (e : CpuSchedEvent) (rest : Bytes) : List Assign :=
  [⟨0, bytesOf 8 e.timestamp.toNat⟩,
    ⟨8, bytesOf 4 e.eventType.toNat⟩,
    ⟨12, bytesOf 4 e.pid.toNat⟩,
    ⟨16, bytesOf 4 e.tid.toNat⟩,
    ⟨20, bytesOf 4 e.cpu.toNat⟩,
    ⟨24, bytesOf 8 e.prevState.toNat⟩,
    ⟨32, bytesOf 4 e.stackId.toUInt32.toNat⟩,
    ⟨36, e.comm.array rest⟩]

/-! ### What the collector reads -/

/-- The `struct cuda_event` at an address. -/
def CudaEvent.load (mem : ℕ → UInt8) (base : ℕ) : CudaEvent where
  timestamp := uint64.load mem (base + 0)
  durationNs := uint64.load mem (base + 8)
  pid := uint32.load mem (base + 16)
  tid := uint32.load mem (base + 20)
  opType := uint32.load mem (base + 24)
  size := uint64.load mem (base + 32)
  ptr := uint64.load mem (base + 40)
  retVal := int32.load mem (base + 48)
  comm := commArray.load mem (base + 52)
  streamId := uint64.load mem (base + 72)
  stackId := int32.load mem (base + 80)
  flags := uint32.load mem (base + 84)

/-- The `struct cpu_sched_event` at an address. -/
def CpuSchedEvent.load (mem : ℕ → UInt8) (base : ℕ) : CpuSchedEvent where
  timestamp := uint64.load mem (base + 0)
  eventType := uint32.load mem (base + 8)
  pid := uint32.load mem (base + 12)
  tid := uint32.load mem (base + 16)
  cpu := uint32.load mem (base + 20)
  prevState := uint64.load mem (base + 24)
  stackId := int32.load mem (base + 32)
  comm := commArray.load mem (base + 36)

/-- The timestamp is the first member of either record. -/
theorem CudaEvent.timestamp_load (mem : ℕ → UInt8) (base : ℕ) :
    (load mem base).timestamp = uint64.load mem base := rfl

/-- The timestamp of a CPU event is loaded from its first member. -/
theorem CpuSchedEvent.timestamp_load (mem : ℕ → UInt8) (base : ℕ) :
    (load mem base).timestamp = uint64.load mem base := rfl

/-- The size of a CUDA event. -/
theorem sizeof_cudaEventMembers : sizeof cudaEventMembers = 88 := rfl

/-- The size of a CPU event. -/
theorem sizeof_cpuSchedEventMembers : sizeof cpuSchedEventMembers = 56 := rfl

/-- `submit_event` assigns every member. -/
theorem CudaEvent.assigns_fills (e : CudaEvent) {rest : Bytes} (h : e.comm.FilledBy rest) :
    Fills (e.assigns rest) cudaEventMembers := by
  have hcomm : (e.comm.array rest).length = 16 := h
  simp only [Fills, CudaEvent.assigns, List.map_cons, List.map_nil, Assign.span,
    length_bytesOf, hcomm]
  decide

/-- The scheduler's programs assign every member. -/
theorem CpuSchedEvent.assigns_fills (e : CpuSchedEvent) {rest : Bytes}
    (h : e.comm.FilledBy rest) : Fills (e.assigns rest) cpuSchedEventMembers := by
  have hcomm : (e.comm.array rest).length = 16 := h
  simp only [Fills, CpuSchedEvent.assigns, List.map_cons, List.map_nil, Assign.span,
    length_bytesOf, hcomm]
  decide

/-- A name is read as it was assigned. -/
theorem load_commArray {assigns : List Assign} {members : List Member}
    (hfills : Fills assigns members) (mem : ℕ → UInt8) (base i : ℕ) {offset : ℕ} {comm : Comm}
    {rest : Bytes} (h : comm.FilledBy rest)
    (hw : assigns[i]? = some ⟨offset, comm.array rest⟩) :
    commArray.load (run mem (storesOf base assigns)) (base + offset) = comm :=
  (hfills.load commArray (List.mem_of_getElem? hw) h mem base).trans (commArray_value comm rest)

/-- **A CUDA record** is read as it was submitted, whatever the slot held before. -/
theorem CudaEvent.load_assigns (e : CudaEvent) {rest : Bytes} (h : e.comm.FilledBy rest)
    (mem : ℕ → UInt8) (base : ℕ) :
    load (run mem (storesOf base (e.assigns rest))) base = e := by
  have hfills := e.assigns_fills h
  rw [load, hfills.load_uint64 mem base 0 rfl, hfills.load_uint64 mem base 1 rfl,
    hfills.load_uint32 mem base 2 rfl, hfills.load_uint32 mem base 3 rfl,
    hfills.load_uint32 mem base 4 rfl, hfills.load_uint64 mem base 5 rfl,
    hfills.load_uint64 mem base 6 rfl, hfills.load_int32 mem base 7 rfl,
    hfills.load_uint64 mem base 8 rfl, hfills.load_int32 mem base 9 rfl,
    hfills.load_uint32 mem base 10 rfl, load_commArray hfills mem base 11 h rfl]

/-- **A scheduling record** is read as it was submitted, whatever the slot held before. -/
theorem CpuSchedEvent.load_assigns (e : CpuSchedEvent) {rest : Bytes}
    (h : e.comm.FilledBy rest) (mem : ℕ → UInt8) (base : ℕ) :
    load (run mem (storesOf base (e.assigns rest))) base = e := by
  have hfills := e.assigns_fills h
  rw [load, hfills.load_uint64 mem base 0 rfl, hfills.load_uint32 mem base 1 rfl,
    hfills.load_uint32 mem base 2 rfl, hfills.load_uint32 mem base 3 rfl,
    hfills.load_uint32 mem base 4 rfl, hfills.load_uint64 mem base 5 rfl,
    hfills.load_int32 mem base 6 rfl, load_commArray hfills mem base 7 h rfl]

end UnifiedTrace
