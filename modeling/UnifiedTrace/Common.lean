import Mathlib.Data.Nat.Bitwise

/-!
# The Shared Data Model

The records of `include/common.h`, which the two BPF programs fill and the user-space
collector reads, and the thread identities the kernel hands to both programs. Fixed-width
fields keep their widths. Fields that no modelled function reads (the task priorities of
the tracepoint contexts, the padding) are left out.

## Kernel conventions

* `Comm`: a task name is NUL-terminated inside its `TASK_COMM_LEN` bytes, so as a string
  it has fewer than 16 bytes and none of them is NUL.
* `Task`: a thread has a process id (`tgid`) and a thread id (`tid`), and thread ids stay
  at or below `PID_MAX_LIMIT = 4194304`. The idle task of every CPU has thread id `0`.
* `Task.pidTgid`: `bpf_get_current_pid_tgid` puts the process id in the upper half and
  the thread id in the lower half.
-/

namespace UnifiedTrace

/-! ### Strings -/

/-- A byte string. -/
abbrev Bytes := List UInt8

/-- The bytes of an ASCII literal of the source. -/
def ascii (s : String) : Bytes := s.toList.map fun c => UInt8.ofNat c.toNat

/-- `TASK_COMM_LEN`. -/
def taskCommLen : ℕ := 16

/-- A task name as the kernel keeps it: a NUL-terminated string in `TASK_COMM_LEN` bytes. -/
structure Comm where
  /-- The bytes before the terminating NUL. -/
  bytes : Bytes
  /-- The terminator fits. -/
  length_lt : bytes.length < taskCommLen
  /-- The terminator is the first NUL. -/
  nul_notMem : (0 : UInt8) ∉ bytes
  deriving DecidableEq

/-- The empty name. -/
def Comm.empty : Comm := ⟨[], by decide, by decide⟩

/-! ### CUDA operations -/

/-- `enum cuda_op_type`: the traced functions of the CUDA runtime. -/
inductive CudaOp
  | malloc
  | free
  | memcpy
  | launchKernel
  | sync
  | memcpyAsync
  | streamSync
  | streamCreate
  | streamDestroy
  | eventRecord
  | eventSync
  | eventQuery
  | launchKernelEx
  | graphLaunch
  deriving DecidableEq, Repr

/-- The value of the enumerator. -/
def CudaOp.code : CudaOp → UInt32
  | malloc => 1
  | free => 2
  | memcpy => 3
  | launchKernel => 4
  | sync => 5
  | memcpyAsync => 6
  | streamSync => 7
  | streamCreate => 8
  | streamDestroy => 9
  | eventRecord => 10
  | eventSync => 11
  | eventQuery => 12
  | launchKernelEx => 13
  | graphLaunch => 14

/-- Different operations have different codes, so comparing codes compares operations. -/
theorem CudaOp.code_injective : Function.Injective CudaOp.code := by
  intro a b h
  cases a <;> cases b <;> first | rfl | exact absurd h (by decide)

/-- `CUDA_EV_FLAG_ASYNC`. -/
def cudaEvFlagAsync : UInt32 := (1 : UInt32) <<< 0

/-- `CUDA_EV_FLAG_STACK_SAMPLED`. -/
def cudaEvFlagStackSampled : UInt32 := (1 : UInt32) <<< 1

/-- `struct cuda_call_info`: what the entry probe saves for the return probe. -/
structure CudaCallInfo where
  timestamp : UInt64
  opType : UInt32
  pid : UInt32
  size : UInt64
  ptr : UInt64
  streamId : UInt64
  stackId : Int32
  flags : UInt32
  deriving DecidableEq

/-- `struct cuda_event`: one finished CUDA call. -/
structure CudaEvent where
  timestamp : UInt64
  durationNs : UInt64
  pid : UInt32
  tid : UInt32
  opType : UInt32
  size : UInt64
  ptr : UInt64
  retVal : Int32
  comm : Comm
  streamId : UInt64
  stackId : Int32
  flags : UInt32
  deriving DecidableEq

/-! ### Scheduling events -/

/-- `CPU_SCHED_ON`: the thread was switched in. -/
def cpuSchedOn : UInt32 := 1

/-- `CPU_SCHED_OFF`: the thread was switched out. -/
def cpuSchedOff : UInt32 := 2

/-- `CPU_SCHED_WAKEUP`: the thread was woken up. -/
def cpuSchedWakeup : UInt32 := 3

/-- `struct cpu_sched_event`. -/
structure CpuSchedEvent where
  timestamp : UInt64
  eventType : UInt32
  pid : UInt32
  tid : UInt32
  cpu : UInt32
  prevState : UInt64
  stackId : Int32
  comm : Comm
  deriving DecidableEq

/-! ### Threads -/

/-- `PID_MAX_LIMIT` of the kernel. -/
def pidMaxLimit : UInt32 := 4194304

/-- A thread: its process id and its own id. -/
structure Task where
  tgid : UInt32
  tid : UInt32
  /-- The kernel hands out no larger thread id. -/
  tid_le : tid ≤ pidMaxLimit
  deriving DecidableEq

/-- What `bpf_get_current_pid_tgid` returns while the thread is current. -/
def Task.pidTgid (t : Task) : UInt64 := t.tgid.toUInt64 <<< 32 ||| t.tid.toUInt64

/-- The upper half of a `pid_tgid`, as the probes compute it. -/
def pidOf (pidTgid : UInt64) : UInt32 := (pidTgid >>> 32).toUInt32

/-- The lower half of a `pid_tgid`, as the probes compute it. -/
def tidOf (pidTgid : UInt64) : UInt32 := (pidTgid &&& 0xFFFFFFFF).toUInt32

/-- The two halves of a `pid_tgid` do not overlap. -/
theorem Task.toNat_pidTgid (t : Task) :
    t.pidTgid.toNat = t.tgid.toNat * 2 ^ 32 + t.tid.toNat := by
  have hg := t.tgid.toNat_lt
  have ht := t.tid.toNat_lt
  have hor := Nat.shiftLeft_add_eq_or_of_lt ht t.tgid.toNat
  rw [Nat.shiftLeft_eq] at hor
  rw [pidTgid, UInt64.toNat_or, UInt64.toNat_shiftLeft]
  simp only [UInt32.toNat_toUInt64]
  rw [Nat.shiftLeft_eq, show (32 : UInt64).toNat % 64 = 32 from rfl,
    Nat.mod_eq_of_lt (by omega), ← hor]

/-- The upper half names the process. -/
@[simp] theorem pidOf_pidTgid (t : Task) : pidOf t.pidTgid = t.tgid := by
  have hg := t.tgid.toNat_lt
  have ht := t.tid.toNat_lt
  apply UInt32.toNat_inj.mp
  rw [pidOf, UInt64.toNat_toUInt32, UInt64.toNat_shiftRight, t.toNat_pidTgid,
    Nat.shiftRight_eq_div_pow, show (32 : UInt64).toNat % 64 = 32 from rfl]
  omega

/-- The lower half names the thread. -/
@[simp] theorem tidOf_pidTgid (t : Task) : tidOf t.pidTgid = t.tid := by
  have hg := t.tgid.toNat_lt
  have ht := t.tid.toNat_lt
  apply UInt32.toNat_inj.mp
  rw [tidOf, UInt64.toNat_toUInt32, UInt64.toNat_and, t.toNat_pidTgid,
    show (0xFFFFFFFF : UInt64).toNat = 2 ^ 32 - 1 from rfl,
    Nat.and_two_pow_sub_one_eq_mod]
  omega

end UnifiedTrace
