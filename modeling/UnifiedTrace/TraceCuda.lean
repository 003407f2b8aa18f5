import Mathlib.Logic.Function.Basic
import UnifiedTrace.BoundedMap
import UnifiedTrace.Common

/-!
# The CUDA Runtime Tracer

A model of `src/bpf/trace_cuda.bpf.c`: the uprobe and uretprobe programs on the CUDA
runtime and the two maps they keep between firings. What a BPF helper returns during one
firing (the current thread, the clock, the CPU, the result of a stack walk, the fate of a
ring-buffer reservation) is part of the firing's environment, `EntryEnv` or `ReturnEnv`;
the programs themselves are functions of that environment and of the maps.

A firing of an entry probe returns the new maps and the program's return value. A firing
of a return probe returns the new maps and the event it submitted to `cuda_events`, if
any.

## Main results

* `entryProbe_eq_args`: each of the fourteen entry programs is `recordEntry` at its own
  operation and class, with the words of its arguments.
* `recordEntry_of_filtered`, `recordEntry_of_passes`: what the common entry path does.
* `submitEvent_eq_some_iff`: an event is submitted exactly when the slot of the calling
  thread holds an entry of the same operation and the reservation succeeds; the event is
  then `eventOf` that entry.
* `lookup_submitEvent`: every firing of a return probe empties the slot of its thread.
-/

namespace UnifiedTrace

/-! ### Maps and configuration -/

/-- `max_entries` of `cuda_calls`. -/
def cudaCallsMaxEntries : ℕ := 10240

/-- `struct cuda_tracer_cfg`. -/
structure CudaTracerCfg where
  /-- `0` traces every process. -/
  targetPid : UInt32
  samplePeriodSync : UInt32
  samplePeriodAsync : UInt32
  captureStacks : UInt8
  deriving DecidableEq

/-- The value the object file starts with. -/
def CudaTracerCfg.default : CudaTracerCfg where
  targetPid := 0
  samplePeriodSync := 1
  samplePeriodAsync := 8
  captureStacks := 1

/-- The maps of the program: the in-flight calls keyed by `pid_tgid`, and the sampling
counter of each CPU. -/
structure CudaMaps where
  cudaCalls : BoundedMap UInt64 CudaCallInfo cudaCallsMaxEntries
  stackSampleCounter : UInt32 → UInt64

/-- The maps after loading: no call in flight, counters at zero. -/
def CudaMaps.init : CudaMaps where
  cudaCalls := BoundedMap.empty
  stackSampleCounter := fun _ => 0

/-- The argument and result registers of `struct pt_regs` on x86-64. -/
structure PtRegs where
  rdi : UInt64
  rsi : UInt64
  rdx : UInt64
  rcx : UInt64
  r8 : UInt64
  rax : UInt64
  deriving DecidableEq

/-- `PT_REGS_PARM1`. -/
def PtRegs.parm1 (ctx : PtRegs) : UInt64 := ctx.rdi

/-- `PT_REGS_PARM2`. -/
def PtRegs.parm2 (ctx : PtRegs) : UInt64 := ctx.rsi

/-- `PT_REGS_PARM3`. -/
def PtRegs.parm3 (ctx : PtRegs) : UInt64 := ctx.rdx

/-- `PT_REGS_PARM5`. -/
def PtRegs.parm5 (ctx : PtRegs) : UInt64 := ctx.r8

/-- `PT_REGS_RC`. -/
def PtRegs.rc (ctx : PtRegs) : UInt64 := ctx.rax

/-- What the helpers return while an entry probe runs. -/
structure EntryEnv where
  /-- `bpf_get_current_pid_tgid`. -/
  pidTgid : UInt64
  /-- `bpf_ktime_get_ns`. -/
  now : UInt64
  /-- The CPU whose slot of the per-CPU counter the lookup yields. -/
  cpu : UInt32
  /-- `bpf_get_stackid`, should the program call it. -/
  stackid : Int32
  deriving DecidableEq

/-- What the helpers return while a return probe runs. -/
structure ReturnEnv where
  /-- `bpf_get_current_pid_tgid`. -/
  pidTgid : UInt64
  /-- `bpf_ktime_get_ns`. -/
  now : UInt64
  /-- Whether `bpf_ringbuf_reserve` finds room. -/
  reserve : Bool
  /-- `bpf_get_current_comm`. -/
  comm : Comm
  deriving DecidableEq

/-! ### The common paths -/

/-- The local `period` of `maybe_capture_stack`: the period of the call's class, with `0`
read as `1`. -/
def CudaTracerCfg.period (cfg : CudaTracerCfg) (flags : UInt32) : UInt32 :=
  let period :=
    if flags &&& cudaEvFlagAsync ≠ 0 then cfg.samplePeriodAsync else cfg.samplePeriodSync
  if period = 0 then 1 else period

/-- `(*cnt)++` on the counter of a CPU. -/
def CudaMaps.bumpCounter (maps : CudaMaps) (cpu : UInt32) : CudaMaps :=
  { maps with
    stackSampleCounter :=
      Function.update maps.stackSampleCounter cpu (maps.stackSampleCounter cpu + 1) }

/-- `maybe_capture_stack`. `none` is the result `-1` of a firing that did not ask for a
stack; `some sid` is the result of a call to `bpf_get_stackid`. The counter lookup cannot
fail: slot `0` of a one-entry per-CPU array always exists. -/
def maybeCaptureStack (cfg : CudaTracerCfg) (maps : CudaMaps) (env : EntryEnv)
    (flags : UInt32) : CudaMaps × Option Int32 :=
  if cfg.captureStacks = 0 then
    (maps, none)
  else if maps.stackSampleCounter env.cpu % (cfg.period flags).toUInt64 ≠ 0 then
    (maps.bumpCounter env.cpu, none)
  else
    (maps.bumpCounter env.cpu, some env.stackid)

/-- The PID filter of `record_entry`: the process of the calling thread is traced. -/
def CudaTracerCfg.Passes (cfg : CudaTracerCfg) (pidTgid : UInt64) : Prop :=
  cfg.targetPid = 0 ∨ pidOf pidTgid = cfg.targetPid

instance (cfg : CudaTracerCfg) (pidTgid : UInt64) : Decidable (cfg.Passes pidTgid) :=
  inferInstanceAs (Decidable (_ ∨ _))

/-- `bpf_map_update_elem(&cuda_calls, ..., BPF_ANY)`. The program ignores the error code,
so a refused update leaves the map as it was. -/
def CudaMaps.setCall (maps : CudaMaps) (pidTgid : UInt64) (info : CudaCallInfo) : CudaMaps :=
  { maps with cudaCalls := (maps.cudaCalls.update pidTgid info).getD maps.cudaCalls }

/-- `bpf_map_delete_elem(&cuda_calls, ...)`. -/
def CudaMaps.deleteCall (maps : CudaMaps) (pidTgid : UInt64) : CudaMaps :=
  { maps with cudaCalls := maps.cudaCalls.delete pidTgid }

/-- The local `info` of `record_entry` when it is stored, for the stack id the sampler
returned. -/
def callInfo (env : EntryEnv) (opType flags : UInt32) (size ptr streamId : UInt64)
    (sid : Int32) : CudaCallInfo where
  timestamp := env.now
  opType := opType
  pid := pidOf env.pidTgid
  size := size
  ptr := ptr
  streamId := streamId
  stackId := sid
  flags := if 0 ≤ sid then flags ||| cudaEvFlagStackSampled else flags

/-- `record_entry`: the common entry path. Returns `1` when the process is filtered out
and `0` otherwise. -/
def recordEntry (cfg : CudaTracerCfg) (maps : CudaMaps) (env : EntryEnv)
    (opType flags : UInt32) (size ptr streamId : UInt64) : CudaMaps × Int32 :=
  if cfg.targetPid ≠ 0 ∧ pidOf env.pidTgid ≠ cfg.targetPid then
    (maps, 1)
  else
    let captured := maybeCaptureStack cfg maps env flags
    let sid := captured.2.getD (-1)
    (captured.1.setCall env.pidTgid (callInfo env opType flags size ptr streamId sid), 0)

/-- The event a return probe fills in from the saved entry. -/
def eventOf (info : CudaCallInfo) (env : ReturnEnv) (ctx : PtRegs) (opType : UInt32) :
    CudaEvent where
  timestamp := info.timestamp
  durationNs := env.now - info.timestamp
  pid := info.pid
  tid := tidOf env.pidTgid
  opType := opType
  size := info.size
  ptr := info.ptr
  retVal := ctx.rc.toUInt32.toInt32
  comm := env.comm
  streamId := info.streamId
  stackId := info.stackId
  flags := info.flags

/-- `submit_event`: the common return path, with the event it submits. -/
def submitEvent (maps : CudaMaps) (env : ReturnEnv) (ctx : PtRegs) (opType : UInt32) :
    CudaMaps × Option CudaEvent :=
  match maps.cudaCalls.lookup env.pidTgid with
  | none => (maps, none)
  | some info =>
      if info.opType ≠ opType then
        (maps.deleteCall env.pidTgid, none)
      else if ¬ env.reserve then
        (maps.deleteCall env.pidTgid, none)
      else
        (maps.deleteCall env.pidTgid, some (eventOf info env ctx opType))

/-! ### The programs -/

section Programs

variable (cfg : CudaTracerCfg) (maps : CudaMaps) (env : EntryEnv) (ctx : PtRegs)

def traceCudaMallocEntry := recordEntry cfg maps env CudaOp.malloc.code 0 ctx.parm2 0 0

def traceCudaFreeEntry := recordEntry cfg maps env CudaOp.free.code 0 0 ctx.parm1 0

def traceCudaMemcpyEntry := recordEntry cfg maps env CudaOp.memcpy.code 0 ctx.parm3 0 0

def traceCudaLaunchEntry :=
  recordEntry cfg maps env CudaOp.launchKernel.code 0 0 ctx.parm1 0

/-- `cudaDeviceSynchronize` has no arguments to record. -/
def traceCudaSyncEntry (_ctx : PtRegs) := recordEntry cfg maps env CudaOp.sync.code 0 0 0 0

def traceCudaMemcpyAsyncEntry :=
  recordEntry cfg maps env CudaOp.memcpyAsync.code cudaEvFlagAsync ctx.parm3 0 ctx.parm5

def traceCudaStreamSyncEntry :=
  recordEntry cfg maps env CudaOp.streamSync.code 0 0 0 ctx.parm1

def traceCudaStreamCreateEntry :=
  recordEntry cfg maps env CudaOp.streamCreate.code 0 0 ctx.parm1 0

def traceCudaStreamDestroyEntry :=
  recordEntry cfg maps env CudaOp.streamDestroy.code 0 0 0 ctx.parm1

def traceCudaEventRecordEntry :=
  recordEntry cfg maps env CudaOp.eventRecord.code cudaEvFlagAsync 0 ctx.parm1 ctx.parm2

def traceCudaEventSyncEntry :=
  recordEntry cfg maps env CudaOp.eventSync.code 0 0 ctx.parm1 0

def traceCudaEventQueryEntry :=
  recordEntry cfg maps env CudaOp.eventQuery.code 0 0 ctx.parm1 0

def traceCudaLaunchExEntry :=
  recordEntry cfg maps env CudaOp.launchKernelEx.code cudaEvFlagAsync 0 ctx.parm2 0

def traceCudaGraphLaunchEntry :=
  recordEntry cfg maps env CudaOp.graphLaunch.code cudaEvFlagAsync 0 ctx.parm1 ctx.parm2

/-- The entry program attached to each function (`cuda_funcs` of `unified_trace.c`). -/
def entryProbe : CudaOp → CudaMaps × Int32
  | .malloc => traceCudaMallocEntry cfg maps env ctx
  | .free => traceCudaFreeEntry cfg maps env ctx
  | .memcpy => traceCudaMemcpyEntry cfg maps env ctx
  | .launchKernel => traceCudaLaunchEntry cfg maps env ctx
  | .sync => traceCudaSyncEntry cfg maps env ctx
  | .memcpyAsync => traceCudaMemcpyAsyncEntry cfg maps env ctx
  | .streamSync => traceCudaStreamSyncEntry cfg maps env ctx
  | .streamCreate => traceCudaStreamCreateEntry cfg maps env ctx
  | .streamDestroy => traceCudaStreamDestroyEntry cfg maps env ctx
  | .eventRecord => traceCudaEventRecordEntry cfg maps env ctx
  | .eventSync => traceCudaEventSyncEntry cfg maps env ctx
  | .eventQuery => traceCudaEventQueryEntry cfg maps env ctx
  | .launchKernelEx => traceCudaLaunchExEntry cfg maps env ctx
  | .graphLaunch => traceCudaGraphLaunchEntry cfg maps env ctx

/-- The return program attached to each function: all fourteen are `submit_event` at the
function's own operation. -/
def returnProbe (op : CudaOp) (maps : CudaMaps) (env : ReturnEnv) (ctx : PtRegs) :
    CudaMaps × Option CudaEvent :=
  submitEvent maps env ctx op.code

end Programs

/-- The class flag an operation's entry program passes to `record_entry`. -/
def CudaOp.entryFlags : CudaOp → UInt32
  | memcpyAsync | eventRecord | launchKernelEx | graphLaunch => cudaEvFlagAsync
  | _ => 0

/-- The argument of a function that is recorded as a size. -/
def CudaOp.sizeArg : CudaOp → Option (PtRegs → UInt64)
  | malloc => some PtRegs.parm2
  | memcpy | memcpyAsync => some PtRegs.parm3
  | _ => none

/-- The argument of a function that is recorded as a pointer. -/
def CudaOp.ptrArg : CudaOp → Option (PtRegs → UInt64)
  | free | launchKernel | streamCreate | eventRecord | eventSync | eventQuery | graphLaunch =>
      some PtRegs.parm1
  | launchKernelEx => some PtRegs.parm2
  | _ => none

/-- The argument of a function that is recorded as a stream. -/
def CudaOp.streamArg : CudaOp → Option (PtRegs → UInt64)
  | memcpyAsync => some PtRegs.parm5
  | streamSync | streamDestroy => some PtRegs.parm1
  | eventRecord | graphLaunch => some PtRegs.parm2
  | _ => none

/-- The word that is recorded for an argument; `0` where the function has none. -/
def PtRegs.word (ctx : PtRegs) (arg : Option (PtRegs → UInt64)) : UInt64 :=
  arg.elim 0 fun f => f ctx

/-- **One entry program.** Every entry program is the common path at its operation and class, with
the words of its arguments. -/
theorem entryProbe_eq_args (cfg : CudaTracerCfg) (maps : CudaMaps) (env : EntryEnv)
    (ctx : PtRegs) (op : CudaOp) :
    entryProbe cfg maps env ctx op = recordEntry cfg maps env op.code op.entryFlags
      (ctx.word op.sizeArg) (ctx.word op.ptrArg) (ctx.word op.streamArg) := by
  cases op <;> rfl

/-- The words come from the registers alone. -/
theorem entryProbe_eq (cfg : CudaTracerCfg) (ctx : PtRegs) (op : CudaOp) :
    ∃ size ptr streamId, ∀ maps env, entryProbe cfg maps env ctx op =
      recordEntry cfg maps env op.code op.entryFlags size ptr streamId :=
  ⟨_, _, _, fun maps env => entryProbe_eq_args cfg maps env ctx op⟩

/-! ### What the common paths do -/

section Lemmas

variable {cfg : CudaTracerCfg} {maps : CudaMaps}

/-- Sampling never touches the in-flight calls. -/
@[simp] theorem maybeCaptureStack_cudaCalls (env : EntryEnv) (flags : UInt32) :
    (maybeCaptureStack cfg maps env flags).1.cudaCalls = maps.cudaCalls := by
  rw [maybeCaptureStack]
  split
  · rfl
  · split <;> rfl

/-- The sampler yields a stack or `-1`. -/
theorem maybeCaptureStack_snd_cases (env : EntryEnv) (flags : UInt32) :
    (maybeCaptureStack cfg maps env flags).2.getD (-1) = -1 ∨
      (maybeCaptureStack cfg maps env flags).2.getD (-1) = env.stackid := by
  rw [maybeCaptureStack]
  split
  · exact .inl rfl
  · split
    · exact .inl rfl
    · exact .inr rfl

/-- A filtered process leaves no trace. -/
theorem recordEntry_of_filtered {env : EntryEnv} (h : ¬ cfg.Passes env.pidTgid)
    (opType flags : UInt32) (size ptr streamId : UInt64) :
    recordEntry cfg maps env opType flags size ptr streamId = (maps, 1) := by
  rw [recordEntry, if_pos (not_or.mp h)]

/-- A traced process samples and stores. -/
theorem recordEntry_of_passes {env : EntryEnv} (h : cfg.Passes env.pidTgid)
    (opType flags : UInt32) (size ptr streamId : UInt64) :
    recordEntry cfg maps env opType flags size ptr streamId =
      ((maybeCaptureStack cfg maps env flags).1.setCall env.pidTgid
        (callInfo env opType flags size ptr streamId
          ((maybeCaptureStack cfg maps env flags).2.getD (-1))), 0) := by
  rw [recordEntry, if_neg fun hf => (not_or.mpr hf) h]

/-- The return value of the common entry path tells whether the process passed. -/
theorem recordEntry_snd_eq_zero_iff {env : EntryEnv} {opType flags : UInt32}
    {size ptr streamId : UInt64} :
    (recordEntry cfg maps env opType flags size ptr streamId).2 = 0 ↔
      cfg.Passes env.pidTgid := by
  by_cases h : cfg.Passes env.pidTgid
  · rw [recordEntry_of_passes h]
    exact iff_of_true rfl h
  · rw [recordEntry_of_filtered h]
    exact iff_of_false (by simp) h

/-- So does that of every entry program. -/
theorem entryProbe_snd_eq_zero_iff {env : EntryEnv} {ctx : PtRegs} {op : CudaOp} :
    (entryProbe cfg maps env ctx op).2 = 0 ↔ cfg.Passes env.pidTgid := by
  obtain ⟨size, ptr, streamId, heq⟩ := entryProbe_eq cfg ctx op
  rw [heq, recordEntry_snd_eq_zero_iff]

/-- Storing a call concerns the slot of its own thread only. -/
theorem lookup_setCall_ne {pidTgid k : UInt64} (info : CudaCallInfo) (h : k ≠ pidTgid) :
    (maps.setCall pidTgid info).cudaCalls.lookup k = maps.cudaCalls.lookup k := by
  rw [CudaMaps.setCall]
  cases hu : maps.cudaCalls.update pidTgid info with
  | none => rfl
  | some m => exact BoundedMap.lookup_update_ne hu h

/-- After an attempt to store a call, the slot of the thread holds that call or, if it was
empty and the map full, nothing. A stale entry never survives. -/
theorem lookup_setCall (maps : CudaMaps) (pidTgid : UInt64) (info : CudaCallInfo) :
    (maps.setCall pidTgid info).cudaCalls.lookup pidTgid = some info ∨
      (maps.setCall pidTgid info).cudaCalls.lookup pidTgid = none := by
  rw [CudaMaps.setCall]
  cases hu : maps.cudaCalls.update pidTgid info with
  | none =>
      right
      exact BoundedMap.lookup_eq_none.mpr (BoundedMap.update_eq_none_iff.mp hu).1
  | some m => exact Or.inl (BoundedMap.lookup_update hu)

/-- A store that is not refused fills the slot. -/
theorem lookup_setCall_of_isSome {pidTgid : UInt64} {info : CudaCallInfo}
    (h : (maps.cudaCalls.update pidTgid info).isSome) :
    (maps.setCall pidTgid info).cudaCalls.lookup pidTgid = some info := by
  obtain ⟨m, hm⟩ := Option.isSome_iff_exists.mp h
  rw [CudaMaps.setCall, hm]
  exact BoundedMap.lookup_update hm

/-- Storing a call adds at most the key of its thread. -/
theorem keys_setCall_subset (pidTgid : UInt64) (info : CudaCallInfo) :
    (maps.setCall pidTgid info).cudaCalls.keys ⊆ pidTgid :: maps.cudaCalls.keys := by
  rw [CudaMaps.setCall]
  cases hu : maps.cudaCalls.update pidTgid info with
  | none => exact List.subset_cons_self _ _
  | some m => exact BoundedMap.keys_update_subset hu

/-- The slot of the thread is emptied. -/
@[simp] theorem lookup_deleteCall (pidTgid : UInt64) :
    (maps.deleteCall pidTgid).cudaCalls.lookup pidTgid = none :=
  BoundedMap.lookup_delete _ _

/-- The slots of other threads stay. -/
theorem lookup_deleteCall_ne {pidTgid k : UInt64} (h : k ≠ pidTgid) :
    (maps.deleteCall pidTgid).cudaCalls.lookup k = maps.cudaCalls.lookup k :=
  BoundedMap.lookup_delete_ne _ h

/-- What a firing of the return path does to the map: it deletes the slot of its thread,
or there was none. -/
theorem submitEvent_fst (maps : CudaMaps) (env : ReturnEnv) (ctx : PtRegs) (opType : UInt32) :
    (submitEvent maps env ctx opType).1 = maps.deleteCall env.pidTgid ∨
      (submitEvent maps env ctx opType).1 = maps ∧
        maps.cudaCalls.lookup env.pidTgid = none := by
  rw [submitEvent]
  cases hl : maps.cudaCalls.lookup env.pidTgid with
  | none => exact Or.inr ⟨rfl, rfl⟩
  | some info =>
      left
      dsimp only
      split
      · rfl
      · split <;> rfl

/-- **A return empties the slot**, on each of the four paths. -/
theorem lookup_submitEvent (env : ReturnEnv) (ctx : PtRegs) (opType : UInt32) :
    (submitEvent maps env ctx opType).1.cudaCalls.lookup env.pidTgid = none := by
  rcases submitEvent_fst maps env ctx opType with h | ⟨h, hnone⟩
  · rw [h, lookup_deleteCall]
  · rw [h, hnone]

/-- A return does not touch the slots of other threads. -/
theorem lookup_submitEvent_ne {env : ReturnEnv} (ctx : PtRegs) (opType : UInt32)
    {k : UInt64} (hk : k ≠ env.pidTgid) :
    (submitEvent maps env ctx opType).1.cudaCalls.lookup k = maps.cudaCalls.lookup k := by
  rcases submitEvent_fst maps env ctx opType with h | ⟨h, -⟩
  · rw [h, lookup_deleteCall_ne hk]
  · rw [h]

/-- A return adds no key. -/
theorem keys_submitEvent_subset (env : ReturnEnv) (ctx : PtRegs) (opType : UInt32) :
    (submitEvent maps env ctx opType).1.cudaCalls.keys ⊆ maps.cudaCalls.keys := by
  rcases submitEvent_fst maps env ctx opType with h | ⟨h, -⟩
  · rw [h]
    exact BoundedMap.keys_delete_subset _ _
  · rw [h]
    exact List.Subset.refl _

/-- **When an event is submitted**: the slot of the returning thread holds an entry of the
same operation and the ring has room. The event is filled from that entry. -/
theorem submitEvent_eq_some_iff {env : ReturnEnv} {ctx : PtRegs} {opType : UInt32}
    {e : CudaEvent} :
    (submitEvent maps env ctx opType).2 = some e ↔
      ∃ info, maps.cudaCalls.lookup env.pidTgid = some info ∧ info.opType = opType ∧
        env.reserve = true ∧ e = eventOf info env ctx opType := by
  rw [submitEvent]
  cases hl : maps.cudaCalls.lookup env.pidTgid with
  | none => simp
  | some info =>
      by_cases hop : info.opType = opType
      · by_cases hr : env.reserve = true
        · simp [hop, hr, eq_comm]
        · simp [hop, hr]
      · simp [hop]

/-- Either way of the filter, an entry firing leaves the slots of other threads alone. -/
theorem lookup_recordEntry_ne {env : EntryEnv} (opType flags : UInt32)
    (size ptr streamId : UInt64) {k : UInt64} (hk : k ≠ env.pidTgid) :
    (recordEntry cfg maps env opType flags size ptr streamId).1.cudaCalls.lookup k =
      maps.cudaCalls.lookup k := by
  by_cases h : cfg.Passes env.pidTgid
  · rw [recordEntry_of_passes h, lookup_setCall_ne _ hk, maybeCaptureStack_cudaCalls]
  · rw [recordEntry_of_filtered h]

end Lemmas

end UnifiedTrace
