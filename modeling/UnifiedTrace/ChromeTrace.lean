import Mathlib.Logic.Function.Basic
import UnifiedTrace.Collect
import UnifiedTrace.StackJson

/-!
# The Chrome Trace Writer

`output_chrome_tracing_json` of `src/user/unified_trace.c`. The file is a list of pieces:
literal text, and records, each with the text its `fprintf` calls print. The loop keeps the
start time of the open On-CPU span of each thread id in `cpu_on_time`, an array of ten
million entries; higher ids are not tracked.

Timestamps and durations are kept in nanoseconds and printed as microseconds with three
digits, after a division in `double`. What the program prints to its own terminal is left out.
-/

namespace UnifiedTrace

open Binary64 Printf

/-! ### Records -/

/-- The fields of a CUDA record. -/
structure CompleteRecord where
  name : Bytes
  cat : Bytes
  ts : UInt64
  dur : UInt64
  pid : UInt32
  tid : UInt32
  ret : Int32
  comm : Comm
  streamId : Option UInt64
  async : Bool
  size : Option UInt64
  ptr : Option UInt64
  stack : Option (List StackFrame)

/-- A record of the trace, with its times in nanoseconds. -/
inductive Record
  /-- The name of a CPU row. -/
  | cpuThreadName (pid tid : UInt32) (comm : Comm)
  /-- The name of a GPU row. -/
  | gpuThreadName (pid tid : UInt32)
  /-- The begin of an On-CPU span, `B`. -/
  | begin (ts : UInt64) (pid tid cpu : UInt32) (comm : Comm) (stack : Option (List StackFrame))
  /-- The end of an On-CPU span, `E`. -/
  | finish (ts : UInt64) (pid tid : UInt32) (duration state : UInt64)
  /-- A wakeup, `i`. -/
  | instant (ts : UInt64) (pid tid : UInt32)
  /-- A CUDA call, `X`. -/
  | complete (r : CompleteRecord)

/-- `%.3f` of nanoseconds, divided by `1000.0`. -/
def micros (ns : UInt64) : Bytes := fixed 3 (.ofNat ns.toNat / .ofNat 1000)

/-- `%u` and `%llu`. -/
def u32 (n : UInt32) : Bytes := decimal n.toNat

def u64 (n : UInt64) : Bytes := decimal n.toNat

/-- `, "stack": ` and the stack, where there is one. -/
def stackArg : Option (List StackFrame) → Bytes
  | none => []
  | some frames => ascii ", \"stack\": " ++ stackText frames

/-- `, "size_bytes": ` and the two renderings of a size. -/
def sizeArgs (size : UInt64) : Bytes :=
  ascii ", \"size_bytes\": " ++ u64 size ++
    if size ≥ 1024 * 1024 * 1024 then
      ascii ", \"size\": \"" ++
        fixed 2 (.ofNat size.toNat / (.ofNat 1024 * .ofNat 1024 * .ofNat 1024)) ++ ascii " GB\""
    else if size ≥ 1024 * 1024 then
      ascii ", \"size\": \"" ++
        fixed 2 (.ofNat size.toNat / (.ofNat 1024 * .ofNat 1024)) ++ ascii " MB\""
    else if size ≥ 1024 then
      ascii ", \"size\": \"" ++ fixed 2 (.ofNat size.toNat / .ofNat 1024) ++ ascii " KB\""
    else
      ascii ", \"size\": \"" ++ u64 size ++ ascii " B\""

/-- The text of a CUDA record. -/
def CompleteRecord.text (r : CompleteRecord) : Bytes :=
  List.flatten [ascii "    \x7b\"name\": \"", r.name, ascii "\", \"cat\": \"", r.cat,
    ascii "\", \"ph\": \"X\", \"ts\": ", micros r.ts, ascii ", \"dur\": ", micros r.dur,
    ascii ", \"pid\": ", u32 r.pid, ascii ", \"tid\": ", u32 r.tid,
    ascii ", \"args\": \x7b\"ret\": ", signed r.ret.toInt, ascii ", \"comm\": \"", r.comm.bytes,
    ascii "\"",
    r.streamId.elim [] (fun s => ascii ", \"stream_id\": \"0x" ++ hex s.toNat ++ ascii "\""),
    if r.async then ascii ", \"async\": true" else [],
    r.size.elim [] sizeArgs,
    r.ptr.elim [] (fun p => ascii ", \"ptr\": \"0x" ++ hex p.toNat ++ ascii "\""),
    stackArg r.stack, ascii "\x7d\x7d"]

/-- The text of a record. -/
def Record.text : Record → Bytes
  | cpuThreadName pid tid comm =>
      ascii "    \x7b\"name\": \"thread_name\", \"ph\": \"M\", \"pid\": " ++ u32 pid ++
        ascii ", \"tid\": " ++ u32 tid ++ ascii ", \"args\": \x7b\"name\": \"CPU [" ++
        comm.bytes ++ ascii "]\"\x7d\x7d"
  | gpuThreadName pid tid =>
      ascii "    \x7b\"name\": \"thread_name\", \"ph\": \"M\", \"pid\": " ++ u32 pid ++
        ascii ", \"tid\": " ++ u32 tid ++
        ascii ", \"args\": \x7b\"name\": \"GPU (CUDA)\"\x7d\x7d"
  | begin ts pid tid cpu comm stack =>
      ascii "    \x7b\"name\": \"On-CPU\", \"cat\": \"cpu\", \"ph\": \"B\", \"ts\": " ++
        micros ts ++ ascii ", \"pid\": " ++ u32 pid ++ ascii ", \"tid\": " ++ u32 tid ++
        ascii ", \"args\": \x7b\"cpu\": " ++ u32 cpu ++ ascii ", \"comm\": \"" ++ comm.bytes ++
        ascii "\"" ++ stackArg stack ++ ascii "\x7d\x7d"
  | finish ts pid tid duration state =>
      ascii "    \x7b\"name\": \"On-CPU\", \"cat\": \"cpu\", \"ph\": \"E\", \"ts\": " ++
        micros ts ++ ascii ", \"pid\": " ++ u32 pid ++ ascii ", \"tid\": " ++ u32 tid ++
        ascii ", \"args\": \x7b\"duration_us\": " ++ micros duration ++
        ascii ", \"state\": " ++ u64 state ++ ascii "\x7d\x7d"
  | instant ts pid tid =>
      ascii "    \x7b\"name\": \"Wakeup\", \"cat\": \"cpu\", \"ph\": \"i\", \"ts\": " ++
        micros ts ++ ascii ", \"pid\": " ++ u32 pid ++ ascii ", \"tid\": " ++ u32 tid ++
        ascii ", \"s\": \"t\"\x7d"
  | complete r => r.text

/-- What is written to the file. -/
inductive Piece
  | lit (text : Bytes)
  | record (r : Record)

/-- The bytes of a piece. -/
def Piece.text : Piece → Bytes
  | lit text => text
  | record r => r.text

/-- The record of a piece. -/
def Piece.record? : Piece → Option Record
  | lit _ => none
  | record r => some r

/-- The contents of a file. -/
def fileText (file : List Piece) : Bytes := file.flatMap Piece.text

/-- The records of a file, in file order. -/
def fileRecords (file : List Piece) : List Record := file.filterMap Piece.record?

/-- The records of a file, part after part. -/
@[simp] theorem fileRecords_append (file file' : List Piece) :
    fileRecords (file ++ file') = fileRecords file ++ fileRecords file' :=
  List.filterMap_append

/-! ### The loop -/

/-- The length of `cpu_on_time`. -/
def cpuOnTimeLen : UInt32 := 10000000

/-- The local variables of the loop. `seen_pid` and `seen_tid` are only used where they are
set. -/
structure EmitState where
  cpuOnTime : UInt32 → UInt64
  outputCount : ℕ
  threadNameWritten : Bool

/-- The state before the loop. -/
def EmitState.init : EmitState := ⟨fun _ => 0, 0, false⟩

/-- The separator written before a record. -/
def EmitState.separator (st : EmitState) : List Piece :=
  if st.outputCount > 0 then [.lit (ascii ",\n")] else []

/-- `output_count++`. -/
def EmitState.count (st : EmitState) : EmitState :=
  { st with outputCount := st.outputCount + 1 }

/-- `cpu_on_time[tid] = time`. -/
def EmitState.setOnTime (st : EmitState) (tid : UInt32) (time : UInt64) : EmitState :=
  { st with cpuOnTime := Function.update st.cpuOnTime tid time }

@[simp] theorem EmitState.cpuOnTime_count (st : EmitState) :
    st.count.cpuOnTime = st.cpuOnTime := rfl

/-- The time that was set. -/
@[simp] theorem EmitState.cpuOnTime_setOnTime_self (st : EmitState) (tid : UInt32)
    (time : UInt64) : (st.setOnTime tid time).cpuOnTime tid = time :=
  Function.update_self ..

/-- The times of other threads stay. -/
theorem EmitState.cpuOnTime_setOnTime_ne (st : EmitState) {tid tid' : UInt32}
    (time : UInt64) (h : tid' ≠ tid) :
    (st.setOnTime tid time).cpuOnTime tid' = st.cpuOnTime tid' :=
  Function.update_of_ne h ..

/-- The two `thread_name` records written at the first CPU event. -/
def emitThreadNames (st : EmitState) (cpu : CpuSchedEvent) : List Piece × EmitState :=
  (st.separator ++ [.record (.cpuThreadName cpu.pid cpu.tid cpu.comm), .lit (ascii ",\n"),
      .record (.gpuThreadName cpu.pid (cpu.tid + 1000000))],
    { st.count.count with threadNameWritten := true })

/-- The branch for CPU scheduling events. -/
def emitCpuEvent (env : StackEnv) (minTimestamp : UInt64) (i : ℕ) (st : EmitState)
    (cpu : CpuSchedEvent) : List Piece × EmitState :=
  let ts := cpu.timestamp - minTimestamp
  if cpu.eventType = cpuSchedOn then
    let started := if cpu.tid < cpuOnTimeLen then st.setOnTime cpu.tid cpu.timestamp else st
    let stack :=
      if cpu.stackId ≥ 0 then some (emitStackJson env i cpu.stackId cpu.pid) else none
    (started.separator ++ [.record (.begin ts cpu.pid cpu.tid cpu.cpu cpu.comm stack)],
      started.count)
  else if cpu.eventType = cpuSchedOff then
    if cpu.tid < cpuOnTimeLen ∧ st.cpuOnTime cpu.tid ≠ 0 then
      let dur := cpu.timestamp - st.cpuOnTime cpu.tid
      (st.separator ++ [.record (.finish ts cpu.pid cpu.tid dur cpu.prevState)],
        (st.setOnTime cpu.tid 0).count)
    else
      ([], st)
  else if cpu.eventType = cpuSchedWakeup then
    (st.separator ++ [.record (.instant ts cpu.pid cpu.tid)], st.count)
  else
    ([], st)

/-- `cuda_op_name`. -/
def cudaOpName (opType : UInt32) : Bytes :=
  if opType = CudaOp.malloc.code then ascii "cudaMalloc"
  else if opType = CudaOp.free.code then ascii "cudaFree"
  else if opType = CudaOp.memcpy.code then ascii "cudaMemcpy"
  else if opType = CudaOp.launchKernel.code then ascii "cudaLaunchKernel"
  else if opType = CudaOp.sync.code then ascii "cudaDeviceSynchronize"
  else if opType = CudaOp.memcpyAsync.code then ascii "cudaMemcpyAsync"
  else if opType = CudaOp.streamSync.code then ascii "cudaStreamSynchronize"
  else if opType = CudaOp.streamCreate.code then ascii "cudaStreamCreate"
  else if opType = CudaOp.streamDestroy.code then ascii "cudaStreamDestroy"
  else if opType = CudaOp.eventRecord.code then ascii "cudaEventRecord"
  else if opType = CudaOp.eventSync.code then ascii "cudaEventSynchronize"
  else if opType = CudaOp.eventQuery.code then ascii "cudaEventQuery"
  else if opType = CudaOp.launchKernelEx.code then ascii "cudaLaunchKernelExC"
  else if opType = CudaOp.graphLaunch.code then ascii "cudaGraphLaunch"
  else ascii "Unknown"

/-- `cuda_op_category`. -/
def cudaOpCategory (opType : UInt32) : Bytes :=
  if opType ∈ [CudaOp.sync.code, CudaOp.streamSync.code, CudaOp.eventSync.code] then
    ascii "gpu_sync"
  else if opType ∈ [CudaOp.memcpy.code, CudaOp.memcpyAsync.code] then
    ascii "gpu_xfer"
  else if opType ∈ [CudaOp.launchKernel.code, CudaOp.launchKernelEx.code,
      CudaOp.graphLaunch.code] then
    ascii "gpu_compute"
  else if opType ∈ [CudaOp.malloc.code, CudaOp.free.code] then
    ascii "gpu_mem"
  else
    ascii "gpu"

/-- The offset of a stream's row from the base row of its thread. -/
def streamOffset (streamId : UInt64) : UInt32 :=
  if streamId ≠ 0 then
    let offset := ((streamId ^^^ (streamId >>> 32)) &&& 0xFF).toUInt32
    if offset = 0 then 1 else offset
  else
    0

/-- The branch for CUDA events. -/
def emitGpuEvent (env : StackEnv) (minTimestamp : UInt64) (i : ℕ) (st : EmitState)
    (gpu : CudaEvent) : List Piece × EmitState :=
  let sizeBearing := gpu.opType = CudaOp.malloc.code ∨ gpu.opType = CudaOp.memcpy.code ∨
    gpu.opType = CudaOp.memcpyAsync.code
  let r : CompleteRecord :=
    { name := cudaOpName gpu.opType
      cat := cudaOpCategory gpu.opType
      ts := gpu.timestamp - minTimestamp
      dur := gpu.durationNs
      pid := gpu.pid
      tid := gpu.tid + 1000000 + streamOffset gpu.streamId
      ret := gpu.retVal
      comm := gpu.comm
      streamId := if gpu.streamId ≠ 0 then some gpu.streamId else none
      async := gpu.flags &&& cudaEvFlagAsync ≠ 0
      size := if sizeBearing then some gpu.size else none
      ptr := if gpu.opType = CudaOp.free.code ∧ gpu.ptr ≠ 0 then some gpu.ptr else none
      stack :=
        if gpu.stackId ≥ 0 then some (emitStackJson env i gpu.stackId gpu.pid) else none }
  (st.separator ++ [.record (.complete r)], st.count)

/-- One round of the loop. -/
def emitEvent (env : StackEnv) (minTimestamp : UInt64) (i : ℕ) (st : EmitState) :
    UnifiedEvent → List Piece × EmitState
  | .cpu cpu =>
      let names := if st.threadNameWritten then ([], st) else emitThreadNames st cpu
      let event := emitCpuEvent env minTimestamp i names.2 cpu
      (names.1 ++ event.1, event.2)
  | .gpu gpu => emitGpuEvent env minTimestamp i st gpu

/-- The rounds of the loop from index `i` on. -/
def emitEvents (env : StackEnv) (minTimestamp : UInt64) (i : ℕ) (st : EmitState) :
    List UnifiedEvent → List Piece × EmitState
  | [] => ([], st)
  | e :: events =>
      let first := emitEvent env minTimestamp i st e
      let rest := emitEvents env minTimestamp (i + 1) first.2 events
      (first.1 ++ rest.1, rest.2)

/-! ### The file -/

/-- The loop that finds `min_timestamp`. -/
def minTimestamp (events : List UnifiedEvent) : UInt64 :=
  events.foldl (fun m e => if e.timestamp < m then e.timestamp else m) 0xFFFFFFFFFFFFFFFF

/-- What comes before the records. -/
def fileHeader : List Piece := [.lit (ascii "\x7b\n"), .lit (ascii "  \"traceEvents\": [\n")]

/-- What comes after the records. -/
def fileTrailer (eventCount : ℕ) : List Piece :=
  [.lit (ascii "\n  ],\n"), .lit (ascii "  \"displayTimeUnit\": \"ms\",\n"),
    .lit (ascii "  \"metadata\": \x7b\n"),
    .lit (ascii "    \"event_count\": " ++ decimal eventCount ++ ascii ",\n"),
    .lit (ascii "    \"tool\": \"ebpf-unified-trace\"\n"), .lit (ascii "  \x7d\n"),
    .lit (ascii "\x7d\n")]

/-- The file of a run in which everything is available. -/
def traceFile (env : StackEnv) (events : List UnifiedEvent) : List Piece :=
  fileHeader ++ (emitEvents env (minTimestamp events) 0 .init events).1 ++
    fileTrailer events.length

/-- How `output_chrome_tracing_json` ends. -/
inductive Outcome
  /-- The file could not be opened. -/
  | notOpened
  /-- There was no memory for `cpu_on_time`: the file was closed with what it had. -/
  | abandoned (file : List Piece)
  /-- The success path. -/
  | written (file : List Piece)

/-- `output_chrome_tracing_json`, by whether the file opens and `cpu_on_time` can be
allocated. -/
def outputChromeTracingJson (fopen calloc : Bool) (env : StackEnv)
    (events : List UnifiedEvent) : Outcome :=
  if ¬ fopen then .notOpened
  else if ¬ calloc then .abandoned fileHeader
  else .written (traceFile env events)

/-- `min_timestamp` is a lower bound. -/
theorem minTimestamp_le {events : List UnifiedEvent} {e : UnifiedEvent} (he : e ∈ events) :
    minTimestamp events ≤ e.timestamp := by
  -- the loop only ever lowers its variable
  have hfold : ∀ (l : List UnifiedEvent) (m : UInt64),
      l.foldl (fun m e => if e.timestamp < m then e.timestamp else m) m ≤ m ∧
        ∀ x ∈ l, l.foldl (fun m e => if e.timestamp < m then e.timestamp else m) m ≤
          x.timestamp := by
    intro l
    induction l with
    | nil => exact fun m => ⟨UInt64.le_refl m, fun _ h => absurd h List.not_mem_nil⟩
    | cons a l ih =>
        intro m
        obtain ⟨hm, hl⟩ := ih (if a.timestamp < m then a.timestamp else m)
        have hstep : (if a.timestamp < m then a.timestamp else m) ≤ m ∧
            (if a.timestamp < m then a.timestamp else m) ≤ a.timestamp := by
          split
          · rename_i h
            exact ⟨UInt64.le_of_lt h, UInt64.le_refl _⟩
          · rename_i h
            exact ⟨UInt64.le_refl _, UInt64.not_lt.mp h⟩
        refine ⟨UInt64.le_trans hm hstep.1, List.forall_mem_cons.mpr ⟨?_, hl⟩⟩
        exact UInt64.le_trans hm hstep.2
  exact (hfold events _).2 e he

/-- The success path writes the whole file. -/
theorem traceFile_of_written {fopen calloc : Bool} {env : StackEnv}
    {events : List UnifiedEvent} {file : List Piece}
    (h : outputChromeTracingJson fopen calloc env events = .written file) :
    file = traceFile env events := by
  rw [outputChromeTracingJson] at h
  split at h
  · exact absurd h (by simp)
  · split at h
    · exact absurd h (by simp)
    · exact (Outcome.written.inj h).symm

end UnifiedTrace
