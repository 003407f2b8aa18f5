import UnifiedTrace.CallRun
import UnifiedTrace.EventRecords

/-!
# What a CUDA Event Can Contain

The argument words that the entry programs record, told by operation: `entryProbe_eq_args` says
that the fourteen programs are one program with these words. From this every event of every run
has a shape. It names one of the fourteen functions, its flags are the class of that function
and whether a stack was taken, and a word that the function does not have is zero.

## Main results

* `EntryShaped.of_run`: every slot of `cuda_calls` and every submitted event has the shape.
* `flags_of_shape`: what the two flags of a record of a shape say.
* `cuda_records_consistent`: the records in the trace file of a run have the members that belong
  to their function.
-/

namespace UnifiedTrace

/-! ### What an entry saves -/

/-- What the entry of a call saves when it takes no stack. -/
def EnterAct.info (a : EnterAct) : CudaCallInfo :=
  callInfo a.env a.op.code a.op.entryFlags (a.ctx.word a.op.sizeArg) (a.ctx.word a.op.ptrArg)
    (a.ctx.word a.op.streamArg) (-1)

/-- A saved call with another stack. -/
def CudaCallInfo.withStack (info : CudaCallInfo) (sid : Int32) : CudaCallInfo :=
  { info with
    stackId := sid
    flags := if 0 ≤ sid then info.flags ||| cudaEvFlagStackSampled else info.flags }

/-- What an entry firing of a traced process does: it tries to store the call with the stack
that was taken, or with `-1`. -/
theorem fireEntry_of_traced {cfg : CudaTracerCfg} (maps : CudaMaps) {a : EnterAct}
    (hf : a.fires = true) (hp : cfg.Passes a.env.pidTgid) :
    ∃ (sid : Int32) (maps' : CudaMaps), (cfg.captureStacks = 0 → sid = -1) ∧
      maps'.cudaCalls = maps.cudaCalls ∧
      CallWorld.fireEntry cfg maps a =
        (maps'.setCall a.env.pidTgid (a.info.withStack sid), 0) := by
  rw [CallWorld.fireEntry, if_pos hf, entryProbe_eq_args, recordEntry_of_passes hp]
  refine ⟨_, _, ?_, maybeCaptureStack_cudaCalls _ _, rfl⟩
  intro hc
  rw [maybeCaptureStack, if_pos hc]
  rfl

/-- What an entry saved, if anything. -/
theorem eq_withStack_of_savedBy {cfg : CudaTracerCfg} {maps : CudaMaps} {a : EnterAct}
    {info : CudaCallInfo} (h : CallWorld.savedBy cfg maps a = some info) :
    ∃ sid : Int32, (cfg.captureStacks = 0 → sid = -1) ∧ info = a.info.withStack sid := by
  obtain ⟨⟨hf, hp⟩, -⟩ := CallWorld.of_savedBy_eq_some h
  obtain ⟨sid, maps', hsid, -, hfire⟩ := fireEntry_of_traced maps hf hp
  refine ⟨sid, hsid, ?_⟩
  rw [CallWorld.savedBy, hfire, if_pos rfl] at h
  rcases lookup_setCall maps' a.env.pidTgid (a.info.withStack sid) with hl | hl
  · exact (Option.some.inj (hl.symm.trans h)).symm
  · exact absurd (hl.symm.trans h) (by simp)

/-! ### The shape -/

/-- The words of a record fit a function: its code, its class and whether there is a stack in the
flags, and zero for the words that the function does not have. -/
structure ShapedAs (op : CudaOp) (opType : UInt32) (size ptr streamId : UInt64)
    (stackId : Int32) (flags : UInt32) : Prop where
  opType : opType = op.code
  flags : flags = if 0 ≤ stackId then op.entryFlags ||| cudaEvFlagStackSampled else op.entryFlags
  size : op.sizeArg = none → size = 0
  ptr : op.ptrArg = none → ptr = 0
  streamId : op.streamArg = none → streamId = 0

/-- The event has the shape of a function, and a stack only if stacks are captured. -/
structure CudaEvent.Shaped (cfg : CudaTracerCfg) (e : CudaEvent) (op : CudaOp) : Prop where
  words : ShapedAs op e.opType e.size e.ptr e.streamId e.stackId e.flags
  stack : cfg.captureStacks = 0 → e.stackId = -1

/-- So does a saved call. -/
structure CudaCallInfo.Shaped (cfg : CudaTracerCfg) (info : CudaCallInfo) (op : CudaOp) :
    Prop where
  words : ShapedAs op info.opType info.size info.ptr info.streamId info.stackId info.flags
  stack : cfg.captureStacks = 0 → info.stackId = -1

/-- An operation that does not read an argument leaves it zero. -/
theorem word_of_eq_none {ctx : PtRegs} {arg : Option (PtRegs → UInt64)} (h : arg = none) :
    ctx.word arg = 0 := by
  rw [h]
  rfl

/-- The entry of a call has the shape of its operation. -/
theorem shaped_withStack {cfg : CudaTracerCfg} (a : EnterAct) {sid : Int32}
    (h : cfg.captureStacks = 0 → sid = -1) : (a.info.withStack sid).Shaped cfg a.op where
  words := ⟨rfl, rfl, word_of_eq_none, word_of_eq_none, word_of_eq_none⟩
  stack := h

/-- An event made from a shaped entry has its shape. -/
theorem CudaCallInfo.Shaped.eventOf {cfg : CudaTracerCfg} {info : CudaCallInfo} {op : CudaOp}
    (h : info.Shaped cfg op) (env : ReturnEnv) (ctx : PtRegs) :
    (eventOf info env ctx info.opType).Shaped cfg op :=
  ⟨h.words, h.stack⟩

namespace CallWorld

/-- Every slot and every event has a shape, and only traced processes have them. -/
structure EntryShaped (cfg : CudaTracerCfg) (w : CallWorld) : Prop where
  slot : ∀ k info, w.maps.cudaCalls.lookup k = some info →
    cfg.Passes k ∧ ∃ op, info.Shaped cfg op
  event : ∀ r ∈ w.returned, ∀ e, r.event = some e → cfg.Passes r.key ∧ ∃ op, e.Shaped cfg op

variable {cfg : CudaTracerCfg} {w w' : CallWorld}

/-- The map starts empty. -/
theorem EntryShaped.init : EntryShaped cfg init where
  slot := by intro k info h; exact absurd h (by simp [CallWorld.init, CudaMaps.init])
  event := by intro r hr; exact absurd hr (by simp [CallWorld.init])

/-- An entry fills its slot with a shaped call, and a return makes its event from a slot. -/
theorem EntryShaped.of_step {act : CallAct} (hw : EntryShaped cfg w)
    (h : step cfg w act = some w') : EntryShaped cfg w' := by
  cases act with
  | spawn k =>
      obtain ⟨-, rfl⟩ := step_spawn_eq_some h
      exact ⟨hw.slot, hw.event⟩
  | exit k =>
      obtain rfl := step_exit_eq_some h
      exact ⟨hw.slot, hw.event⟩
  | enter a =>
      obtain ⟨cs, -, -, -, rfl⟩ := step_enter_eq_some h
      refine ⟨fun k info hinfo => ?_, hw.event⟩
      rcases lookup_entered_cases hinfo with ⟨rfl, hsaved⟩ | ⟨hold, -⟩
      · obtain ⟨sid, hsid, rfl⟩ := eq_withStack_of_savedBy hsaved
        exact ⟨(of_savedBy_eq_some hsaved).1.2, a.op, shaped_withStack a hsid⟩
      · exact hw.slot k info hold
  | leave a =>
      obtain ⟨c, cs, -, -, -, -, rfl⟩ := step_leave_eq_some h
      refine ⟨fun k info hinfo => hw.slot k info (lookup_left_cases hinfo).1, ?_⟩
      intro r hr e he
      rcases List.mem_append.mp hr with hr | hr
      · exact hw.event r hr e he
      · obtain rfl := List.mem_singleton.mp hr
        obtain ⟨-, info, hinfo, hcode, -, rfl⟩ := fireReturn_eq_some_iff.mp he
        obtain ⟨hp, op, hop⟩ := hw.slot _ info hinfo
        exact ⟨hp, op, hcode ▸ hop.eventOf a.env a.ctx⟩

/-- **Every run keeps the shape.** -/
theorem EntryShaped.of_run {acts : List CallAct} (h : runs cfg acts = some w) :
    EntryShaped cfg w :=
  ActionRun.run_invariant EntryShaped.init (fun _ _ _ _ hu hstep => hu.of_step hstep) h

/-- An event of the ring is that of a returned call. -/
theorem mem_cudaEvents_iff {e : CudaEvent} :
    e ∈ w.cudaEvents ↔ ∃ r ∈ w.returned, r.event = some e :=
  List.mem_filterMap

end CallWorld

/-! ### The flags -/

/-- The functions of the asynchronous class. -/
def CudaOp.IsAsyncOp (op : CudaOp) : Prop :=
  op = .memcpyAsync ∨ op = .eventRecord ∨ op = .launchKernelEx ∨ op = .graphLaunch

/-- The asynchronous flag is set by the asynchronous operations. -/
theorem entryFlags_eq (op : CudaOp) :
    op.IsAsyncOp ∧ op.entryFlags = cudaEvFlagAsync ∨ ¬ op.IsAsyncOp ∧ op.entryFlags = 0 := by
  cases op <;> simp [CudaOp.IsAsyncOp, CudaOp.entryFlags]

/-- **The flags of a shaped record**: the first bit is the class, the second says whether there
is a stack, and there are no others. -/
theorem flags_of_shape {op : CudaOp} {opType flags : UInt32} {size ptr streamId : UInt64}
    {stackId : Int32} (h : ShapedAs op opType size ptr streamId stackId flags) :
    (flags &&& cudaEvFlagAsync ≠ 0 ↔ op.IsAsyncOp) ∧
      (flags &&& cudaEvFlagStackSampled ≠ 0 ↔ 0 ≤ stackId) ∧
      flags &&& ~~~(cudaEvFlagAsync ||| cudaEvFlagStackSampled) = 0 := by
  rw [h.flags]
  rcases entryFlags_eq op with ⟨hop, hflags⟩ | ⟨hop, hflags⟩
  · rw [hflags]
    split
    · exact ⟨iff_of_true (by decide) hop, iff_of_true (by decide) ‹_›, by decide⟩
    · exact ⟨iff_of_true (by decide) hop, iff_of_false (by decide) ‹_›, by decide⟩
  · rw [hflags]
    split
    · exact ⟨iff_of_false (by decide) hop, iff_of_true (by decide) ‹_›, by decide⟩
    · exact ⟨iff_of_false (by decide) hop, iff_of_false (by decide) ‹_›, by decide⟩

/-! ### The records of the file -/

/-- A CUDA record of the file is that of a CUDA event of the list. -/
theorem exists_gpu_of_complete_mem {env : StackEnv} {events : List UnifiedEvent}
    {r : CompleteRecord} (h : .complete r ∈ fileRecords (traceFile env events)) :
    ∃ gpu i, UnifiedEvent.gpu gpu ∈ events ∧
      r = completeRecord env (minTimestamp events) i gpu := by
  have hown : Record.complete r ∈
      (fileRecords (traceFile env events)).filter fun r => !r.IsName :=
    List.mem_filter.mpr ⟨h, rfl⟩
  rw [filter_fileRecords_traceFile] at hown
  obtain ⟨⟨e, r'⟩, hmem, rfl⟩ := List.mem_map.mp hown
  obtain ⟨pre, post, rfl, hrec⟩ := (mem_eventRecords_iff ..).mp hmem
  cases e with
  | cpu cpu =>
      obtain ⟨-, h⟩ | ⟨-, h⟩ | ⟨-, h⟩ := of_cpuRecord?_eq_some hrec
      · exact absurd h (by simp)
      · exact absurd h (by simp)
      · exact absurd h (by simp)
  | gpu gpu =>
      exact ⟨gpu, _, by simp, (Record.complete.inj (Option.some.inj hrec)).symm⟩

/-- The functions whose records show a size are those that have one. -/
theorem sizeBearing_iff (op : CudaOp) :
    (op.code = CudaOp.malloc.code ∨ op.code = CudaOp.memcpy.code ∨
      op.code = CudaOp.memcpyAsync.code) ↔ op.sizeArg.isSome := by
  simp only [CudaOp.code_injective.eq_iff]
  cases op <;> simp [CudaOp.sizeArg]

/-- The record of an event of a shape has the members that belong to its function. -/
theorem completeRecord_of_shaped {cfg : CudaTracerCfg} {gpu : CudaEvent} {op : CudaOp}
    (h : gpu.Shaped cfg op) (env : StackEnv) (m : UInt64) (i : ℕ) :
    (completeRecord env m i gpu).name = cudaOpName op.code ∧
      (completeRecord env m i gpu).cat = cudaOpCategory op.code ∧
      ((completeRecord env m i gpu).async = true ↔ op.IsAsyncOp) ∧
      ((completeRecord env m i gpu).size.isSome ↔ op.sizeArg.isSome) ∧
      ((completeRecord env m i gpu).ptr.isSome → op = .free) ∧
      ((completeRecord env m i gpu).streamId.isSome → op.streamArg.isSome) ∧
      ((completeRecord env m i gpu).stack.isSome ↔
        gpu.flags &&& cudaEvFlagStackSampled ≠ 0) ∧
      ((completeRecord env m i gpu).stack.isSome → cfg.captureStacks ≠ 0) := by
  obtain ⟨hasync, hsampled, -⟩ := flags_of_shape h.words
  have hcode := h.words.opType
  have hstack : (completeRecord env m i gpu).stack.isSome ↔ 0 ≤ gpu.stackId :=
    Option.isSome_ite
  have hptr : (completeRecord env m i gpu).ptr.isSome ↔
      gpu.opType = CudaOp.free.code ∧ gpu.ptr ≠ 0 := Option.isSome_ite
  have hstream : (completeRecord env m i gpu).streamId.isSome ↔ gpu.streamId ≠ 0 :=
    Option.isSome_ite
  have hsize : (completeRecord env m i gpu).size.isSome ↔
      gpu.opType = CudaOp.malloc.code ∨ gpu.opType = CudaOp.memcpy.code ∨
        gpu.opType = CudaOp.memcpyAsync.code := Option.isSome_ite
  rw [hcode] at hptr hsize
  refine ⟨by rw [completeRecord, hcode], by rw [completeRecord, hcode],
    decide_eq_true_iff.trans hasync, hsize.trans (sizeBearing_iff op), ?_, ?_,
    hstack.trans hsampled.symm, ?_⟩
  · exact fun hsome => CudaOp.code_injective (hptr.mp hsome).1
  · intro hsome
    rw [Option.isSome_iff_ne_none]
    exact fun hnone => hstream.mp hsome (h.words.streamId hnone)
  · intro hsome hoff
    rw [hstack, h.stack hoff] at hsome
    exact absurd hsome (by decide)

/-- **The CUDA records of a trace are consistent.** In the file of every run, with the events in
any order and any CPU events among them, each CUDA record names one of the fourteen functions
and has the category and the members of that function: `async` exactly for the asynchronous
ones, a size exactly for those that have one, a pointer only for `cudaFree`, a stream only for
those that take one, and a stack only if stacks are captured. -/
theorem cuda_records_consistent {cfg : CudaTracerCfg} {acts : List CallAct} {w : CallWorld}
    (hrun : CallWorld.runs cfg acts = some w) (env : StackEnv) {events : List UnifiedEvent}
    (hevents : ∀ e, .gpu e ∈ events → e ∈ w.cudaEvents) :
    ∀ r, .complete r ∈ fileRecords (traceFile env events) →
      ∃ op : CudaOp, r.name = cudaOpName op.code ∧ r.cat = cudaOpCategory op.code ∧
        (r.async = true ↔ op.IsAsyncOp) ∧ (r.size.isSome ↔ op.sizeArg.isSome) ∧
        (r.ptr.isSome → op = .free) ∧ (r.streamId.isSome → op.streamArg.isSome) ∧
        (r.stack.isSome → cfg.captureStacks ≠ 0) := by
  intro r hr
  obtain ⟨gpu, i, hgpu, rfl⟩ := exists_gpu_of_complete_mem hr
  obtain ⟨returned, hreturned, hevent⟩ := CallWorld.mem_cudaEvents_iff.mp (hevents gpu hgpu)
  obtain ⟨-, op, hop⟩ := (CallWorld.EntryShaped.of_run hrun).event returned hreturned gpu hevent
  obtain ⟨hname, hcat, hasync, hsize, hptr, hstream, -, hstack⟩ :=
    completeRecord_of_shaped hop env (minTimestamp events) i
  exact ⟨op, hname, hcat, hasync, hsize, hptr, hstream, hstack⟩

/-- An allocation followed by an asynchronous copy. -/
def allocThenCopyRun : List CallAct :=
  [.spawn 1, .enterAt 1 10 1 .malloc true, .leaveAt 1 12 1 .malloc true,
    .enterAt 1 13 2 .memcpyAsync true, .leaveAt 1 15 2 .memcpyAsync true]

/-- Both records say what their operation is and carry the arguments it has. -/
theorem cuda_records_consistent_alloc_then_copy :
    ∃ w, CallWorld.runs CudaTracerCfg.default allocThenCopyRun = some w ∧
      w.cudaEvents.map CudaEvent.opType = [1, 6] ∧
      ∀ r, .complete r ∈ fileRecords (traceFile .noStacks (w.cudaEvents.map .gpu)) →
        ∃ op : CudaOp, r.name = cudaOpName op.code ∧ r.cat = cudaOpCategory op.code ∧
          (r.async = true ↔ op.IsAsyncOp) ∧ (r.size.isSome ↔ op.sizeArg.isSome) ∧
          (r.ptr.isSome → op = .free) ∧ (r.streamId.isSome → op.streamArg.isSome) ∧
          (r.stack.isSome → CudaTracerCfg.default.captureStacks ≠ 0) := by
  have hmap : (CallWorld.runs CudaTracerCfg.default allocThenCopyRun).map
      (fun w => w.cudaEvents.map CudaEvent.opType) = some [1, 6] := by decide +kernel
  obtain ⟨w, hrun, hops⟩ := Option.map_eq_some_iff.mp hmap
  refine ⟨w, hrun, hops, cuda_records_consistent hrun _ ?_⟩
  intro e he
  obtain ⟨e', he', heq⟩ := List.mem_map.mp he
  exact UnifiedEvent.gpu.inj heq ▸ he'

end UnifiedTrace
