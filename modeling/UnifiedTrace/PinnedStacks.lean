import Mathlib.Data.List.Forall2
import UnifiedTrace.Collect
import UnifiedTrace.StackTable
import UnifiedTrace.TraceCpuSched
import UnifiedTrace.TraceCuda

/-!
# Stacks Left by Earlier Runs

`stack_traces` is pinned by name, so it outlives the tracer: the next run of the tracer starts
with the buckets as the last one left them, while its own maps are new. `StackWorld.runs` is
the sequence of probe firings of one run over a given map. Every result of `bpf_get_stackid`
that a program uses is that of `getStackid` on the map at that moment.

An `Attempt` records, for the theorems only, which capture a stack id is the result of.

## Main results

* `SameRun.of_runs`: the map concerns nothing but the stack ids and the flag that tells whether
  there is one.
* `unaffected_iff`: when a run gets the stacks that it would get with an empty map.
-/

/-- Pairwise statements about related lists that depend on the first list only. -/
theorem List.forall₂_iff_forall_mem {α β : Type*} {R S : α → β → Prop} {C : α → Prop}
    {l : List α} {l' : List β} (h : List.Forall₂ R l l')
    (hS : ∀ a ∈ l, ∀ b ∈ l', R a b → (S a b ↔ C a)) :
    List.Forall₂ S l l' ↔ ∀ a ∈ l, C a := by
  induction h with
  | nil => exact iff_of_true .nil (by simp)
  | @cons a b l l' hab htail ih =>
      have hrest := ih fun a' ha' b' hb' =>
        hS a' (List.mem_cons_of_mem a ha') b' (List.mem_cons_of_mem b hb')
      rw [List.forall₂_cons, List.forall_mem_cons, hrest,
        hS a List.mem_cons_self b List.mem_cons_self hab]

namespace UnifiedTrace

/-! ### Runs over a stack map -/

/-- A capture and those of its run before it. -/
structure Attempt where
  before : List Capture
  capture : Capture
  deriving DecidableEq

/-- An event with the capture that its stack id is the result of, if there was one. -/
structure StackedEvent where
  event : UnifiedEvent
  attempt : Option Attempt

/-- The stack id of the record. -/
def UnifiedEvent.stackId : UnifiedEvent → Int32
  | cpu e => e.stackId
  | gpu e => e.stackId

/-- A saved call without what depends on its stack. -/
def CudaCallInfo.withoutStack (info : CudaCallInfo) : CudaCallInfo :=
  { info with stackId := -1, flags := info.flags &&& cudaEvFlagAsync }

/-- A record without what depends on its stack. -/
def UnifiedEvent.withoutStack : UnifiedEvent → UnifiedEvent
  | cpu e => cpu { e with stackId := -1 }
  | gpu e => gpu { e with stackId := -1, flags := e.flags &&& cudaEvFlagAsync }

/-- The firing of a probe, with what the helpers return and the user stack of the current
thread. The `stackid` of the helpers is not used: it is the result of `getStackid`. -/
inductive ProbeAct
  | entry (env : EntryEnv) (ctx : PtRegs) (op : CudaOp) (walk : Option UserTrace)
  | ret (env : ReturnEnv) (ctx : PtRegs) (op : CudaOp)
  | switch (env : SwitchEnv) (ctx : SchedSwitchArgs) (walk : Option UserTrace)
  | wakeup (env : WakeupEnv) (ctx : SchedWakeupArgs)

/-- The maps in the middle of a run, and the events so far. -/
structure StackWorld where
  maps : CudaMaps
  stackTraces : StackMap
  /-- All captures so far. -/
  attempts : List Capture
  /-- The capture whose result the slot of a thread in `cuda_calls` holds. -/
  pending : UInt64 → Option Attempt
  events : List StackedEvent

/-- What `read_stack_addrs` returns for an event at this moment. -/
def StackWorld.addrsOf (w : StackWorld) (e : StackedEvent) : List UInt64 :=
  retrieve w.stackTraces e.event.stackId

/-- The two programs loaded over a stack map. -/
def StackWorld.load (stackTraces : StackMap) : StackWorld where
  maps := CudaMaps.init
  stackTraces
  attempts := []
  pending := fun _ => none
  events := []

section

variable (H : StackHash) (cfg : CudaTracerCfg) (targetPid : UInt32)

/-- The call to `bpf_get_stackid` that a firing makes: a traced entry that is sampled asks with
`BPF_F_FAST_STACK_CMP`, a switch-in that is reported without. -/
def ProbeAct.asks (maps : CudaMaps) : ProbeAct → Option Capture
  | entry env _ op walk =>
      if cfg.Passes env.pidTgid ∧ (maybeCaptureStack cfg maps env op.entryFlags).2.isSome then
        some ⟨true, walk⟩
      else none
  | ret _ _ _ => none
  | switch env ctx walk =>
      if SelectsOn targetPid ctx ∧ env.onReserve = true then some ⟨false, walk⟩ else none
  | wakeup _ _ => none

/-- The result of a call to `bpf_get_stackid`, and `-1` without one. -/
def stackidOf (m : StackMap) (asked : Option Capture) : Int32 :=
  (asked.map fun c => (getStackid H m c).2).getD (-1)

/-- The result of a capture of a run over `m`, and `-1` without one. -/
def resultOf (m : StackMap) (attempt : Option Attempt) : Int32 :=
  (attempt.map fun a => (getStackid H (fill H m a.before) a.capture).2).getD (-1)

/-- What a firing does. -/
def StackWorld.step (w : StackWorld) (act : ProbeAct) : StackWorld :=
  let asked := act.asks cfg targetPid w.maps
  let stackid := stackidOf H w.stackTraces asked
  let attempt := asked.map (Attempt.mk w.attempts)
  let w' := { w with
    stackTraces := fill H w.stackTraces asked.toList
    attempts := w.attempts ++ asked.toList }
  match act with
  | .entry env ctx op _ =>
      let fired := entryProbe cfg w.maps { env with stackid } ctx op
      { w' with
        maps := fired.1
        pending :=
          if fired.2 = 0 then Function.update w.pending env.pidTgid attempt else w.pending }
  | .ret env ctx op =>
      let fired := returnProbe op w.maps env ctx
      { w' with
        maps := fired.1
        events := w.events ++ fired.2.toList.map fun e => ⟨.gpu e, w.pending env.pidTgid⟩ }
  | .switch env ctx _ =>
      { w' with
        events := w.events ++ (traceSchedSwitch targetPid ctx { env with stackid }).map fun e =>
          ⟨.cpu e, if e.eventType = cpuSchedOn then attempt else none⟩ }
  | .wakeup env ctx =>
      { w' with
        events := w.events ++ (traceSchedWakeup targetPid ctx env).map fun e =>
          ⟨.cpu e, none⟩ }

/-- A run of the tracer over a stack map. -/
def StackWorld.runs (stackTraces : StackMap) (acts : List ProbeAct) : StackWorld :=
  acts.foldl (StackWorld.step H cfg targetPid) (.load stackTraces)

/-- Each event gets the stack that it would get over an empty map, if that is one: otherwise
they are the same events. -/
def Unaffected (left : StackMap) (acts : List ProbeAct) : Prop :=
  let fresh := StackWorld.runs H cfg targetPid .empty acts
  let after := StackWorld.runs H cfg targetPid left acts
  List.Forall₂
    (fun e e' => e.event.withoutStack = e'.event.withoutStack ∧
      (fresh.addrsOf e ≠ [] → after.addrsOf e' = fresh.addrsOf e))
    fresh.events after.events

/-- What the map holds at the start does not come between a capture and its stack: if the first
stack of the run in the bucket of the capture is accepted by it and can be read back, then the
bucket was empty and there was still room when the run came to it, or it held a stack that the
capture accepts too and that reads the same. -/
def LeftoverAgrees (left : StackMap) (a : Attempt) : Prop :=
  ∀ trace, a.capture.walk = some trace →
    let id := H.bucketOf trace
    let cs := a.before ++ [a.capture]
    ∀ first, firstTrace H id cs = some first →
      (usedBuckets H .empty (earlier H id cs)).card < stackTracesMaxEntries →
      Accepts H a.capture.fast trace first → first.shown ≠ [] →
      match left.lookup id with
      | none => (usedBuckets H left (earlier H id cs)).card < stackTracesMaxEntries
      | some stored => Accepts H a.capture.fast trace stored ∧ stored.shown = first.shown

end

variable {H : StackHash} {cfg : CudaTracerCfg} {targetPid : UInt32}

/-! ### What does not depend on the stacks -/

/-- A step records the capture it asks for. -/
@[simp] theorem attempts_step (w : StackWorld) (act : ProbeAct) :
    (w.step H cfg targetPid act).attempts =
      w.attempts ++ (act.asks cfg targetPid w.maps).toList := by
  cases act <;> rfl

/-- A step does to the stack map what its capture does. -/
@[simp] theorem stackTraces_step (w : StackWorld) (act : ProbeAct) :
    (w.step H cfg targetPid act).stackTraces =
      fill H w.stackTraces (act.asks cfg targetPid w.maps).toList := by
  cases act <;> rfl

/-- Sampling looks at the counters only, and at `stackid` only to return it. -/
theorem maybeCaptureStack_congr (cfg : CudaTracerCfg) {maps maps' : CudaMaps}
    (h : maps.stackSampleCounter = maps'.stackSampleCounter) (env : EntryEnv) (flags : UInt32)
    (sid sid' : Int32) :
    (maybeCaptureStack cfg maps { env with stackid := sid } flags).2.isSome =
        (maybeCaptureStack cfg maps' { env with stackid := sid' } flags).2.isSome ∧
      (maybeCaptureStack cfg maps { env with stackid := sid } flags).1.stackSampleCounter =
        (maybeCaptureStack cfg maps' { env with stackid := sid' } flags).1.stackSampleCounter := by
  rw [maybeCaptureStack, maybeCaptureStack, h]
  by_cases hc : cfg.captureStacks = 0
  · rw [if_pos hc, if_pos hc]
    exact ⟨rfl, h⟩
  · rw [if_neg hc, if_neg hc]
    by_cases hp : maps'.stackSampleCounter env.cpu % (cfg.period flags).toUInt64 ≠ 0
    · rw [if_pos hp, if_pos hp]
      exact ⟨rfl, by rw [CudaMaps.bumpCounter, CudaMaps.bumpCounter, h]⟩
    · rw [if_neg hp, if_neg hp]
      exact ⟨rfl, by rw [CudaMaps.bumpCounter, CudaMaps.bumpCounter, h]⟩

/-- A sample that is taken is the result of the helper. -/
theorem maybeCaptureStack_getD (maps : CudaMaps) (env : EntryEnv) (flags : UInt32) :
    (maybeCaptureStack cfg maps env flags).2.getD (-1) =
      if (maybeCaptureStack cfg maps env flags).2.isSome then env.stackid else -1 := by
  rw [maybeCaptureStack]
  split
  · rfl
  · split <;> rfl

/-- Entries that differ in their stack ids agree apart from them. -/
theorem withoutStack_callInfo (env : EntryEnv) (opType flags : UInt32)
    (size ptr streamId : UInt64) (sid sid' : Int32) :
    (callInfo env opType flags size ptr streamId sid).withoutStack =
      (callInfo env opType flags size ptr streamId sid').withoutStack := by
  have hflags : ∀ sid : Int32,
      (if 0 ≤ sid then flags ||| cudaEvFlagStackSampled else flags) &&& cudaEvFlagAsync =
        flags &&& cudaEvFlagAsync := by
    intro sid
    split
    · -- the two flags are different bits
      apply UInt32.toBitVec_inj.mp
      rw [UInt32.toBitVec_and, UInt32.toBitVec_or, BitVec.and_or_distrib_right,
        show cudaEvFlagStackSampled.toBitVec &&& cudaEvFlagAsync.toBitVec = 0#32 from rfl,
        BitVec.or_zero, UInt32.toBitVec_and]
    · rfl
  rw [CudaCallInfo.withoutStack, CudaCallInfo.withoutStack, callInfo, callInfo]
  dsimp only
  rw [hflags, hflags]

/-- What two runs of the same firings over different stack maps share: everything but the stack
ids and the flags that follow from them. -/
structure SameRun (w w' : StackWorld) : Prop where
  calls : BoundedMap.Rel (fun info info' => info.withoutStack = info'.withoutStack)
    w.maps.cudaCalls w'.maps.cudaCalls
  counter : w.maps.stackSampleCounter = w'.maps.stackSampleCounter
  attempts : w.attempts = w'.attempts
  pending : w.pending = w'.pending
  events : List.Forall₂
    (fun e e' => e.event.withoutStack = e'.event.withoutStack ∧ e.attempt = e'.attempt)
    w.events w'.events

/-- At the start the two runs differ in their stack maps only. -/
theorem SameRun.load (m m' : StackMap) : SameRun (.load m) (.load m') where
  calls := .empty
  counter := rfl
  attempts := rfl
  pending := rfl
  events := .nil

/-- Both runs ask for the same stacks. -/
theorem asks_congr (cfg : CudaTracerCfg) (targetPid : UInt32) {maps maps' : CudaMaps}
    (h : maps.stackSampleCounter = maps'.stackSampleCounter) (act : ProbeAct) :
    act.asks cfg targetPid maps = act.asks cfg targetPid maps' := by
  cases act with
  | entry env ctx op walk =>
      have hsome := (maybeCaptureStack_congr cfg h env op.entryFlags env.stackid
        env.stackid).1
      rw [ProbeAct.asks, ProbeAct.asks]
      exact if_congr (by rw [hsome]) rfl rfl
  | ret env ctx op => rfl
  | switch env ctx walk => rfl
  | wakeup env ctx => rfl

/-- An entry stores the same call up to its stack. -/
theorem SameRun.of_entryProbe {w w' : StackWorld} (h : SameRun w w') (cfg : CudaTracerCfg)
    (env : EntryEnv) (ctx : PtRegs) (op : CudaOp) (sid sid' : Int32) :
    BoundedMap.Rel (fun info info' => info.withoutStack = info'.withoutStack)
        (entryProbe cfg w.maps { env with stackid := sid } ctx op).1.cudaCalls
        (entryProbe cfg w'.maps { env with stackid := sid' } ctx op).1.cudaCalls ∧
      (entryProbe cfg w.maps { env with stackid := sid } ctx op).1.stackSampleCounter =
        (entryProbe cfg w'.maps { env with stackid := sid' } ctx op).1.stackSampleCounter ∧
      (entryProbe cfg w.maps { env with stackid := sid } ctx op).2 =
        (entryProbe cfg w'.maps { env with stackid := sid' } ctx op).2 := by
  obtain ⟨size, ptr, streamId, heq⟩ := entryProbe_eq cfg ctx op
  rw [heq, heq]
  rcases em (cfg.Passes env.pidTgid) with hp | hf
  · rw [recordEntry_of_passes (by exact hp), recordEntry_of_passes (by exact hp)]
    refine ⟨?_, (maybeCaptureStack_congr cfg h.counter env op.entryFlags sid sid').2, rfl⟩
    rw [CudaMaps.setCall, CudaMaps.setCall, maybeCaptureStack_cudaCalls,
      maybeCaptureStack_cudaCalls]
    exact h.calls.update _ (withoutStack_callInfo env op.code op.entryFlags size ptr streamId _ _)
  · rw [recordEntry_of_filtered (by exact hf), recordEntry_of_filtered (by exact hf)]
    exact ⟨h.calls, h.counter, rfl⟩

/-- A return submits the same event up to its stack. -/
theorem SameRun.of_returnProbe {w w' : StackWorld} (h : SameRun w w') (env : ReturnEnv)
    (ctx : PtRegs) (op : CudaOp) :
    BoundedMap.Rel (fun info info' => info.withoutStack = info'.withoutStack)
        (returnProbe op w.maps env ctx).1.cudaCalls
        (returnProbe op w'.maps env ctx).1.cudaCalls ∧
      (returnProbe op w.maps env ctx).1.stackSampleCounter =
        (returnProbe op w'.maps env ctx).1.stackSampleCounter ∧
      List.Forall₂
        (fun e e' => (UnifiedEvent.gpu e).withoutStack = (UnifiedEvent.gpu e').withoutStack)
        (returnProbe op w.maps env ctx).2.toList (returnProbe op w'.maps env ctx).2.toList := by
  rw [returnProbe, returnProbe, submitEvent, submitEvent]
  rcases h.calls.lookup env.pidTgid with ⟨hl, hl'⟩ | ⟨info, info', hl, hl', hinfo⟩
  · rw [hl, hl']
    exact ⟨h.calls, h.counter, .nil⟩
  · have hfields := hinfo
    simp only [CudaCallInfo.withoutStack, CudaCallInfo.mk.injEq] at hfields
    obtain ⟨htime, hop, hpid, hsize, hptr, hstream, -, hflags⟩ := hfields
    have hdelete := h.calls.delete env.pidTgid
    rw [hl, hl']
    dsimp only
    rw [hop]
    split
    · exact ⟨hdelete, h.counter, .nil⟩
    · split
      · exact ⟨hdelete, h.counter, .nil⟩
      · refine ⟨hdelete, h.counter, .cons ?_ .nil⟩
        simp only [UnifiedEvent.withoutStack, eventOf, htime, hpid, hsize, hptr, hstream, hflags]

/-- A switch submits the same records up to the stack of the switch-in. -/
theorem withoutStack_traceSchedSwitch (ctx : SchedSwitchArgs) (env : SwitchEnv)
    (sid sid' : Int32) :
    List.Forall₂
      (fun e e' => (UnifiedEvent.cpu e).withoutStack = (UnifiedEvent.cpu e').withoutStack ∧
        e.eventType = e'.eventType)
      (traceSchedSwitch targetPid ctx { env with stackid := sid })
      (traceSchedSwitch targetPid ctx { env with stackid := sid' }) := by
  rw [traceSchedSwitch_eq, traceSchedSwitch_eq]
  refine List.rel_append ?_ ?_
  · dsimp only
    split
    · exact .cons ⟨rfl, rfl⟩ .nil
    · exact .nil
  · dsimp only
    split
    · exact .cons ⟨rfl, rfl⟩ .nil
    · exact .nil

/-- Every firing keeps what the runs share. -/
theorem SameRun.of_step {w w' : StackWorld} (h : SameRun w w') (act : ProbeAct) :
    SameRun (w.step H cfg targetPid act) (w'.step H cfg targetPid act) := by
  have hasks := asks_congr cfg targetPid h.counter act
  have hattempts : (w.step H cfg targetPid act).attempts =
      (w'.step H cfg targetPid act).attempts := by
    rw [attempts_step, attempts_step, h.attempts, hasks]
  cases act with
  | entry env ctx op walk =>
      obtain ⟨hcalls, hcounter, hresult⟩ := h.of_entryProbe cfg env ctx op
        (stackidOf H w.stackTraces _) (stackidOf H w'.stackTraces _)
      refine ⟨hcalls, hcounter, hattempts, ?_, h.events⟩
      rw [StackWorld.step, StackWorld.step]
      dsimp only
      rw [hresult, hasks, h.attempts, h.pending]
  | ret env ctx op =>
      obtain ⟨hcalls, hcounter, hevents⟩ := h.of_returnProbe env ctx op
      refine ⟨hcalls, hcounter, hattempts, h.pending, List.rel_append h.events ?_⟩
      rw [List.forall₂_map_left_iff, List.forall₂_map_right_iff]
      exact hevents.imp fun e e' he => ⟨he, congrFun h.pending _⟩
  | switch env ctx walk =>
      refine ⟨h.calls, h.counter, hattempts, h.pending, List.rel_append h.events ?_⟩
      rw [List.forall₂_map_left_iff, List.forall₂_map_right_iff]
      refine (withoutStack_traceSchedSwitch ctx env _ _).imp fun e e' he => ⟨he.1, ?_⟩
      rw [he.2, hasks, h.attempts]
  | wakeup env ctx =>
      refine ⟨h.calls, h.counter, hattempts, h.pending, List.rel_append h.events ?_⟩
      rw [List.forall₂_map_left_iff, List.forall₂_map_right_iff]
      exact List.forall₂_same.mpr fun e _ => ⟨rfl, rfl⟩

/-- **What a stack map decides**: the same firings over two stack maps give the same events but
for their stacks. -/
theorem SameRun.of_runs (H : StackHash) (cfg : CudaTracerCfg) (targetPid : UInt32)
    (m m' : StackMap) (acts : List ProbeAct) :
    SameRun (StackWorld.runs H cfg targetPid m acts)
      (StackWorld.runs H cfg targetPid m' acts) := by
  rw [StackWorld.runs, StackWorld.runs]
  induction acts using List.reverseRecOn with
  | nil => exact .load m m'
  | append_singleton acts act ih =>
      rw [List.foldl_append, List.foldl_append]
      exact ih.of_step act

/-! ### What the stack ids are the results of -/

/-- The capture is one of the run so far. -/
def Attempt.Of (a : Attempt) (attempts : List Capture) : Prop :=
  a.before ++ [a.capture] <+: attempts

/-- Every stack id in the maps and the events of a run over `m` is the result of the capture
that is recorded with it. -/
structure Traced (H : StackHash) (m : StackMap) (w : StackWorld) : Prop where
  stackTraces : w.stackTraces = fill H m w.attempts
  pending : ∀ k info, w.maps.cudaCalls.lookup k = some info →
    info.stackId = resultOf H m (w.pending k)
  pending_of : ∀ k a, w.pending k = some a → a.Of w.attempts
  events : ∀ e ∈ w.events, e.event.stackId = resultOf H m e.attempt
  events_of : ∀ e ∈ w.events, ∀ a, e.attempt = some a → a.Of w.attempts

/-- At the start no stack has been asked for. -/
theorem Traced.load (m : StackMap) : Traced H m (.load m) where
  stackTraces := rfl
  pending := fun k info h => absurd h (by simp [StackWorld.load, CudaMaps.init])
  pending_of := fun k a h => absurd h (by simp [StackWorld.load])
  events := fun e he => absurd he List.not_mem_nil
  events_of := fun e he => absurd he List.not_mem_nil

variable {m : StackMap} {w : StackWorld}

/-- The new capture and its result. -/
theorem Traced.stackidOf_eq (h : Traced H m w) (asked : Option Capture) :
    stackidOf H w.stackTraces asked = resultOf H m (asked.map (Attempt.mk w.attempts)) := by
  rw [stackidOf, resultOf, Option.map_map, h.stackTraces]
  rfl

/-- An attempt made now is one of the captures so far. -/
theorem of_map_mk {asked : Option Capture} {attempts : List Capture} {a : Attempt}
    (h : asked.map (Attempt.mk attempts) = some a) : a.Of (attempts ++ asked.toList) := by
  obtain ⟨c, rfl, rfl⟩ := Option.map_eq_some_iff.mp h
  exact List.prefix_refl _

/-- Later captures leave an attempt where it is. -/
theorem Attempt.Of.append {a : Attempt} {attempts : List Capture} (h : a.Of attempts)
    (cs : List Capture) : a.Of (attempts ++ cs) :=
  h.trans (List.prefix_append _ _)

/-- What an entry leaves in the slot of its thread. -/
theorem stackId_entryProbe {maps : CudaMaps} {env : EntryEnv} {ctx : PtRegs} {op : CudaOp}
    {sid : Int32} (hp : cfg.Passes env.pidTgid) {info : CudaCallInfo}
    (h : (entryProbe cfg maps { env with stackid := sid } ctx op).1.cudaCalls.lookup
      env.pidTgid = some info) :
    info.stackId =
      if (maybeCaptureStack cfg maps env op.entryFlags).2.isSome then sid else -1 := by
  obtain ⟨size, ptr, streamId, heq⟩ := entryProbe_eq cfg ctx op
  rw [heq, recordEntry_of_passes (by exact hp), maybeCaptureStack_getD,
    (maybeCaptureStack_congr cfg rfl env op.entryFlags sid env.stackid).1] at h
  rcases lookup_setCall _ env.pidTgid (callInfo _ _ _ size ptr streamId _) with hl | hl
  · rw [← Option.some.inj (hl.symm.trans h)]
    rfl
  · exact absurd (h.symm.trans hl) (by simp)

/-- An entry that is traced asks exactly when it is sampled. -/
theorem asks_entry_of_passes {env : EntryEnv} (hp : cfg.Passes env.pidTgid) (maps : CudaMaps)
    (ctx : PtRegs) (op : CudaOp) (walk : Option UserTrace) :
    (ProbeAct.entry env ctx op walk).asks cfg targetPid maps =
      if (maybeCaptureStack cfg maps env op.entryFlags).2.isSome then some ⟨true, walk⟩
      else none := by
  rw [ProbeAct.asks]
  exact if_congr (and_iff_right hp) rfl rfl

/-- An entry keeps track of the capture behind the slot it fills. -/
theorem Traced.of_entry (h : Traced H m w) (env : EntryEnv) (ctx : PtRegs) (op : CudaOp)
    (walk : Option UserTrace) :
    Traced H m (w.step H cfg targetPid (.entry env ctx op walk)) := by
  have hstack : (w.step H cfg targetPid (.entry env ctx op walk)).stackTraces =
      fill H m (w.step H cfg targetPid (.entry env ctx op walk)).attempts := by
    rw [stackTraces_step, attempts_step, fill_append, ← h.stackTraces]
  rcases em (cfg.Passes env.pidTgid) with hp | hf
  · have hzero : ∀ sid, (entryProbe cfg w.maps { env with stackid := sid } ctx op).2 = 0 :=
      fun sid => entryProbe_snd_eq_zero_iff.mpr hp
    refine ⟨hstack, fun k info hl => ?_, fun k a ha => ?_, h.events,
      fun e he a ha => (h.events_of e he a ha).append _⟩
    · rw [StackWorld.step] at hl ⊢
      dsimp only at hl ⊢
      rw [if_pos (hzero _)]
      rcases eq_or_ne k env.pidTgid with rfl | hk
      · rw [Function.update_self, stackId_entryProbe hp hl, h.stackidOf_eq,
          asks_entry_of_passes hp]
        split
        · rfl
        · rfl
      · obtain ⟨size, ptr, streamId, heq⟩ := entryProbe_eq cfg ctx op
        rw [heq, lookup_recordEntry_ne _ _ _ _ _ (by exact hk)] at hl
        rw [Function.update_of_ne hk]
        exact h.pending k info hl
    · rw [StackWorld.step] at ha ⊢
      dsimp only at ha ⊢
      rw [if_pos (hzero _)] at ha
      rcases eq_or_ne k env.pidTgid with rfl | hk
      · rw [Function.update_self] at ha
        exact of_map_mk ha
      · rw [Function.update_of_ne hk] at ha
        exact (h.pending_of k a ha).append _
  · -- a filtered thread leaves the maps alone
    have hfired : ∀ sid, entryProbe cfg w.maps { env with stackid := sid } ctx op =
        (w.maps, 1) := by
      intro sid
      obtain ⟨size, ptr, streamId, heq⟩ := entryProbe_eq cfg ctx op
      rw [heq, recordEntry_of_filtered (by exact hf)]
    refine ⟨hstack, fun k info hl => ?_, fun k a ha => ?_, h.events,
      fun e he a ha => (h.events_of e he a ha).append _⟩
    · rw [StackWorld.step] at hl ⊢
      dsimp only at hl ⊢
      rw [hfired] at hl ⊢
      rw [if_neg (show ¬ (1 : Int32) = 0 by decide)]
      exact h.pending k info hl
    · rw [StackWorld.step] at ha ⊢
      dsimp only at ha ⊢
      rw [hfired, if_neg (show ¬ (1 : Int32) = 0 by decide)] at ha
      exact (h.pending_of k a ha).append _

/-- Every firing keeps track of the captures. -/
theorem Traced.of_step (h : Traced H m w) (act : ProbeAct) :
    Traced H m (w.step H cfg targetPid act) := by
  have hstack : (w.step H cfg targetPid act).stackTraces =
      fill H m (w.step H cfg targetPid act).attempts := by
    rw [stackTraces_step, attempts_step, fill_append, ← h.stackTraces]
  cases act with
  | entry env ctx op walk => exact h.of_entry env ctx op walk
  | ret env ctx op =>
      refine ⟨hstack, fun k info hl => ?_, fun k a ha => (h.pending_of k a ha).append _,
        fun e he => ?_, fun e he a ha => ?_⟩
      · rcases eq_or_ne k env.pidTgid with rfl | hk
        · exact absurd (hl.symm.trans (lookup_submitEvent env ctx op.code)) (by simp)
        · exact h.pending k info ((lookup_submitEvent_ne ctx op.code hk).symm.trans hl)
      · rcases List.mem_append.mp he with he | he
        · exact h.events e he
        · obtain ⟨gpu, hgpu, rfl⟩ := List.mem_map.mp he
          obtain ⟨info, hl, -, -, rfl⟩ :=
            submitEvent_eq_some_iff.mp (Option.mem_toList.mp hgpu)
          exact h.pending _ info hl
      · rcases List.mem_append.mp he with he | he
        · exact (h.events_of e he a ha).append _
        · obtain ⟨gpu, -, rfl⟩ := List.mem_map.mp he
          exact (h.pending_of _ a ha).append _
  | switch env ctx walk =>
      refine ⟨hstack, h.pending, fun k a ha => (h.pending_of k a ha).append _,
        fun e he => ?_, fun e he a ha => ?_⟩
      · rcases List.mem_append.mp he with he | he
        · exact h.events e he
        · obtain ⟨cpu, hcpu, rfl⟩ := List.mem_map.mp he
          rcases mem_traceSchedSwitch.mp hcpu with ⟨-, -, rfl⟩ | ⟨-, -, rfl⟩
          · rfl
          · exact (h.stackidOf_eq _)
      · rcases List.mem_append.mp he with he | he
        · exact (h.events_of e he a ha).append _
        · obtain ⟨cpu, -, rfl⟩ := List.mem_map.mp he
          dsimp only at ha
          split at ha
          · exact of_map_mk ha
          · exact absurd ha (by simp)
  | wakeup env ctx =>
      refine ⟨hstack, h.pending, fun k a ha => (h.pending_of k a ha).append _,
        fun e he => ?_, fun e he a ha => ?_⟩
      · rcases List.mem_append.mp he with he | he
        · exact h.events e he
        · obtain ⟨cpu, hcpu, rfl⟩ := List.mem_map.mp he
          obtain ⟨-, -, rfl⟩ := mem_traceSchedWakeup.mp hcpu
          rfl
      · rcases List.mem_append.mp he with he | he
        · exact (h.events_of e he a ha).append _
        · obtain ⟨cpu, -, rfl⟩ := List.mem_map.mp he
          exact absurd ha (by simp)

/-- **In every run**, each stack id is what the capture made for its call returned. -/
theorem Traced.of_runs (H : StackHash) (cfg : CudaTracerCfg) (targetPid : UInt32)
    (m : StackMap) (acts : List ProbeAct) :
    Traced H m (StackWorld.runs H cfg targetPid m acts) := by
  rw [StackWorld.runs]
  induction acts using List.reverseRecOn with
  | nil => exact .load m
  | append_singleton acts act ih =>
      rw [List.foldl_append]
      exact ih.of_step act

/-! ### When earlier runs do not matter -/

/-- What a capture of `trace` reads back from a bucket with the given content. -/
def shownTo (H : StackHash) (fast : Bool) (trace : UserTrace) (content : Option UserTrace) :
    List UInt64 :=
  ((content.filter fun stored => Accepts H fast trace stored).map UserTrace.shown).getD []

/-- A bucket shows its trace to a capture that accepts it. -/
theorem shownTo_some (fast : Bool) (trace stored : UserTrace) :
    shownTo H fast trace (some stored) =
      if Accepts H fast trace stored then stored.shown else [] := by
  rw [shownTo, Option.filter_some]
  by_cases hacc : Accepts H fast trace stored
  · rw [if_pos hacc, if_pos (decide_eq_true hacc)]
    rfl
  · rw [if_neg hacc, if_neg (by simpa using hacc)]
    rfl

@[simp] theorem shownTo_none (fast : Bool) (trace : UserTrace) :
    shownTo H fast trace none = [] := rfl

/-- What is read back at the end of a run over `m` for a capture of it. -/
def Attempt.reads (H : StackHash) (m : StackMap) (a : Attempt) : List UInt64 :=
  ((a.capture.named H (fill H m a.before)).map UserTrace.shown).getD []

/-- The stack that a capture of a run over `m` reads. -/
theorem Attempt.reads_eq {a : Attempt} {trace : UserTrace} (h : a.capture.walk = some trace)
    (m : StackMap) :
    a.reads H m = shownTo H a.capture.fast trace
      ((m.lookup (H.bucketOf trace)).or
        (if (usedBuckets H m
            (earlier H (H.bucketOf trace) (a.before ++ [a.capture]))).card <
              stackTracesMaxEntries then
          firstTrace H (H.bucketOf trace) (a.before ++ [a.capture])
        else none)) := by
  rw [← lookup_fill, reads, Capture.named, h, Option.bind_some, fill_append, fill_singleton,
    shownTo]

/-- What is read back for an event at the end of a run over `m`. -/
theorem addrsOf_runs {acts : List ProbeAct} {e : StackedEvent}
    (he : e ∈ (StackWorld.runs H cfg targetPid m acts).events) :
    (StackWorld.runs H cfg targetPid m acts).addrsOf e =
      (e.attempt.map fun a => a.reads H m).getD [] := by
  have htraced := Traced.of_runs H cfg targetPid m acts
  rw [StackWorld.addrsOf, htraced.events e he, htraced.stackTraces]
  cases ha : e.attempt with
  | none => exact retrieve_of_neg _ (show (-1 : Int32) < 0 by decide)
  | some a => exact retrieve_of_prefix m (htraced.events_of e he a ha)

/-- One capture over an empty map and over `left`. -/
theorem leftoverAgrees_iff {left : StackMap} {a : Attempt} :
    LeftoverAgrees H left a ↔
      (a.reads H .empty ≠ [] → a.reads H left = a.reads H .empty) := by
  rw [LeftoverAgrees]
  cases hwalk : a.capture.walk with
  | none =>
      have hreads : a.reads H .empty = [] := by
        rw [Attempt.reads, Capture.named, hwalk]
        rfl
      exact iff_of_true (fun trace h => absurd h (by simp)) fun h => absurd hreads h
  | some trace =>
      rw [Attempt.reads_eq hwalk, Attempt.reads_eq hwalk, BoundedMap.lookup_empty,
        Option.none_or]
      simp only [Option.some.injEq, forall_eq']
      cases firstTrace H (H.bucketOf trace) (a.before ++ [a.capture]) with
      | none =>
          rw [ite_self, shownTo_none]
          exact iff_of_true (fun first h => absurd h (by simp)) fun h => absurd rfl h
      | some first =>
          simp only [Option.some.injEq, forall_eq']
          rcases em ((usedBuckets H .empty (earlier H (H.bucketOf trace)
            (a.before ++ [a.capture]))).card < stackTracesMaxEntries) with hroom | hroom
          · rw [if_pos hroom, shownTo_some, forall_prop_of_true hroom]
            rcases em (Accepts H a.capture.fast trace first) with hacc | hacc
            · rw [if_pos hacc, forall_prop_of_true hacc]
              refine forall_congr' fun hshown => ?_
              cases left.lookup (H.bucketOf trace) with
              | none =>
                  rw [Option.none_or]
                  dsimp only
                  split
                  · rename_i hroom'
                    rw [shownTo_some, if_pos hacc]
                    exact iff_of_true hroom' rfl
                  · rename_i hroom'
                    exact iff_of_false hroom' fun h => hshown h.symm
              | some stored =>
                  rw [Option.some_or, shownTo_some]
                  dsimp only
                  split
                  · rename_i hacc'
                    exact and_iff_right hacc'
                  · rename_i hacc'
                    exact iff_of_false (fun h => hacc' h.1) fun h => hshown h.symm
            · rw [if_neg hacc]
              exact iff_of_true (fun h => absurd h hacc) fun h => absurd rfl h
          · rw [if_neg hroom, shownTo_none]
            exact iff_of_true (fun h => absurd h hroom) fun h => absurd rfl h

/-- **When earlier runs do not matter**: exactly when no capture of the run whose stack could
be read back over an empty map finds its bucket taken by a stack that it does not accept or
that reads differently, or finds no room because of what was left. -/
theorem unaffected_iff (H : StackHash) (cfg : CudaTracerCfg) (targetPid : UInt32)
    (left : StackMap) (acts : List ProbeAct) :
    Unaffected H cfg targetPid left acts ↔
      ∀ e ∈ (StackWorld.runs H cfg targetPid .empty acts).events, ∀ a, e.attempt = some a →
        LeftoverAgrees H left a := by
  have hsame := SameRun.of_runs H cfg targetPid .empty left acts
  refine List.forall₂_iff_forall_mem hsame.events fun e he e' he' ⟨hevent, hattempt⟩ => ?_
  rw [and_iff_right hevent, addrsOf_runs he, addrsOf_runs he', ← hattempt]
  cases ha : e.attempt with
  | none => exact iff_of_true (fun h => absurd rfl h) fun a h => absurd h (by simp)
  | some a =>
      simp only [Option.map_some, Option.getD_some, Option.some.injEq, forall_eq']
      exact leftoverAgrees_iff.symm

theorem length_singleton_le (a : UInt64) : [a].length ≤ perfMaxStackDepth := by
  rw [List.length_singleton, perfMaxStackDepth]
  omega

/-- A stack of one address. -/
def oneFrame (a : UInt64) : UserTrace := ⟨[a], List.cons_ne_nil a [], length_singleton_le a⟩

/-- A thread with that stack is switched in. -/
def switchInAt (a : UInt64) : ProbeAct :=
  .switch ⟨0, false, 0, true, 10, 0⟩ ⟨.empty, 0, 0, .empty, 100⟩ (some (oneFrame a))

/-- A thread with that stack calls `cudaMalloc`, which returns. -/
def mallocAt (a : UInt64) : List ProbeAct :=
  [.entry ⟨100, 20, 0, 0⟩ ⟨0, 64, 0, 0, 0, 0⟩ .malloc (some (oneFrame a)),
    .ret ⟨100, 30, true, .empty⟩ ⟨0, 64, 0, 0, 0, 0⟩ .malloc]

/-- The stacks of a run after another run. -/
def stacksAfter (earlierRun acts : List ProbeAct) : List (List UInt64) :=
  let left := (StackWorld.runs .jhash .default 0 .empty earlierRun).stackTraces
  let w := StackWorld.runs .jhash .default 0 left acts
  w.events.map w.addrsOf

/-- An earlier run that left another stack in the same bucket makes a switch-in lose its stack;
one that left another stack with the same hash makes a call show that stack. -/
theorem stack_taken_by_earlier_run :
    stacksAfter [] [switchInAt 0x4018a0] = [[0x4018a0]] ∧
      stacksAfter [switchInAt 0x4015c0] [switchInAt 0x4018a0] = [[]] ∧
      stacksAfter [] (mallocAt 0x492bbc) = [[0x492bbc]] ∧
      stacksAfter (mallocAt 0x485b38) (mallocAt 0x492bbc) = [[0x485b38]] ∧
      ¬ Unaffected .jhash .default 0
        (StackWorld.runs .jhash .default 0 .empty [switchInAt 0x4015c0]).stackTraces
        [switchInAt 0x4018a0] := by
  refine ⟨by decide +kernel, by decide +kernel, by decide +kernel, by decide +kernel,
    fun h => ?_⟩
  cases h with
  | cons hpair htail =>
      have hread := hpair.2 (by decide +kernel)
      exact absurd hread (by decide +kernel)

end UnifiedTrace
