import UnifiedTrace.Common

/-!
# The Scheduler Tracer

A model of `src/bpf/trace_cpu_sched.bpf.c`: the programs on the `sched_switch` and
`sched_wakeup` tracepoints. Neither keeps any state between firings. A firing yields the
records it submits to `cpu_events`, in the order of submission: the filtered branch submits
at most one, the trace-all branch up to two, each with its own reservation and its own
reading of the clock.

## Main results

* `traceSchedSwitch_eq`: a switch submits an off record for the outgoing thread and an on
  record for the incoming one, each exactly when the filter selects it and the ring has
  room. With a target the on record is only considered when the outgoing thread is not the
  target.
* `mem_traceSchedWakeup`: a wakeup submits a record exactly when the filter selects the
  woken thread and the ring has room.
-/

namespace UnifiedTrace

/-! ### Contexts and helpers -/

/-- `struct sched_switch_args`, the raw context of the `sched_switch` tracepoint. -/
structure SchedSwitchArgs where
  prevComm : Comm
  prevPid : Int32
  prevState : Int64
  nextComm : Comm
  nextPid : Int32
  deriving DecidableEq

/-- `struct sched_wakeup_args`, the raw context of the `sched_wakeup` tracepoint. -/
structure SchedWakeupArgs where
  comm : Comm
  pid : Int32
  deriving DecidableEq

/-- What the helpers return while the switch program runs, for its off record and for its
on record. -/
structure SwitchEnv where
  /-- `bpf_get_smp_processor_id`. -/
  cpu : UInt32
  /-- Whether `bpf_ringbuf_reserve` finds room for the off record. -/
  offReserve : Bool
  /-- `bpf_ktime_get_ns` for the off record. -/
  offNow : UInt64
  /-- Whether `bpf_ringbuf_reserve` finds room for the on record. -/
  onReserve : Bool
  /-- `bpf_ktime_get_ns` for the on record. -/
  onNow : UInt64
  /-- `bpf_get_stackid`, should the program call it. -/
  stackid : Int32
  deriving DecidableEq

/-- What the helpers return while the wakeup program runs. -/
structure WakeupEnv where
  /-- `bpf_get_smp_processor_id`. -/
  cpu : UInt32
  /-- Whether `bpf_ringbuf_reserve` finds room. -/
  reserve : Bool
  /-- `bpf_ktime_get_ns`. -/
  now : UInt64
  deriving DecidableEq

/-! ### The programs -/

/-- The record for the outgoing thread. -/
def offEvent (ctx : SchedSwitchArgs) (env : SwitchEnv) : CpuSchedEvent where
  timestamp := env.offNow
  eventType := cpuSchedOff
  pid := ctx.prevPid.toUInt32
  tid := ctx.prevPid.toUInt32
  cpu := env.cpu
  prevState := ctx.prevState.toUInt64
  stackId := -1
  comm := ctx.prevComm

/-- The record for the incoming thread. -/
def onEvent (ctx : SchedSwitchArgs) (env : SwitchEnv) : CpuSchedEvent where
  timestamp := env.onNow
  eventType := cpuSchedOn
  pid := ctx.nextPid.toUInt32
  tid := ctx.nextPid.toUInt32
  cpu := env.cpu
  prevState := 0
  stackId := env.stackid
  comm := ctx.nextComm

/-- `trace_sched_switch`. -/
def traceSchedSwitch (targetPid : UInt32) (ctx : SchedSwitchArgs) (env : SwitchEnv) :
    List CpuSchedEvent :=
  let prevPid := ctx.prevPid.toUInt32
  let nextPid := ctx.nextPid.toUInt32
  if targetPid ≠ 0 ∧ prevPid ≠ targetPid ∧ nextPid ≠ targetPid then
    []
  else if targetPid ≠ 0 then
    if prevPid = targetPid then
      if env.offReserve then [offEvent ctx env] else []
    else if nextPid = targetPid then
      if env.onReserve then [onEvent ctx env] else []
    else
      []
  else
    -- trace all: the two records are independent of each other
    (if env.offReserve then [offEvent ctx env] else []) ++
      (if env.onReserve then [onEvent ctx env] else [])

/-- `trace_sched_wakeup`. -/
def traceSchedWakeup (targetPid : UInt32) (ctx : SchedWakeupArgs) (env : WakeupEnv) :
    List CpuSchedEvent :=
  let pid := ctx.pid.toUInt32
  if targetPid ≠ 0 ∧ pid ≠ targetPid then
    []
  else if env.reserve then
    [{ timestamp := env.now, eventType := cpuSchedWakeup, pid := pid, tid := pid,
       cpu := env.cpu, prevState := 0, stackId := -1, comm := ctx.comm }]
  else
    []

/-! ### What a firing submits -/

/-- The two records of a switch differ in their type. -/
theorem offEvent_ne_onEvent (ctx ctx' : SchedSwitchArgs) (env env' : SwitchEnv) :
    offEvent ctx env ≠ onEvent ctx' env' := by
  intro h
  have htype : cpuSchedOff = cpuSchedOn := congrArg CpuSchedEvent.eventType h
  exact absurd htype (by decide)

/-- The filter selects the switch-out of the outgoing thread. -/
def SelectsOff (targetPid : UInt32) (ctx : SchedSwitchArgs) : Prop :=
  targetPid = 0 ∨ ctx.prevPid.toUInt32 = targetPid

/-- The filter selects the switch-in of the incoming thread. -/
def SelectsOn (targetPid : UInt32) (ctx : SchedSwitchArgs) : Prop :=
  targetPid = 0 ∨ ctx.prevPid.toUInt32 ≠ targetPid ∧ ctx.nextPid.toUInt32 = targetPid

instance (targetPid : UInt32) (ctx : SchedSwitchArgs) : Decidable (SelectsOff targetPid ctx) :=
  inferInstanceAs (Decidable (_ ∨ _))

instance (targetPid : UInt32) (ctx : SchedSwitchArgs) : Decidable (SelectsOn targetPid ctx) :=
  inferInstanceAs (Decidable (_ ∨ _))

variable {targetPid : UInt32}

/-- **What a switch submits**: the two records, each when it is selected and the ring has
room for it. -/
theorem traceSchedSwitch_eq (targetPid : UInt32) (ctx : SchedSwitchArgs) (env : SwitchEnv) :
    traceSchedSwitch targetPid ctx env =
      (if SelectsOff targetPid ctx ∧ env.offReserve then [offEvent ctx env] else []) ++
        (if SelectsOn targetPid ctx ∧ env.onReserve then [onEvent ctx env] else []) := by
  rw [traceSchedSwitch]
  by_cases h0 : targetPid = 0
  · simp [SelectsOff, SelectsOn, h0]
  · by_cases hp : ctx.prevPid.toUInt32 = targetPid
    · simp [SelectsOff, SelectsOn, h0, hp]
    · by_cases hn : ctx.nextPid.toUInt32 = targetPid
      · simp [SelectsOff, SelectsOn, h0, hp, hn]
      · simp [SelectsOff, SelectsOn, h0, hp, hn]

/-- A switch submits the off event and the on event, each if it is selected and finds room. -/
theorem mem_traceSchedSwitch {ctx : SchedSwitchArgs} {env : SwitchEnv} {e : CpuSchedEvent} :
    e ∈ traceSchedSwitch targetPid ctx env ↔
      (SelectsOff targetPid ctx ∧ env.offReserve = true ∧ e = offEvent ctx env) ∨
      (SelectsOn targetPid ctx ∧ env.onReserve = true ∧ e = onEvent ctx env) := by
  rw [traceSchedSwitch_eq, List.mem_append, List.mem_ite_nil_right,
    List.mem_ite_nil_right, List.mem_singleton, List.mem_singleton, and_assoc, and_assoc]

/-- What a wakeup submits. -/
theorem mem_traceSchedWakeup {ctx : SchedWakeupArgs} {env : WakeupEnv} {e : CpuSchedEvent} :
    e ∈ traceSchedWakeup targetPid ctx env ↔
      (targetPid = 0 ∨ ctx.pid.toUInt32 = targetPid) ∧ env.reserve = true ∧
        e = { timestamp := env.now, eventType := cpuSchedWakeup, pid := ctx.pid.toUInt32,
              tid := ctx.pid.toUInt32, cpu := env.cpu, prevState := 0, stackId := -1,
              comm := ctx.comm } := by
  rw [traceSchedWakeup]
  by_cases h : targetPid ≠ 0 ∧ ctx.pid.toUInt32 ≠ targetPid
  · rw [if_pos h]
    exact ⟨fun he => absurd he List.not_mem_nil,
      fun he => absurd he.1 (not_or.mpr h)⟩
  · rw [if_neg h]
    rw [not_and_or, not_not, not_not] at h
    cases hres : env.reserve with
    | false => simp
    | true => simp [h]

end UnifiedTrace
