import UnifiedTrace.Schedule
import UnifiedTrace.TraceCuda

/-!
# The Two PID Filters

`unified_trace.c` hands the number after `--pid` to both tracers. The CUDA tracer compares
it with the upper half of `bpf_get_current_pid_tgid`, the process id. The scheduler tracer
compares it with the pid fields of the tracepoints, which are thread ids. The two select the
same threads as long as process `P` runs on its main thread alone.

## Main results

* `filtersAgree_iff`: with a target `P`, the two filters agree on every event of a run
  exactly when each thread the run names has thread id `P` if and only if it has process id
  `P`.
* `worker_thread_dropped`: they do not agree on a worker thread of the target.
-/

namespace UnifiedTrace

variable {n : ℕ}

/-- The switch-out is recorded when the ring has room. -/
def Switch.RecordsOut (targetPid : UInt32) (sw : Switch n) : Prop :=
  offEvent sw.ctx { sw.env with offReserve := true, onReserve := true } ∈
    traceSchedSwitch targetPid sw.ctx { sw.env with offReserve := true, onReserve := true }

/-- The switch-in is recorded when the ring has room. -/
def Switch.RecordsIn (targetPid : UInt32) (sw : Switch n) : Prop :=
  onEvent sw.ctx { sw.env with offReserve := true, onReserve := true } ∈
    traceSchedSwitch targetPid sw.ctx { sw.env with offReserve := true, onReserve := true }

/-- The wakeup is recorded when the ring has room. -/
def Wakeup.Records (targetPid : UInt32) (wk : Wakeup n) : Prop :=
  traceSchedWakeup targetPid wk.ctx { wk.env with reserve := true } ≠ []

/-- The entry of a CUDA call by the thread is recorded, whichever function it calls. -/
def CudaTracerCfg.RecordsCallsOf (cfg : CudaTracerCfg) (t : Task) : Prop :=
  ∀ maps env ctx op, env.pidTgid = t.pidTgid → (entryProbe cfg maps env ctx op).2 = 0

/-- The scheduler tracer records the events of the action exactly for the threads whose CUDA
calls would be recorded. -/
def SchedAct.FiltersAgree (cfg : CudaTracerCfg) : SchedAct n → Prop
  | switch sw =>
      (sw.RecordsOut cfg.targetPid ↔ cfg.RecordsCallsOf sw.prev) ∧
        (sw.RecordsIn cfg.targetPid ↔ cfg.RecordsCallsOf sw.next)
  | wakeup wk => wk.Records cfg.targetPid ↔ cfg.RecordsCallsOf wk.task

/-- The threads an action is about. -/
def SchedAct.tasks : SchedAct n → List Task
  | switch sw => [sw.prev, sw.next]
  | wakeup wk => [wk.task]

variable {cfg : CudaTracerCfg}

/-- The CUDA tracer goes by the process id. -/
theorem recordsCallsOf_iff (h0 : cfg.targetPid ≠ 0) (t : Task) :
    cfg.RecordsCallsOf t ↔ t.tgid = cfg.targetPid := by
  have hpasses : cfg.Passes t.pidTgid ↔ t.tgid = cfg.targetPid := by
    rw [CudaTracerCfg.Passes, pidOf_pidTgid, or_iff_right h0]
  rw [← hpasses]
  constructor
  · intro h
    have hzero := h CudaMaps.init ⟨t.pidTgid, 0, 0, 0⟩ ⟨0, 0, 0, 0, 0, 0⟩ .sync rfl
    rw [entryProbe_snd_eq_zero_iff] at hzero
    exact hzero
  · intro h maps env ctx op henv
    exact entryProbe_snd_eq_zero_iff.mpr (henv ▸ h)

/-- The off record goes by the thread id. -/
theorem recordsOut_iff {P : UInt32} (h0 : P ≠ 0) (sw : Switch n) :
    sw.RecordsOut P ↔ sw.prev.tid = P := by
  rw [Switch.RecordsOut, mem_traceSchedSwitch]
  constructor
  · rintro (⟨hsel, -, -⟩ | ⟨-, -, heq⟩)
    · exact sw.toUInt32_prevPid ▸ hsel.resolve_left h0
    · exact absurd heq (offEvent_ne_onEvent _ _ _ _)
  · intro h
    exact .inl ⟨.inr (sw.toUInt32_prevPid.trans h), rfl, rfl⟩

/-- The on record goes by the thread id. -/
theorem recordsIn_iff {P : UInt32} (h0 : P ≠ 0) {sw : Switch n}
    (hne : sw.next.tid ≠ sw.prev.tid) : sw.RecordsIn P ↔ sw.next.tid = P := by
  rw [Switch.RecordsIn, mem_traceSchedSwitch]
  constructor
  · rintro (⟨-, -, heq⟩ | ⟨hsel, -, -⟩)
    · exact absurd heq.symm (offEvent_ne_onEvent _ _ _ _)
    · exact sw.toUInt32_nextPid ▸ (hsel.resolve_left h0).2
  · intro h
    have hprev : sw.ctx.prevPid.toUInt32 ≠ P := by
      rw [sw.toUInt32_prevPid, ← h]
      exact hne.symm
    exact .inr ⟨.inr ⟨hprev, sw.toUInt32_nextPid.trans h⟩, rfl, rfl⟩

/-- The wakeup record goes by the thread id. -/
theorem wakeupRecords_iff {P : UInt32} (h0 : P ≠ 0) (wk : Wakeup n) :
    wk.Records P ↔ wk.task.tid = P := by
  constructor
  · intro h
    obtain ⟨e, he⟩ := List.exists_mem_of_ne_nil _ h
    exact wk.toUInt32_pid ▸ (mem_traceSchedWakeup.mp he).1.resolve_left h0
  · intro h
    exact List.ne_nil_of_mem
      (mem_traceSchedWakeup.mpr ⟨.inr (wk.toUInt32_pid.trans h), rfl, rfl⟩)

/-- **When the filters agree.** With a target `P`, the scheduler tracer records exactly the
events of the threads whose CUDA calls would be recorded if and only if every thread of the
run has thread id `P` exactly when its process has id `P`. -/
theorem filtersAgree_iff (h0 : cfg.targetPid ≠ 0) {start current : Placement n}
    {acts : List (SchedAct n)} (hrun : start.runs acts = some current) :
    (∀ act ∈ acts, act.FiltersAgree cfg) ↔
      ∀ act ∈ acts, ∀ t ∈ act.tasks, (t.tid = cfg.targetPid ↔ t.tgid = cfg.targetPid) := by
  refine forall₂_congr fun act hact => ?_
  cases act with
  | switch sw =>
      have hne := Placement.next_ne_prev_of_run hrun hact
      rw [SchedAct.FiltersAgree, recordsOut_iff h0, recordsIn_iff h0 hne,
        recordsCallsOf_iff h0, recordsCallsOf_iff h0, SchedAct.tasks, List.forall_mem_cons,
        List.forall_mem_singleton]
  | wakeup wk =>
      rw [SchedAct.FiltersAgree, wakeupRecords_iff h0, recordsCallsOf_iff h0,
        SchedAct.tasks, List.forall_mem_singleton]

/-- Process `100` is traced. -/
def tracedProcess : CudaTracerCfg := { CudaTracerCfg.default with targetPid := 100 }

/-- The main thread of process `100` runs between two idle periods. -/
theorem filtersAgree_iff_main_thread :
    (SchedAct.switchAt (0 : Fin 1) .idle .main100 10 (-1)).FiltersAgree
        tracedProcess ∧
      (SchedAct.switchAt (0 : Fin 1) .main100 .idle 20 (-1)).FiltersAgree
        tracedProcess := by
  have hrun : (Placement.runs (fun _ : Fin 1 => Task.idle)
      [.switchAt 0 .idle .main100 10 (-1),
        .switchAt 0 .main100 .idle 20 (-1)]).isSome := by
    decide +kernel
  obtain ⟨current, hcurrent⟩ := Option.isSome_iff_exists.mp hrun
  have hagree : ∀ act ∈ _, SchedAct.FiltersAgree tracedProcess act :=
    (filtersAgree_iff (by decide) hcurrent).mpr (by decide)
  exact ⟨hagree _ (by simp), hagree _ (by simp)⟩

/-- A worker thread of process `100` is switched in: its calls are recorded, the switch is
not. -/
theorem worker_thread_dropped :
    ¬ ∀ (n : ℕ) (cfg : CudaTracerCfg) (start current : Placement n)
      (acts : List (SchedAct n)), cfg.targetPid ≠ 0 → start.Proper →
      start.runs acts = some current → ∀ act ∈ acts, act.FiltersAgree cfg := by
  intro hall
  have hrun : (Placement.runs (fun _ : Fin 1 => Task.idle)
      [.switchAt 0 .idle .worker101 10 (-1)]).isSome := by
    decide +kernel
  obtain ⟨current, hcurrent⟩ := Option.isSome_iff_exists.mp hrun
  obtain ⟨-, hin⟩ := hall 1 tracedProcess _ current _ (by decide) (by decide) hcurrent _
    (List.mem_singleton_self _)
  have hrecords := hin.mpr ((recordsCallsOf_iff (by decide) _).mpr rfl)
  exact absurd ((recordsIn_iff (by decide) (by decide)).mp hrecords) (by decide)

end UnifiedTrace
