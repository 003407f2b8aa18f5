import UnifiedTrace.CallRun
import UnifiedTrace.EventRecords
import UnifiedTrace.Schedule

/-!
# The Identity of a Thread in Both Tracers

The CUDA tracer splits `bpf_get_current_pid_tgid`, so its events carry the process id as pid
and the thread id as tid. The tracepoints of the scheduler report thread ids only, and the
scheduler tracer puts them into both fields. A worker thread is therefore shown under its own
thread id by one tracer and under its process by the other.

## Main results

* `PidsOk.of_run`: in every run a CUDA event carries the two halves of its caller's identity.
* `pid_of_mem_sources`: a scheduling event carries the thread id as pid.
* `oneIdentity_iff`: the records of every thread carry its process id exactly when all
  threads with scheduling records are main threads.
-/

namespace UnifiedTrace

/-! ### The CUDA tracer -/

namespace CallWorld

variable {cfg : CudaTracerCfg} {w w' : CallWorld}

/-- Slots and events carry the identity of their thread. -/
structure PidsOk (w : CallWorld) : Prop where
  slot : ∀ k info, w.maps.cudaCalls.lookup k = some info → info.pid = pidOf k
  event : ∀ r ∈ w.returned, ∀ e, r.event = some e → e.pid = pidOf r.key ∧ e.tid = tidOf r.key

/-- No event has been submitted. -/
theorem PidsOk.init : PidsOk init where
  slot := by intro k info h; exact absurd h (by simp [CallWorld.init, CudaMaps.init])
  event := by intro r hr; exact absurd hr (by simp [CallWorld.init])

/-- An entry stores the identity of its thread. -/
theorem PidsOk.entered {a : EnterAct} (hw : PidsOk w) (cs : List Call) :
    PidsOk (w.entered cfg a cs) := by
  refine ⟨?_, hw.event⟩
  intro k info hinfo
  rcases lookup_entered_cases hinfo with ⟨rfl, hsaved⟩ | ⟨hold, -⟩
  · exact (of_savedBy_eq_some hsaved).2.pid
  · exact hw.slot k info hold

/-- A return submits the identity that is stored. -/
theorem PidsOk.left {a : LeaveAct} (hw : PidsOk w) (c : Call) (cs : List Call) :
    PidsOk (w.left a c cs) := by
  refine ⟨fun k info hinfo => hw.slot k info (lookup_left_cases hinfo).1, ?_⟩
  intro r hr e he
  rcases List.mem_append.mp hr with hr | hr
  · exact hw.event r hr e he
  · obtain rfl := List.mem_singleton.mp hr
    obtain ⟨-, info, hinfo, -, -, rfl⟩ := fireReturn_eq_some_iff.mp he
    exact ⟨hw.slot _ info hinfo, rfl⟩

/-- Every action keeps the identities right. -/
theorem PidsOk.of_step {act : CallAct} (hw : PidsOk w) (h : step cfg w act = some w') :
    PidsOk w' := by
  cases act with
  | spawn k =>
      obtain ⟨-, rfl⟩ := step_spawn_eq_some h
      exact ⟨hw.slot, hw.event⟩
  | exit k =>
      obtain rfl := step_exit_eq_some h
      exact ⟨hw.slot, hw.event⟩
  | enter a =>
      obtain ⟨cs, -, -, -, rfl⟩ := step_enter_eq_some h
      exact hw.entered cs
  | leave a =>
      obtain ⟨c, cs, -, -, -, -, rfl⟩ := step_leave_eq_some h
      exact hw.left c cs

/-- **CUDA events carry their caller's identity**, in every run. -/
theorem PidsOk.of_run {acts : List CallAct} (h : runs cfg acts = some w) : PidsOk w :=
  ActionRun.run_invariant PidsOk.init (fun _ _ _ _ hu hstep => hu.of_step hstep) h

end CallWorld

/-! ### The scheduler tracer -/

variable {n : ℕ}

/-- What the tracer submits for an action, with the thread each event is about. -/
def SchedAct.sources (targetPid : UInt32) : SchedAct n → List (Task × CpuSchedEvent)
  | switch sw =>
      (traceSchedSwitch targetPid sw.ctx sw.env).map fun e =>
        (if e.eventType = cpuSchedOff then sw.prev else sw.next, e)
  | wakeup wk => (traceSchedWakeup targetPid wk.ctx wk.env).map fun e => (wk.task, e)

/-- The sources are those of the submitted events. -/
theorem SchedAct.map_snd_sources (targetPid : UInt32) (act : SchedAct n) :
    (act.sources targetPid).map Prod.snd = act.events targetPid := by
  cases act with
  | switch sw => rw [sources, List.map_map]; exact List.map_id _
  | wakeup wk => rw [sources, List.map_map]; exact List.map_id _

/-- **Scheduling events carry the thread id twice.** -/
theorem pid_of_mem_sources {targetPid : UInt32} {act : SchedAct n} {t : Task}
    {e : CpuSchedEvent} (h : (t, e) ∈ act.sources targetPid) : e.pid = t.tid ∧ e.tid = t.tid := by
  cases act with
  | switch sw =>
      obtain ⟨e', he', heq⟩ := List.mem_map.mp h
      obtain ⟨ht, rfl⟩ := Prod.mk.inj heq
      rcases mem_traceSchedSwitch.mp he' with ⟨-, -, rfl⟩ | ⟨-, -, rfl⟩
      · obtain rfl : sw.prev = t := ht
        exact ⟨sw.toUInt32_prevPid, sw.toUInt32_prevPid⟩
      · obtain rfl : sw.next = t := ht
        exact ⟨sw.toUInt32_nextPid, sw.toUInt32_nextPid⟩
  | wakeup wk =>
      obtain ⟨e', he', heq⟩ := List.mem_map.mp h
      obtain ⟨rfl, rfl⟩ := Prod.mk.inj heq
      obtain ⟨-, -, rfl⟩ := mem_traceSchedWakeup.mp he'
      exact ⟨wk.toUInt32_pid, wk.toUInt32_pid⟩

/-! ### Both in one file -/

/-- Every record for a thread carries its process id: those of the scheduling events that the
trace-all mode submits for it, and those of the CUDA events submitted under its identity. -/
structure OneIdentity (env : StackEnv) (acts : List (SchedAct n)) (w : CallWorld)
    (events : List UnifiedEvent) : Prop where
  cpu : ∀ act ∈ acts, ∀ t e, (t, e) ∈ act.sources 0 →
    ∀ r, (.cpu e, r) ∈ fileEventRecords env events → r.row.1 = t.tgid
  gpu : ∀ t : Task, ∀ ret ∈ w.returned, ret.key = t.pidTgid → ∀ e, ret.event = some e →
    ∀ r, (.gpu e, r) ∈ fileEventRecords env events → r.row.1 = t.tgid

/-- **When a thread has one identity across both tracers**: exactly when every thread with a
scheduling record is the main thread of its process. -/
theorem oneIdentity_iff {cfg : CudaTracerCfg} {calls : List CallAct} {w : CallWorld}
    (hcalls : CallWorld.runs cfg calls = some w) (env : StackEnv) (acts : List (SchedAct n))
    (events : List UnifiedEvent) :
    OneIdentity env acts w events ↔
      ∀ act ∈ acts, ∀ t e, (t, e) ∈ act.sources 0 → HasRecord events e → t.tid = t.tgid := by
  constructor
  · intro h act hact t e hte hrec
    obtain ⟨hpid, htid⟩ := pid_of_mem_sources hte
    have hlen : e.tid < cpuOnTimeLen := htid ▸ UInt32.lt_of_le_of_lt t.tid_le (by decide)
    obtain ⟨r, hr⟩ := (exists_record_cpu_iff hlen).mpr hrec
    have hrow := h.cpu act hact t e hte r hr
    rw [row_of_mem_cpu hr] at hrow
    exact hpid.symm.trans hrow
  · intro h
    refine ⟨?_, ?_⟩
    · intro act hact t e hte r hr
      obtain ⟨hpid, htid⟩ := pid_of_mem_sources hte
      have hlen : e.tid < cpuOnTimeLen := htid ▸ UInt32.lt_of_le_of_lt t.tid_le (by decide)
      have hrec := (exists_record_cpu_iff hlen).mp ⟨r, hr⟩
      rw [row_of_mem_cpu hr]
      exact hpid.trans (h act hact t e hte hrec)
    · intro t ret hret hkey e he r hr
      have hpid := ((CallWorld.PidsOk.of_run hcalls).event ret hret e he).1
      obtain ⟨i, rfl⟩ := record_of_mem_gpu hr
      change e.pid = t.tgid
      rw [hpid, hkey, pidOf_pidTgid]

/-- A thread is switched in on an idle machine. -/
def switchIn (t : Task) : Switch 1 :=
  ⟨onlyCpu, .idle, t, .empty, 0, .empty, true, 9, true, 10, -1⟩

/-- Nothing else is scheduled. -/
def switchedIn (t : Task) : List (SchedAct 1) := [.switch (switchIn t)]

/-- Then it synchronises. -/
def oneSync (t : Task) : List CallAct :=
  [.spawn t.pidTgid, .enterAt t.pidTgid 12 1 .sync true, .leaveAt t.pidTgid 13 1 .sync true]

/-- What both tracers submit. -/
def switchedInAndSync (t : Task) (w : CallWorld) : List UnifiedEvent :=
  (schedEvents 0 (switchedIn t)).map .cpu ++ w.cudaEvents.map .gpu

/-- The main thread has its process id on both kinds of records. -/
theorem oneIdentity_iff_main_thread :
    ∃ w, CallWorld.runs CudaTracerCfg.default (oneSync .main100) = some w ∧
      (switchedInAndSync .main100 w).map UnifiedEvent.timestamp = [9, 10, 12] ∧
      OneIdentity .noStacks (switchedIn .main100) w (switchedInAndSync .main100 w) := by
  have hmap : (CallWorld.runs CudaTracerCfg.default (oneSync .main100)).map
      (fun w => (switchedInAndSync .main100 w).map UnifiedEvent.timestamp) =
        some [9, 10, 12] := by decide +kernel
  obtain ⟨w, hrun, htimes⟩ := Option.map_eq_some_iff.mp hmap
  refine ⟨w, hrun, htimes, (oneIdentity_iff hrun ..).mpr ?_⟩
  rintro act hact t e hte -
  obtain rfl := List.mem_singleton.mp hact
  have hsources : ∀ te ∈ (SchedAct.switch (switchIn .main100)).sources 0,
      te.1.tid = te.1.tgid := by decide +kernel
  exact hsources (t, e) hte

/-- The rows of a worker thread: scheduling under pid `101`, calls under pid `100`. -/
theorem worker_thread_split :
    ∃ w, CallWorld.runs CudaTracerCfg.default (oneSync .worker101) = some w ∧
      (Placement.runs (fun _ => Task.idle) (switchedIn .worker101)).isSome ∧
      IsSortOf (switchedInAndSync .worker101 w) (switchedInAndSync .worker101 w) ∧
      (fileEventRecords .noStacks (switchedInAndSync .worker101 w)).map (fun er => er.2.row) =
        [(101, 101), (100, 1000101)] ∧
      ¬ OneIdentity .noStacks (switchedIn .worker101) w
        (switchedInAndSync .worker101 w) := by
  have hmap : (CallWorld.runs CudaTracerCfg.default (oneSync .worker101)).map
      (fun w => w.cudaEvents.map fun e => (e.timestamp, e.pid, e.tid, e.streamId)) =
        some [(12, 100, 101, 0)] := by decide +kernel
  obtain ⟨w, hrun, hevents⟩ := Option.map_eq_some_iff.mp hmap
  obtain ⟨e, he, hfields⟩ := List.map_eq_singleton_iff.mp hevents
  simp only [Prod.mk.injEq] at hfields
  obtain ⟨htime, hpid, htid, hstream⟩ := hfields
  have hall : switchedInAndSync .worker101 w =
      (schedEvents 0 (switchedIn .worker101)).map .cpu ++ [.gpu e] := by
    rw [switchedInAndSync, he]
    rfl
  refine ⟨w, hrun, by decide +kernel, ?_, ?_, ?_⟩
  · rw [hall, isSortOf_iff]
    refine ⟨List.Perm.refl _, List.pairwise_append.mpr ⟨by decide +kernel, by simp, ?_⟩⟩
    intro a ha b hb
    obtain rfl := List.mem_singleton.mp hb
    rw [UnifiedEvent.timestamp, htime]
    revert a
    decide +kernel
  · rw [hall]
    change [((101 : UInt32), (101 : UInt32)),
      (e.pid, e.tid + 1000000 + streamOffset e.streamId)] = _
    rw [hpid, htid, hstream]
    rfl
  · intro h
    have hon : HasRecord (switchedInAndSync .worker101 w)
        (onEvent (switchIn .worker101).ctx (switchIn .worker101).env) := by
      rw [hall]
      exact ⟨[.cpu (offEvent (switchIn .worker101).ctx (switchIn .worker101).env)], [.gpu e],
        rfl, .inl rfl⟩
    obtain ⟨r, hr⟩ := (@exists_record_cpu_iff .noStacks _ _ (by decide)).mpr hon
    have hrow := h.cpu _ (List.mem_singleton_self _) .worker101 _
      (List.mem_cons_of_mem _ (List.mem_singleton_self _)) r hr
    rw [row_of_mem_cpu hr] at hrow
    exact absurd hrow (by decide)

end UnifiedTrace
