import UnifiedTrace.Schedule
import UnifiedTrace.TraceCuda

/-!
# Whose Stack an Event Shows

Both tracers on one machine. `bpf_get_stackid` with `BPF_F_USER_STACK` walks the stack of
the thread that is current on the CPU of the firing. A CUDA probe fires with the calling
thread current, so the stack it saves is the caller's own. The `sched_switch` tracepoint
fires while the outgoing thread is still current, so the stack in an on record, which names
the incoming thread, is the one of the outgoing thread.

The world carries two ghosts beside the maps of the programs: for each slot of `cuda_calls`
the thread whose stack was walked when it was filled, and for each submitted event that
thread beside the thread the event names.

## Main results

* `WalkedOk.of_run`: the stack kept in a slot of `cuda_calls` is of the thread whose key the
  slot has.
* `stacksOwned_iff`: every stack belongs to the thread it is shown on exactly when no on
  record is submitted with a stack of another thread than the incoming one.
* `switch_in_shows_outgoing_stack`: it does not in general.
-/

namespace UnifiedTrace

variable {n : ℕ}

/-- An event with a stack field, and whose stack it is. -/
structure Shown where
  /-- The thread the event names. -/
  tid : UInt32
  stackId : Int32
  /-- The thread whose stack was walked for the event; `none` where none was. -/
  stackOf : Option Task

/-- A machine with both tracers attached. -/
structure TracerWorld (n : ℕ) where
  current : Placement n
  maps : CudaMaps
  /-- Whose stack was walked for the call in a slot of `cuda_calls`. -/
  walked : UInt64 → Option Task
  /-- The submitted events of both rings, oldest first. -/
  shown : List Shown

/-- The world when tracing starts. -/
def TracerWorld.init (start : Placement n) : TracerWorld n where
  current := start
  maps := CudaMaps.init
  walked := fun _ => none
  shown := []

/-- What happens on the machine: the scheduler acts, or a CUDA probe fires on a CPU. -/
inductive TracerAct (n : ℕ)
  | sched (act : SchedAct n)
  /-- An entry probe, with the clock and the result of a stack walk. -/
  | cudaEntry (cpu : Fin n) (op : CudaOp) (ctx : PtRegs) (now : UInt64) (stackid : Int32)
  /-- A return probe, with the clock, the reservation and the caller's name. -/
  | cudaReturn (cpu : Fin n) (op : CudaOp) (ctx : PtRegs) (now : UInt64) (reserve : Bool)
      (comm : Comm)

namespace TracerWorld

/-- The helpers during an entry probe on a CPU: the current thread calls. -/
def entryEnv (w : TracerWorld n) (cpu : Fin n) (now : UInt64) (stackid : Int32) :
    EntryEnv where
  pidTgid := (w.current cpu).pidTgid
  now
  cpu := cpuId cpu
  stackid

/-- The helpers during a return probe on a CPU: the current thread returns. -/
def returnEnv (w : TracerWorld n) (cpu : Fin n) (now : UInt64) (reserve : Bool)
    (comm : Comm) : ReturnEnv where
  pidTgid := (w.current cpu).pidTgid
  now
  reserve
  comm

/-- The events a scheduler action submits, with the walked stack: that of the thread current
while the program runs. -/
def shownBy (targetPid : UInt32) (current : Placement n) (act : SchedAct n) : List Shown :=
  (act.events targetPid).map fun e =>
    { tid := e.tid, stackId := e.stackId,
      stackOf :=
        match act with
        | .switch sw => some (current sw.cpu)
        | .wakeup wk => some (current wk.cpu) }

/-- One action, if it is possible. -/
def step (cfg : CudaTracerCfg) (w : TracerWorld n) : TracerAct n → Option (TracerWorld n)
  | .sched act =>
      (w.current.step act).map fun after =>
        { w with
          current := after
          shown := w.shown ++ shownBy cfg.targetPid w.current act }
  | .cudaEntry cpu op ctx now stackid =>
      let env := w.entryEnv cpu now stackid
      let captured := maybeCaptureStack cfg w.maps env op.entryFlags
      some { w with
        maps := (entryProbe cfg w.maps env ctx op).1
        walked :=
          if cfg.Passes env.pidTgid then
            Function.update w.walked env.pidTgid (captured.2.map fun _ => w.current cpu)
          else
            w.walked }
  | .cudaReturn cpu op ctx now reserve comm =>
      let env := w.returnEnv cpu now reserve comm
      let fired := returnProbe op w.maps env ctx
      some { w with
        maps := fired.1
        shown := w.shown ++ fired.2.toList.map fun e =>
          { tid := e.tid, stackId := e.stackId, stackOf := w.walked env.pidTgid } }

/-- The world after a sequence of actions, if it is possible. -/
def runs (cfg : CudaTracerCfg) (start : Placement n) (acts : List (TracerAct n)) :
    Option (TracerWorld n) :=
  ActionRun.run (step cfg) (init start) acts

end TracerWorld

/-- The event's stack, if it has one, is of the thread the event names. -/
def Shown.Owned (s : Shown) : Prop := 0 ≤ s.stackId → ∃ t, s.stackOf = some t ∧ t.tid = s.tid

/-- An event without a stack shows no one else's. -/
theorem Shown.owned_of_stackId_neg {s : Shown} (h : s.stackId = -1) : s.Owned := by
  intro hsid
  rw [h] at hsid
  exact absurd hsid (by decide)

/-- Every stack belongs to the thread it is shown on. -/
def TracerWorld.StacksOwned (w : TracerWorld n) : Prop := ∀ s ∈ w.shown, s.Owned

/-- No on record of the action is submitted with a stack. -/
def TracerAct.ShowsNoSwitchInStack (targetPid : UInt32) (act : TracerAct n) : Prop :=
  ∀ sw, act = .sched (.switch sw) → SelectsOn targetPid sw.ctx → sw.onReserve = true →
    sw.stackid < 0

variable {cfg : CudaTracerCfg}

namespace TracerWorld

/-! ### Stacks kept in the slots -/

/-- The stack kept in a slot, if any, is of a thread with the slot's key. -/
def WalkedOk (w : TracerWorld n) : Prop :=
  ∀ key info, w.maps.cudaCalls.lookup key = some info → 0 ≤ info.stackId →
    ∃ t, w.walked key = some t ∧ t.pidTgid = key

/-- The map starts empty. -/
theorem WalkedOk.init (start : Placement n) : (init start).WalkedOk := by
  intro key info hl
  rw [TracerWorld.init, CudaMaps.init, BoundedMap.lookup_empty] at hl
  exact absurd hl (by simp)

/-- Every action keeps the stacks in the slots of the threads that own them. -/
theorem WalkedOk.of_step {w w' : TracerWorld n} {act : TracerAct n} (h : w.WalkedOk)
    (hstep : step cfg w act = some w') : w'.WalkedOk := by
  cases act with
  | sched act =>
      obtain ⟨after, -, rfl⟩ := Option.map_eq_some_iff.mp hstep
      exact h
  | cudaEntry cpu op ctx now stackid =>
      obtain rfl := Option.some.inj hstep
      obtain ⟨size, ptr, streamId, heq⟩ := entryProbe_eq cfg ctx op
      intro key info hl hsid
      dsimp only at hl ⊢
      rw [heq] at hl
      rcases em (cfg.Passes (w.entryEnv cpu now stackid).pidTgid) with hp | hp
      · rw [if_pos hp]
        rcases eq_or_ne key (w.entryEnv cpu now stackid).pidTgid with rfl | hk
        · -- the slot was just filled, if it was not refused
          rw [recordEntry_of_passes hp] at hl
          have hstored := (lookup_setCall _ _ _).resolve_right
            (fun hnone => absurd (hl.symm.trans hnone) (by simp))
          obtain rfl := Option.some.inj (hl.symm.trans hstored)
          rw [Function.update_self]
          cases hc : (maybeCaptureStack cfg w.maps (w.entryEnv cpu now stackid)
              op.entryFlags).2 with
          | none =>
              rw [hc] at hsid
              exact absurd hsid (by simp [callInfo])
          | some sid => exact ⟨w.current cpu, rfl, rfl⟩
        · rw [lookup_recordEntry_ne _ _ _ _ _ hk] at hl
          rw [Function.update_of_ne hk]
          exact h key info hl hsid
      · rw [recordEntry_of_filtered hp] at hl
        rw [if_neg hp]
        exact h key info hl hsid
  | cudaReturn cpu op ctx now reserve comm =>
      obtain rfl := Option.some.inj hstep
      intro key info hl hsid
      refine h key info ?_ hsid
      rcases submitEvent_fst w.maps (w.returnEnv cpu now reserve comm) ctx op.code with
        hdel | ⟨hsame, -⟩
      · change (submitEvent _ _ _ _).1.cudaCalls.lookup key = some info at hl
        rw [hdel] at hl
        rcases eq_or_ne key (w.returnEnv cpu now reserve comm).pidTgid with rfl | hk
        · exact absurd (hl.symm.trans (lookup_deleteCall _)) (by simp)
        · rwa [lookup_deleteCall_ne hk] at hl
      · change (submitEvent _ _ _ _).1.cudaCalls.lookup key = some info at hl
        rwa [hsame] at hl

/-- Slots keep only the stacks of their own threads. -/
theorem WalkedOk.of_run {start : Placement n} {acts : List (TracerAct n)}
    {w : TracerWorld n} (hrun : runs cfg start acts = some w) : w.WalkedOk :=
  ActionRun.run_invariant (I := WalkedOk) (.init start)
    (fun _ _ _ _ hok hstep => hok.of_step hstep) hrun

/-! ### Stacks shown -/

/-- What a scheduler action shows is owned exactly when it shows no stack on a switch-in. -/
theorem forall_shownBy_owned_iff {current after : Placement n} {act : SchedAct n}
    (hstep : current.step act = some after) (targetPid : UInt32) :
    (∀ s ∈ shownBy targetPid current act, s.Owned) ↔
      (TracerAct.sched act).ShowsNoSwitchInStack targetPid := by
  cases act with
  | wakeup wk =>
      refine iff_of_true ?_ fun sw h => absurd h (by simp)
      intro s hs
      obtain ⟨e, he, rfl⟩ := List.mem_map.mp hs
      obtain ⟨-, -, rfl⟩ := mem_traceSchedWakeup.mp he
      exact Shown.owned_of_stackId_neg rfl
  | switch sw =>
      obtain ⟨⟨hprev, hne, -⟩, -⟩ := Placement.step_switch_eq_some.mp hstep
      constructor
      · rintro h sw' hsw hsel hres
        obtain rfl : sw = sw' := by simpa using hsw
        refine Int32.not_le.mp fun hsid => ?_
        obtain ⟨t, ht, htid⟩ := h _ (List.mem_map_of_mem
          (mem_traceSchedSwitch.mpr (.inr ⟨hsel, hres, rfl⟩))) hsid
        obtain rfl := Option.some.inj ht
        rw [← hprev] at htid
        exact hne (htid.trans sw.toUInt32_nextPid).symm
      · intro h s hs
        obtain ⟨e, he, rfl⟩ := List.mem_map.mp hs
        rcases mem_traceSchedSwitch.mp he with ⟨-, -, rfl⟩ | ⟨hsel, hres, rfl⟩
        · exact Shown.owned_of_stackId_neg rfl
        · exact fun hsid => absurd hsid (Int32.not_le.mpr (h sw rfl hsel hres))

/-- What a CUDA return shows is owned. -/
theorem forall_submitted_owned {w : TracerWorld n} (hok : w.WalkedOk) (env : ReturnEnv)
    (ctx : PtRegs) (opType : UInt32) :
    ∀ e ∈ (submitEvent w.maps env ctx opType).2,
      Shown.Owned { tid := e.tid, stackId := e.stackId, stackOf := w.walked env.pidTgid } := by
  intro e he hsid
  obtain ⟨info, hl, -, -, rfl⟩ := submitEvent_eq_some_iff.mp he
  obtain ⟨u, hu, hkey⟩ := hok _ info hl hsid
  refine ⟨u, hu, ?_⟩
  change u.tid = tidOf env.pidTgid
  rw [← hkey, tidOf_pidTgid]

/-- A step keeps all stacks owned exactly when they were and it shows none on a
switch-in. -/
theorem stacksOwned_of_step {w w' : TracerWorld n} {act : TracerAct n} (hok : w.WalkedOk)
    (hstep : step cfg w act = some w') :
    w'.StacksOwned ↔ w.StacksOwned ∧ act.ShowsNoSwitchInStack cfg.targetPid := by
  cases act with
  | sched act =>
      obtain ⟨after, hsched, rfl⟩ := Option.map_eq_some_iff.mp hstep
      rw [← forall_shownBy_owned_iff hsched]
      exact List.forall_mem_append
  | cudaEntry cpu op ctx now stackid =>
      obtain rfl := Option.some.inj hstep
      exact (and_iff_left fun sw h => absurd h (by simp)).symm
  | cudaReturn cpu op ctx now reserve comm =>
      obtain rfl := Option.some.inj hstep
      refine List.forall_mem_append.trans (and_congr_right fun _ => ?_)
      refine iff_of_true (fun s hs => ?_) fun sw h => absurd h (by simp)
      obtain ⟨e, he, rfl⟩ := List.mem_map.mp hs
      exact forall_submitted_owned hok _ ctx op.code e (Option.mem_toList.mp he)

end TracerWorld

/-- **Whose stacks are shown.** Every event submitted with a stack shows the stack of the
thread it names exactly when no switch-in that is recorded gets a stack at all. -/
theorem stacksOwned_iff {start : Placement n} {acts : List (TracerAct n)}
    {w : TracerWorld n} (hrun : TracerWorld.runs cfg start acts = some w) :
    w.StacksOwned ↔ ∀ act ∈ acts, act.ShowsNoSwitchInStack cfg.targetPid := by
  refine (ActionRun.run_history (I := fun pre u => u.WalkedOk ∧
    (u.StacksOwned ↔ ∀ act ∈ pre, act.ShowsNoSwitchInStack cfg.targetPid))
    ⟨.init start, ?_⟩ ?_ hrun).2
  · exact iff_of_true (fun s hs => absurd hs List.not_mem_nil)
      fun act hact => absurd hact List.not_mem_nil
  · rintro pre act u v - ⟨hok, hiff⟩ hstep
    refine ⟨hok.of_step hstep, ?_⟩
    rw [TracerWorld.stacksOwned_of_step hok hstep, hiff, List.forall_mem_append,
      List.forall_mem_singleton]

/-- On CPU `0` a thread of a GPU process synchronises, with its stack captured, and gives
way to a thread of another process; nothing is captured on the switch. -/
def syncThenSwitch (stackid : Int32) : List (TracerAct 1) :=
  [.cudaEntry onlyCpu .sync ⟨0, 0, 0, 0, 0, 0⟩ 10 7,
    .cudaReturn onlyCpu .sync ⟨0, 0, 0, 0, 0, 0⟩ 20 true .empty,
    .sched (.switchAt onlyCpu .worker101 .main200 30 stackid)]

/-- The one switch-in has no stack, so every stack shown is of the thread named. -/
theorem stacksOwned_iff_sync_then_switch :
    ∃ w, TracerWorld.runs CudaTracerCfg.default (fun _ => .worker101)
        (syncThenSwitch (-14)) = some w ∧
      w.shown.map (fun s => (s.tid, s.stackId)) = [(101, 7), (101, -1), (200, -14)] ∧
      w.StacksOwned := by
  have hmap : (TracerWorld.runs CudaTracerCfg.default (fun _ => .worker101)
      (syncThenSwitch (-14))).map (fun w => w.shown.map fun s => (s.tid, s.stackId)) =
        some [(101, 7), (101, -1), (200, -14)] := by
    decide +kernel
  obtain ⟨w, hrun, hshown⟩ := Option.map_eq_some_iff.mp hmap
  refine ⟨w, hrun, hshown, (stacksOwned_iff hrun).mpr ?_⟩
  rintro act hact sw rfl - -
  -- the first two actions are a call
  have hswitch : TracerAct.sched (.switch sw) =
      .sched (.switchAt onlyCpu .worker101 .main200 30 (-14)) := by
    simpa [syncThenSwitch] using hact
  obtain rfl := SchedAct.switch.inj (TracerAct.sched.inj hswitch)
  decide

/-- When the walk on the switch succeeds, the on record of thread `200` shows the stack of
thread `101`. -/
theorem switch_in_shows_outgoing_stack :
    ¬ ∀ (n : ℕ) (cfg : CudaTracerCfg) (start : Placement n) (acts : List (TracerAct n))
      (w : TracerWorld n), start.Proper → TracerWorld.runs cfg start acts = some w →
      w.StacksOwned := by
  intro hall
  have hmap : (TracerWorld.runs CudaTracerCfg.default (fun _ => .worker101)
      (syncThenSwitch 8)).map (fun w => w.shown.map fun s =>
        (s.tid, s.stackId, s.stackOf.map Task.tid)) =
          some [(101, 7, some 101), (101, -1, some 101), (200, 8, some 101)] := by
    decide +kernel
  obtain ⟨w, hrun, hshown⟩ := Option.map_eq_some_iff.mp hmap
  have howned := hall 1 _ _ _ w (by decide) hrun
  have hmem : (200, (8 : Int32), some 101) ∈
      w.shown.map fun s => (s.tid, s.stackId, s.stackOf.map Task.tid) := by
    rw [hshown]
    decide
  obtain ⟨s, hs, heq⟩ := List.mem_map.mp hmem
  obtain ⟨htid, hsid, hof⟩ : s.tid = 200 ∧ s.stackId = 8 ∧ s.stackOf.map Task.tid = some 101 := by
    simpa using heq
  obtain ⟨t, ht, hown⟩ := howned s hs (by rw [hsid]; decide)
  rw [ht, Option.map_some, hown, htid] at hof
  exact absurd hof (by decide)

end UnifiedTrace
