import Mathlib.Data.Fintype.Basic
import Mathlib.Logic.Function.Basic
import UnifiedTrace.ActionRun
import UnifiedTrace.TraceCpuSched

/-!
# Scheduler Runs

What the scheduler tracer observes: a machine with any number of CPUs, each with a current
thread, and a sequence of context switches and wakeups. A switch names the current thread
of its CPU as the outgoing one; the incoming thread is another one and, unless it is the
CPU's idle task, is not current anywhere. The idle tasks of all CPUs share thread id `0`.

Every action carries what the helpers return in the firing it causes (clock, ring
reservations, stack walk); `SchedAct.events` is what the tracer submits for it.

## Main results

* `Placement.step_switch_eq_some`: what a switch does.
* `Placement.next_ne_prev_of_run`: a switch never brings in the thread it takes off.
* `Placement.Proper.of_run`: at every moment of a run, a thread other than an idle task is
  current on at most one CPU.
-/

namespace UnifiedTrace

variable {n : ℕ}

/-! ### Actions -/

/-- A context switch on a CPU, with what the helpers return in the firing it causes. -/
structure Switch (n : ℕ) where
  cpu : Fin n
  /-- The outgoing thread. -/
  prev : Task
  /-- The incoming thread. -/
  next : Task
  prevComm : Comm
  prevState : Int64
  nextComm : Comm
  offReserve : Bool
  offNow : UInt64
  onReserve : Bool
  onNow : UInt64
  stackid : Int32

/-- A wakeup, observed on a CPU, with what the helpers return in the firing it causes. -/
structure Wakeup (n : ℕ) where
  cpu : Fin n
  /-- The woken thread. -/
  task : Task
  comm : Comm
  reserve : Bool
  now : UInt64

/-- The number a CPU goes by. -/
def cpuId (cpu : Fin n) : UInt32 := UInt32.ofNat cpu

/-- The context of the `sched_switch` tracepoint: its pid fields are thread ids. -/
def Switch.ctx (sw : Switch n) : SchedSwitchArgs where
  prevComm := sw.prevComm
  prevPid := sw.prev.tid.toInt32
  prevState := sw.prevState
  nextComm := sw.nextComm
  nextPid := sw.next.tid.toInt32

/-- The helpers during the firing. -/
def Switch.env (sw : Switch n) : SwitchEnv where
  cpu := cpuId sw.cpu
  offReserve := sw.offReserve
  offNow := sw.offNow
  onReserve := sw.onReserve
  onNow := sw.onNow
  stackid := sw.stackid

/-- The context of the `sched_wakeup` tracepoint: its pid field is a thread id. -/
def Wakeup.ctx (wk : Wakeup n) : SchedWakeupArgs where
  comm := wk.comm
  pid := wk.task.tid.toInt32

/-- The helpers during the firing. -/
def Wakeup.env (wk : Wakeup n) : WakeupEnv where
  cpu := cpuId wk.cpu
  reserve := wk.reserve
  now := wk.now

/-- The idle task of every CPU. -/
def Task.idle : Task := ⟨0, 0, by decide⟩

/-- Threads for concrete runs: two main threads and a worker of the first one's process. -/
def Task.main100 : Task := ⟨100, 100, by decide⟩

def Task.worker101 : Task := ⟨100, 101, by decide⟩

def Task.main200 : Task := ⟨200, 200, by decide⟩

/-- CPUs for concrete runs, on a machine with one and on a machine with two. -/
def onlyCpu : Fin 1 := 0

def firstCpu : Fin 2 := 0

def secondCpu : Fin 2 := 1

/-- What the scheduler does. -/
inductive SchedAct (n : ℕ)
  | switch (sw : Switch n)
  | wakeup (wk : Wakeup n)

/-- A switch of nameless threads with room in the ring for both records, the second one
tick after the first. -/
def SchedAct.switchAt (cpu : Fin n) (prev next : Task) (now : UInt64) (stackid : Int32) :
    SchedAct n :=
  switch ⟨cpu, prev, next, .empty, 0, .empty, true,
    now, true, now + 1, stackid⟩

/-- What the tracer submits for an action. -/
def SchedAct.events (targetPid : UInt32) : SchedAct n → List CpuSchedEvent
  | switch sw => traceSchedSwitch targetPid sw.ctx sw.env
  | wakeup wk => traceSchedWakeup targetPid wk.ctx wk.env

/-- What the tracer submits in a run. -/
def schedEvents (targetPid : UInt32) (acts : List (SchedAct n)) : List CpuSchedEvent :=
  acts.flatMap (SchedAct.events targetPid)

/-- The tracepoint names the thread that is switched out. -/
@[simp] theorem Switch.toUInt32_prevPid (sw : Switch n) :
    sw.ctx.prevPid.toUInt32 = sw.prev.tid :=
  UInt32.toUInt32_toInt32 sw.prev.tid

/-- The tracepoint names the thread that is switched in. -/
@[simp] theorem Switch.toUInt32_nextPid (sw : Switch n) :
    sw.ctx.nextPid.toUInt32 = sw.next.tid :=
  UInt32.toUInt32_toInt32 sw.next.tid

/-- The tracepoint names the thread that is woken. -/
@[simp] theorem Wakeup.toUInt32_pid (wk : Wakeup n) : wk.ctx.pid.toUInt32 = wk.task.tid :=
  UInt32.toUInt32_toInt32 wk.task.tid

/-! ### Placements -/

/-- The current thread of each CPU. -/
abbrev Placement (n : ℕ) := Fin n → Task

/-- No thread but the idle task is current on two CPUs. -/
def Placement.Proper (current : Placement n) : Prop :=
  ∀ c d, (current c).tid = (current d).tid → (current c).tid ≠ 0 → c = d

/-- The scheduler may perform the switch: it takes the current thread off its CPU and puts
another one there, which is an idle task or current nowhere. -/
def Switch.Allowed (sw : Switch n) (current : Placement n) : Prop :=
  sw.prev = current sw.cpu ∧ sw.next.tid ≠ sw.prev.tid ∧
    (sw.next.tid = 0 ∨ ∀ c, (current c).tid ≠ sw.next.tid)

instance (current : Placement n) : Decidable current.Proper :=
  inferInstanceAs (Decidable (∀ _, _))

instance (sw : Switch n) (current : Placement n) : Decidable (sw.Allowed current) :=
  inferInstanceAs (Decidable (_ ∧ _))

/-- The placement after an action, if the scheduler may perform it. -/
def Placement.step (current : Placement n) : SchedAct n → Option (Placement n)
  | .switch sw =>
      if sw.Allowed current then some (Function.update current sw.cpu sw.next) else none
  | .wakeup _ => some current

/-- The placement after a sequence of actions, if the scheduler may perform it. -/
def Placement.runs (start : Placement n) (acts : List (SchedAct n)) : Option (Placement n) :=
  ActionRun.run Placement.step start acts

/-- A switch puts the next thread on its CPU. -/
theorem Placement.step_switch_eq_some {current after : Placement n} {sw : Switch n} :
    current.step (.switch sw) = some after ↔
      sw.Allowed current ∧ after = Function.update current sw.cpu sw.next := by
  rw [Placement.step]
  by_cases h : sw.Allowed current
  · rw [if_pos h, Option.some.injEq]
    exact ⟨fun he => ⟨h, he.symm⟩, fun he => he.2.symm⟩
  · rw [if_neg h]
    exact ⟨fun he => absurd he (by simp), fun he => absurd he.1 h⟩

/-- A wakeup moves no thread. -/
theorem Placement.step_wakeup_eq_some {current after : Placement n} {wk : Wakeup n} :
    current.step (.wakeup wk) = some after ↔ after = current := by
  rw [Placement.step, Option.some.injEq, eq_comm]

/-- A switch puts a thread on its CPU that was current nowhere. -/
theorem Placement.Proper.of_step {current after : Placement n} {act : SchedAct n}
    (h : current.Proper) (hstep : current.step act = some after) : after.Proper := by
  cases act with
  | wakeup wk =>
      obtain rfl := step_wakeup_eq_some.mp hstep
      exact h
  | switch sw =>
      obtain ⟨⟨-, -, hnext⟩, rfl⟩ := step_switch_eq_some.mp hstep
      intro c d htid hne
      by_cases hc : c = sw.cpu
      · by_cases hd : d = sw.cpu
        · rw [hc, hd]
        · subst hc
          rw [Function.update_self] at htid hne
          rw [Function.update_of_ne hd] at htid
          exact absurd htid.symm (hnext.resolve_left hne d)
      · by_cases hd : d = sw.cpu
        · subst hd
          rw [Function.update_of_ne hc, Function.update_self] at htid
          rw [Function.update_of_ne hc] at hne
          exact absurd htid (hnext.resolve_left (htid ▸ hne) c)
        · rw [Function.update_of_ne hc, Function.update_of_ne hd] at htid
          rw [Function.update_of_ne hc] at hne
          exact h c d htid hne

/-- **One CPU at a time**: at every moment of a run a thread other than an idle task is
current on at most one CPU. -/
theorem Placement.Proper.of_run {start current : Placement n} {acts : List (SchedAct n)}
    (h : start.Proper) (hrun : start.runs acts = some current) : current.Proper :=
  ActionRun.run_invariant (I := Placement.Proper) h
    (fun _ _ _ _ hproper hstep => hproper.of_step hstep) hrun

/-- Every switch of a run brings in another thread. -/
theorem Placement.next_ne_prev_of_run {start current : Placement n}
    {acts : List (SchedAct n)} (hrun : start.runs acts = some current) {sw : Switch n}
    (hsw : .switch sw ∈ acts) : sw.next.tid ≠ sw.prev.tid := by
  obtain ⟨pre, post, rfl⟩ := List.append_of_mem hsw
  obtain ⟨u, -, hpost⟩ := ActionRun.run_append_eq_some.mp hrun
  obtain ⟨v, hstep, -⟩ := Option.bind_eq_some_iff.mp hpost
  exact (step_switch_eq_some.mp hstep).1.2.1

end UnifiedTrace
