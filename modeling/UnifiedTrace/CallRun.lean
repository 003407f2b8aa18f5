import UnifiedTrace.ActionRun
import UnifiedTrace.TraceCuda

/-!
# Runs of Traced CUDA Calls

The system the CUDA tracer lives in: any number of threads, named by their `pid_tgid`,
each making traced calls that nest properly, while the probes of `UnifiedTrace.TraceCuda`
fire on entries and returns. A run is a list of actions in the order in which they happen
on the machine; every interleaving is such a list.

* `spawn k`, `exit k`: a thread with identity `k` appears or disappears. A thread may
  disappear in the middle of a call (it was killed), and its identity may be used again.
* `enter a`: a thread enters a traced call. The entry probe fires or, when it is not
  attached or the firing is missed, does not (`a.fires`).
* `leave a`: the innermost call of a thread returns, and the return probe fires or not.

The `n`-th call a `pid_tgid` ever enters has index `n`, so a call is named by its thread
identity and its index even when identities are reused. What the probes do never depends
on the indices: they and the records `Call.env`, `Call.ctx`, `Call.saved` and `filledBy` only
tell, for the theorems, which call a map entry came from and how that call was made.

## Main results

* `CallWorld.step_enter_eq_some`, `CallWorld.step_leave_eq_some`: what each action
  requires and does.
* `CallWorld.NamesOk.of_run`: calls are named uniquely, and each returns at most once.
* `CallWorld.CallsOk.of_step`: what an open call saved is what its own entry stored.
-/

namespace UnifiedTrace

/-! ### Calls, threads and actions -/

/-- A traced call in progress. -/
structure Call where
  /-- Its position among all calls its `pid_tgid` ever entered, counted from `1`. -/
  index : ℕ
  op : CudaOp
  /-- The circumstances of its entry. -/
  env : EntryEnv
  /-- The registers at its entry. -/
  ctx : PtRegs
  /-- What its own entry probe stored in `cuda_calls`; `none` when the probe did not fire,
  filtered the process out, or was refused by a full map. -/
  saved : Option CudaCallInfo
  deriving DecidableEq

/-- A traced call that returned. -/
structure Returned where
  key : UInt64
  call : Call
  /-- The time of the return. -/
  now : UInt64
  /-- The result register at the return. -/
  rc : UInt64
  /-- How many traced calls its thread entered between its entry and its return. -/
  inner : ℕ
  /-- The event its return probe submitted, if any. -/
  event : Option CudaEvent
  /-- The call whose entry probe filled the slot that the return probe read. -/
  source : Option ℕ
  deriving DecidableEq

/-- The name of a returned call: thread identity and index. -/
def Returned.name (r : Returned) : UInt64 × ℕ := (r.key, r.call.index)

/-- A thread enters a traced call. -/
structure EnterAct where
  env : EntryEnv
  ctx : PtRegs
  call : ℕ
  op : CudaOp
  /-- Whether the entry probe fires. -/
  fires : Bool

/-- The innermost traced call of a thread returns. -/
structure LeaveAct where
  env : ReturnEnv
  ctx : PtRegs
  call : ℕ
  op : CudaOp
  /-- Whether the return probe fires. -/
  fires : Bool

/-- What can happen next. -/
inductive CallAct
  | spawn (key : UInt64)
  | exit (key : UInt64)
  | enter (a : EnterAct)
  | leave (a : LeaveAct)

/-- The entry of a call with all arguments zero, at a given time on CPU `0`. -/
def CallAct.enterAt (key now : UInt64) (call : ℕ) (op : CudaOp) (fires : Bool) : CallAct :=
  enter ⟨⟨key, now, 0, -1⟩, ⟨0, 0, 0, 0, 0, 0⟩, call, op, fires⟩

/-- The return of a call with result zero, at a given time and with room in the ring. -/
def CallAct.leaveAt (key now : UInt64) (call : ℕ) (op : CudaOp) (fires : Bool) : CallAct :=
  leave ⟨⟨key, now, true, .empty⟩, ⟨0, 0, 0, 0, 0, 0⟩, call, op, fires⟩

/-- The thread an action concerns. -/
def CallAct.key : CallAct → UInt64
  | spawn k => k
  | exit k => k
  | enter a => a.env.pidTgid
  | leave a => a.env.pidTgid

/-- The maps of the tracer, the threads with their stacks of open calls, innermost first,
and the record of what happened. -/
structure CallWorld where
  maps : CudaMaps
  /-- The time of the last firing; the clock never goes back. -/
  clock : UInt64
  /-- `none`: no thread has this identity. -/
  stack : UInt64 → Option (List Call)
  /-- How many calls each identity has entered. -/
  entries : UInt64 → ℕ
  /-- Which call the current slot of each identity was filled by. -/
  filledBy : UInt64 → Option ℕ
  /-- The calls that returned, latest last. -/
  returned : List Returned

namespace CallWorld

/-- Before the run: nothing is in flight and no thread is known. -/
def init : CallWorld where
  maps := CudaMaps.init
  clock := 0
  stack := fun _ => none
  entries := fun _ => 0
  filledBy := fun _ => none
  returned := []

/-- The events in `cuda_events`, in the order of submission. -/
def cudaEvents (w : CallWorld) : List CudaEvent := w.returned.filterMap Returned.event

/-- The firing of an entry probe, or its absence; the result `0` means that the probe
stored, or tried to store, the call. -/
def fireEntry (cfg : CudaTracerCfg) (maps : CudaMaps) (a : EnterAct) : CudaMaps × Int32 :=
  if a.fires then entryProbe cfg maps a.env a.ctx a.op else (maps, 1)

/-- The firing of a return probe, or its absence. -/
def fireReturn (maps : CudaMaps) (a : LeaveAct) : CudaMaps × Option CudaEvent :=
  if a.fires then returnProbe a.op maps a.env a.ctx else (maps, none)

/-- What the entry probe of this call stored in the slot of its thread. -/
def savedBy (cfg : CudaTracerCfg) (maps : CudaMaps) (a : EnterAct) : Option CudaCallInfo :=
  if (fireEntry cfg maps a).2 = 0 then
    (fireEntry cfg maps a).1.cudaCalls.lookup a.env.pidTgid
  else none

/-- The world with the thread identity `k` given other open calls, or none at all. -/
def setStack (w : CallWorld) (k : UInt64) (o : Option (List Call)) : CallWorld :=
  { w with stack := Function.update w.stack k o }

/-- The world after a call was entered on a thread whose open calls are `cs`. -/
def entered (cfg : CudaTracerCfg) (w : CallWorld) (a : EnterAct) (cs : List Call) :
    CallWorld where
  maps := (fireEntry cfg w.maps a).1
  clock := a.env.now
  stack := Function.update w.stack a.env.pidTgid
    (some (⟨a.call, a.op, a.env, a.ctx, savedBy cfg w.maps a⟩ :: cs))
  entries := Function.update w.entries a.env.pidTgid (w.entries a.env.pidTgid + 1)
  filledBy :=
    if (fireEntry cfg w.maps a).2 = 0 then
      Function.update w.filledBy a.env.pidTgid (some a.call)
    else w.filledBy
  returned := w.returned

/-- The record of the return of `c`. -/
def returnedOf (w : CallWorld) (a : LeaveAct) (c : Call) : Returned where
  key := a.env.pidTgid
  call := c
  now := a.env.now
  rc := a.ctx.rc
  inner := w.entries a.env.pidTgid - c.index
  event := (fireReturn w.maps a).2
  source := w.filledBy a.env.pidTgid

/-- The world after the call `c` returned and left `cs` open. -/
def left (w : CallWorld) (a : LeaveAct) (c : Call) (cs : List Call) : CallWorld :=
  { w with
    maps := (fireReturn w.maps a).1
    clock := a.env.now
    stack := Function.update w.stack a.env.pidTgid (some cs)
    returned := w.returned ++ [w.returnedOf a c] }

/-- One action. An identity is given to one living thread at a time, the clock is
monotone, and only the innermost call of a thread can return. -/
def step (cfg : CudaTracerCfg) (w : CallWorld) : CallAct → Option CallWorld
  | .spawn k =>
      if w.stack k = none then
        some (w.setStack k (some []))
      else none
  | .exit k =>
      if w.stack k = none then none
      else some (w.setStack k none)
  | .enter a =>
      match w.stack a.env.pidTgid with
      | none => none
      | some cs =>
          if w.clock ≤ a.env.now ∧ a.call = w.entries a.env.pidTgid + 1 then
            some (w.entered cfg a cs)
          else none
  | .leave a =>
      match w.stack a.env.pidTgid with
      | some (c :: cs) =>
          if w.clock ≤ a.env.now ∧ a.call = c.index ∧ a.op = c.op then
            some (w.left a c cs)
          else none
      | _ => none

/-- A run from the initial world. -/
abbrev runs (cfg : CudaTracerCfg) (acts : List CallAct) : Option CallWorld :=
  ActionRun.run (step cfg) init acts

/-! ### What each action requires and does -/

variable {cfg : CudaTracerCfg} {w w' : CallWorld}

/-- A thread is started once, outside all calls. -/
theorem step_spawn_eq_some {k : UInt64} (h : step cfg w (.spawn k) = some w') :
    w.stack k = none ∧ w' = w.setStack k (some []) := by
  rw [step] at h
  split at h
  · exact ⟨‹_›, (Option.some.inj h).symm⟩
  · exact absurd h (by simp)

/-- A thread can end at any time, and its calls with it. -/
theorem step_exit_eq_some {k : UInt64} (h : step cfg w (.exit k) = some w') :
    w' = w.setStack k none := by
  rw [step] at h
  split at h
  · exact absurd h (by simp)
  · exact (Option.some.inj h).symm

/-- A call is entered by a living thread, no earlier than what happened before, with the next
number of its thread. -/
theorem step_enter_eq_some {a : EnterAct} (h : step cfg w (.enter a) = some w') :
    ∃ cs, w.stack a.env.pidTgid = some cs ∧ w.clock ≤ a.env.now ∧
      a.call = w.entries a.env.pidTgid + 1 ∧ w' = w.entered cfg a cs := by
  rw [step] at h
  split at h
  · exact absurd h (by simp)
  · rename_i cs hcs
    split at h
    · rename_i hg
      exact ⟨cs, hcs, hg.1, hg.2, (Option.some.inj h).symm⟩
    · exact absurd h (by simp)

/-- The innermost call of a thread returns, no earlier than what happened before. -/
theorem step_leave_eq_some {a : LeaveAct} (h : step cfg w (.leave a) = some w') :
    ∃ c cs, w.stack a.env.pidTgid = some (c :: cs) ∧ w.clock ≤ a.env.now ∧
      a.call = c.index ∧ a.op = c.op ∧ w' = w.left a c cs := by
  rw [step] at h
  split at h
  · rename_i c cs hcs
    split at h
    · rename_i hg
      exact ⟨c, cs, hcs, hg.1, hg.2.1, hg.2.2, (Option.some.inj h).symm⟩
    · exact absurd h (by simp)
  · exact absurd h (by simp)

/-- When an entry is possible. -/
theorem step_enter_of_stack {a : EnterAct} {cs : List Call}
    (hcs : w.stack a.env.pidTgid = some cs) (hclock : w.clock ≤ a.env.now)
    (hcall : a.call = w.entries a.env.pidTgid + 1) :
    step cfg w (.enter a) = some (w.entered cfg a cs) := by
  simp only [step, hcs]
  exact if_pos ⟨hclock, hcall⟩

/-- When a return is possible. -/
theorem step_leave_of_stack {a : LeaveAct} {c : Call} {cs : List Call}
    (hcs : w.stack a.env.pidTgid = some (c :: cs)) (hclock : w.clock ≤ a.env.now)
    (hcall : a.call = c.index) (hop : a.op = c.op) :
    step cfg w (.leave a) = some (w.left a c cs) := by
  simp only [step, hcs]
  exact if_pos ⟨hclock, hcall, hop⟩

/-! ### What a firing does to the slots -/

/-- What the entry of a call stores: its operation, its time, its process, its arguments, and a
stack if one was taken. -/
structure StoredBy (env : EntryEnv) (ctx : PtRegs) (op : CudaOp) (info : CudaCallInfo) : Prop where
  opType : info.opType = op.code
  time : info.timestamp = env.now
  pid : info.pid = pidOf env.pidTgid
  size : info.size = ctx.word op.sizeArg
  ptr : info.ptr = ctx.word op.ptrArg
  streamId : info.streamId = ctx.word op.streamArg
  stackId : info.stackId = -1 ∨ info.stackId = env.stackid
  flags : info.flags =
    if 0 ≤ info.stackId then op.entryFlags ||| cudaEvFlagStackSampled else op.entryFlags

/-- An entry firing that stores, or tries to: the slot of its thread afterwards holds this
call's entry or is empty. -/
theorem fireEntry_of_stores (maps : CudaMaps) {a : EnterAct} (hf : a.fires = true)
    (hp : cfg.Passes a.env.pidTgid) :
    ∃ (info : CudaCallInfo) (maps' : CudaMaps), StoredBy a.env a.ctx a.op info ∧
      maps'.cudaCalls = maps.cudaCalls ∧
      fireEntry cfg maps a = (maps'.setCall a.env.pidTgid info, 0) := by
  rw [fireEntry, if_pos hf, entryProbe_eq_args, recordEntry_of_passes hp]
  exact ⟨_, _, ⟨rfl, rfl, rfl, rfl, rfl, rfl, maybeCaptureStack_snd_cases _ _, rfl⟩,
    maybeCaptureStack_cudaCalls _ _, rfl⟩

/-- An entry that does not fire, or whose process is filtered out, changes nothing. -/
theorem fireEntry_of_not_stores {maps : CudaMaps} {a : EnterAct}
    (h : ¬ (a.fires = true ∧ cfg.Passes a.env.pidTgid)) :
    fireEntry cfg maps a = (maps, 1) := by
  rw [fireEntry]
  by_cases hf : a.fires = true
  · rw [if_pos hf, entryProbe_eq_args, recordEntry_of_filtered fun hp => h ⟨hf, hp⟩]
  · rw [if_neg hf]

/-- The result of a firing tells whether it stored, or tried to. -/
theorem fireEntry_snd_eq_zero_iff {maps : CudaMaps} {a : EnterAct} :
    (fireEntry cfg maps a).2 = 0 ↔ a.fires = true ∧ cfg.Passes a.env.pidTgid := by
  by_cases hs : a.fires = true ∧ cfg.Passes a.env.pidTgid
  · obtain ⟨info, maps', -, -, hfire⟩ := fireEntry_of_stores maps hs.1 hs.2
    rw [hfire]
    exact iff_of_true rfl hs
  · rw [fireEntry_of_not_stores hs]
    exact iff_of_false (by simp) hs

/-- What an entry saved was stored by a firing of a process that is traced. -/
theorem of_savedBy_eq_some {maps : CudaMaps} {a : EnterAct} {info : CudaCallInfo}
    (h : savedBy cfg maps a = some info) :
    (a.fires = true ∧ cfg.Passes a.env.pidTgid) ∧ StoredBy a.env a.ctx a.op info := by
  rw [savedBy] at h
  by_cases hs : a.fires = true ∧ cfg.Passes a.env.pidTgid
  · obtain ⟨info', maps', hstored, -, hfire⟩ := fireEntry_of_stores maps hs.1 hs.2
    rw [hfire, if_pos rfl] at h
    rcases lookup_setCall maps' a.env.pidTgid info' with hl | hl
    · obtain rfl := Option.some.inj (hl.symm.trans h)
      exact ⟨hs, hstored⟩
    · exact absurd (hl.symm.trans h) (by simp)
  · rw [fireEntry_of_not_stores hs] at h
    exact absurd h (by simp)

/-- The slots of other threads are not concerned by an entry. -/
theorem lookup_fireEntry_ne {maps : CudaMaps} {a : EnterAct} {k : UInt64}
    (hk : k ≠ a.env.pidTgid) :
    (fireEntry cfg maps a).1.cudaCalls.lookup k = maps.cudaCalls.lookup k := by
  rw [fireEntry]
  split
  · rw [entryProbe_eq_args, lookup_recordEntry_ne _ _ _ _ _ hk]
  · rfl

/-- The slots of other threads are not concerned by a return. -/
theorem lookup_fireReturn_ne {maps : CudaMaps} {a : LeaveAct} {k : UInt64}
    (hk : k ≠ a.env.pidTgid) :
    (fireReturn maps a).1.cudaCalls.lookup k = maps.cudaCalls.lookup k := by
  rw [fireReturn]
  split
  · exact lookup_submitEvent_ne _ _ hk
  · rfl

/-- A return that fires empties the slot of its thread. -/
theorem lookup_fireReturn {maps : CudaMaps} {a : LeaveAct} (hf : a.fires = true) :
    (fireReturn maps a).1.cudaCalls.lookup a.env.pidTgid = none := by
  rw [fireReturn, if_pos hf]
  exact lookup_submitEvent _ _ _

/-- When a return submits an event, and which. -/
theorem fireReturn_eq_some_iff {maps : CudaMaps} {a : LeaveAct} {e : CudaEvent} :
    (fireReturn maps a).2 = some e ↔
      a.fires = true ∧ ∃ info, maps.cudaCalls.lookup a.env.pidTgid = some info ∧
        info.opType = a.op.code ∧ a.env.reserve = true ∧
        e = eventOf info a.env a.ctx a.op.code := by
  rw [fireReturn]
  split
  · rename_i hf
    rw [returnProbe, submitEvent_eq_some_iff]
    simp only [hf, true_and]
  · rename_i hf
    simp [hf]

/-! ### The fields after each action -/

@[simp] theorem stack_setStack (k : UInt64) (o : Option (List Call)) :
    (w.setStack k o).stack k = o :=
  Function.update_self ..

@[simp] theorem stack_setStack_ne {k k' : UInt64} (o : Option (List Call)) (h : k' ≠ k) :
    (w.setStack k o).stack k' = w.stack k' :=
  Function.update_of_ne h ..

/-- A thread that appears or disappears has no open calls; other threads keep theirs. -/
theorem stack_setStack_eq_some {k k' : UInt64} {o : Option (List Call)} {cs : List Call}
    (ho : ∀ cs, o = some cs → cs = []) (h : (w.setStack k o).stack k' = some cs) :
    cs = [] ∨ w.stack k' = some cs := by
  by_cases hk : k' = k
  · subst hk
    rw [stack_setStack] at h
    exact Or.inl (ho cs h)
  · rw [stack_setStack_ne o hk] at h
    exact Or.inr h

/-- A call that is entered is the innermost. -/
@[simp] theorem stack_entered (a : EnterAct) (cs : List Call) :
    (w.entered cfg a cs).stack a.env.pidTgid =
      some (⟨a.call, a.op, a.env, a.ctx, savedBy cfg w.maps a⟩ :: cs) :=
  Function.update_self ..

/-- Other threads stay in their calls on an entry. -/
@[simp] theorem stack_entered_ne {a : EnterAct} (cs : List Call) {k : UInt64}
    (h : k ≠ a.env.pidTgid) : (w.entered cfg a cs).stack k = w.stack k :=
  Function.update_of_ne h ..

/-- An entry is counted on its thread. -/
@[simp] theorem entries_entered (a : EnterAct) (cs : List Call) :
    (w.entered cfg a cs).entries a.env.pidTgid = w.entries a.env.pidTgid + 1 :=
  Function.update_self ..

/-- An entry is counted on no other thread. -/
@[simp] theorem entries_entered_ne {a : EnterAct} (cs : List Call) {k : UInt64}
    (h : k ≠ a.env.pidTgid) : (w.entered cfg a cs).entries k = w.entries k :=
  Function.update_of_ne h ..

/-- A firing that stores names its call as the one that filled the slot. -/
theorem filledBy_entered {a : EnterAct} (cs : List Call)
    (h : (fireEntry cfg w.maps a).2 = 0) :
    (w.entered cfg a cs).filledBy a.env.pidTgid = some a.call := by
  rw [entered, if_pos h]
  exact Function.update_self ..

/-- Without such a firing the slots keep their owners. -/
theorem filledBy_entered_of_ne {a : EnterAct} (cs : List Call)
    (h : (fireEntry cfg w.maps a).2 ≠ 0) : (w.entered cfg a cs).filledBy = w.filledBy := by
  rw [entered, if_neg h]

/-- An entry fills no other thread's slot. -/
theorem filledBy_entered_ne {a : EnterAct} (cs : List Call) {k : UInt64}
    (h : k ≠ a.env.pidTgid) : (w.entered cfg a cs).filledBy k = w.filledBy k := by
  rw [entered]
  split
  · exact Function.update_of_ne h ..
  · rfl

/-- The call inside which the innermost call ran goes on. -/
@[simp] theorem stack_left (a : LeaveAct) (c : Call) (cs : List Call) :
    (w.left a c cs).stack a.env.pidTgid = some cs :=
  Function.update_self ..

/-- Other threads stay in their calls on a return. -/
@[simp] theorem stack_left_ne {a : LeaveAct} (c : Call) (cs : List Call) {k : UInt64}
    (h : k ≠ a.env.pidTgid) : (w.left a c cs).stack k = w.stack k :=
  Function.update_of_ne h ..

/-- A slot that is filled after an entry was filled by it, or it was filled before and the entry
is another thread's or does not store. -/
theorem lookup_entered_cases {a : EnterAct} {cs : List Call} {k : UInt64} {info : CudaCallInfo}
    (h : (w.entered cfg a cs).maps.cudaCalls.lookup k = some info) :
    (k = a.env.pidTgid ∧ savedBy cfg w.maps a = some info) ∨
      w.maps.cudaCalls.lookup k = some info ∧
        (k = a.env.pidTgid → ¬ (a.fires = true ∧ cfg.Passes a.env.pidTgid)) := by
  rw [entered] at h
  rcases eq_or_ne k a.env.pidTgid with rfl | hk
  · by_cases hs : a.fires = true ∧ cfg.Passes a.env.pidTgid
    · refine .inl ⟨rfl, ?_⟩
      rw [savedBy, if_pos (fireEntry_snd_eq_zero_iff.mpr hs), h]
    · rw [fireEntry_of_not_stores hs] at h
      exact .inr ⟨h, fun _ => hs⟩
  · rw [lookup_fireEntry_ne hk] at h
    exact .inr ⟨h, fun heq => absurd heq hk⟩

/-- A slot that is filled after a return was filled before it, and the return is another thread's
or does not fire. -/
theorem lookup_left_cases {a : LeaveAct} {c : Call} {cs : List Call} {k : UInt64}
    {info : CudaCallInfo} (h : (w.left a c cs).maps.cudaCalls.lookup k = some info) :
    w.maps.cudaCalls.lookup k = some info ∧ (k = a.env.pidTgid → ¬ a.fires = true) := by
  rw [left] at h
  rcases eq_or_ne k a.env.pidTgid with rfl | hk
  · by_cases hf : a.fires = true
    · rw [lookup_fireReturn hf] at h
      exact absurd h (by simp)
    · rw [fireReturn, if_neg hf] at h
      exact ⟨h, fun _ => hf⟩
  · rw [lookup_fireReturn_ne hk] at h
    exact ⟨h, fun heq => absurd heq hk⟩

/-! ### Unique names -/

/-- Open calls of a thread have distinct indices, all of them used up; a call that
returned is no longer open; and no call returns twice. -/
structure NamesOk (w : CallWorld) : Prop where
  le_entries : ∀ k cs, w.stack k = some cs → ∀ c ∈ cs, c.index ≤ w.entries k
  sorted : ∀ k cs, w.stack k = some cs → cs.Pairwise fun c d => d.index < c.index
  returned_le : ∀ r ∈ w.returned, r.call.index ≤ w.entries r.key
  returned_closed : ∀ r ∈ w.returned, ∀ cs, w.stack r.key = some cs →
    ∀ c ∈ cs, c.index ≠ r.call.index
  nodup : (w.returned.map Returned.name).Nodup

/-- No call has been entered. -/
theorem NamesOk.init : NamesOk init where
  le_entries := by intro k cs h; exact absurd h (by simp [CallWorld.init])
  sorted := by intro k cs h; exact absurd h (by simp [CallWorld.init])
  returned_le := by intro r hr; exact absurd hr (by simp [CallWorld.init])
  returned_closed := by intro r hr; exact absurd hr (by simp [CallWorld.init])
  nodup := by simp [CallWorld.init]

/-- Giving an identity no open calls keeps the names. -/
theorem NamesOk.setStack {k : UInt64} {o : Option (List Call)} (hw : NamesOk w)
    (ho : ∀ cs, o = some cs → cs = []) : NamesOk (w.setStack k o) := by
  refine ⟨?_, ?_, hw.returned_le, ?_, hw.nodup⟩
  · intro k' cs hcs c hc
    rcases stack_setStack_eq_some ho hcs with rfl | h
    · exact absurd hc List.not_mem_nil
    · exact hw.le_entries k' cs h c hc
  · intro k' cs hcs
    rcases stack_setStack_eq_some ho hcs with rfl | h
    · exact List.Pairwise.nil
    · exact hw.sorted k' cs h
  · intro r hr cs hcs c hc
    rcases stack_setStack_eq_some ho hcs with rfl | h
    · exact absurd hc List.not_mem_nil
    · exact hw.returned_closed r hr cs h c hc

/-- Entering a call uses a fresh name. -/
theorem NamesOk.entered {a : EnterAct} {cs : List Call} (hw : NamesOk w)
    (hcs : w.stack a.env.pidTgid = some cs)
    (hcall : a.call = w.entries a.env.pidTgid + 1) : NamesOk (w.entered cfg a cs) := by
  refine ⟨?_, ?_, ?_, ?_, hw.nodup⟩
  · intro k ds hds c hc
    by_cases hk : k = a.env.pidTgid
    · subst hk
      rw [stack_entered] at hds
      rw [entries_entered]
      obtain rfl := Option.some.inj hds
      rcases List.mem_cons.mp hc with rfl | hc
      · exact hcall.le
      · exact (hw.le_entries _ cs hcs c hc).trans (Nat.le_succ _)
    · rw [stack_entered_ne cs hk] at hds
      rw [entries_entered_ne cs hk]
      exact hw.le_entries k ds hds c hc
  · intro k ds hds
    by_cases hk : k = a.env.pidTgid
    · subst hk
      rw [stack_entered] at hds
      obtain rfl := Option.some.inj hds
      refine List.Pairwise.cons ?_ (hw.sorted _ cs hcs)
      intro c hc
      have := hw.le_entries _ cs hcs c hc
      exact hcall ▸ Nat.lt_succ_of_le this
    · rw [stack_entered_ne cs hk] at hds
      exact hw.sorted k ds hds
  · intro r hr
    have hle := hw.returned_le r hr
    by_cases hk : r.key = a.env.pidTgid
    · rw [hk] at hle ⊢
      rw [entries_entered]
      exact hle.trans (Nat.le_succ _)
    · rwa [entries_entered_ne cs hk]
  · intro r hr ds hds c hc
    by_cases hk : r.key = a.env.pidTgid
    · rw [hk, stack_entered] at hds
      obtain rfl := Option.some.inj hds
      rcases List.mem_cons.mp hc with rfl | hc
      · have hle := hw.returned_le r hr
        rw [hk] at hle
        exact hcall ▸ (Nat.lt_succ_of_le hle).ne'
      · exact hw.returned_closed r hr cs (hk ▸ hcs) c hc
    · rw [stack_entered_ne cs hk] at hds
      exact hw.returned_closed r hr ds hds c hc

/-- A return closes the innermost call, whose name was not used by a return before. -/
theorem NamesOk.left {a : LeaveAct} {c : Call} {cs : List Call} (hw : NamesOk w)
    (hcs : w.stack a.env.pidTgid = some (c :: cs)) : NamesOk (w.left a c cs) := by
  have hsorted := List.pairwise_cons.mp (hw.sorted _ _ hcs)
  refine ⟨?_, ?_, ?_, ?_, ?_⟩
  · intro k ds hds d hd
    by_cases hk : k = a.env.pidTgid
    · subst hk
      rw [stack_left] at hds
      obtain rfl := Option.some.inj hds
      exact hw.le_entries _ _ hcs d (List.mem_cons_of_mem c hd)
    · rw [stack_left_ne c cs hk] at hds
      exact hw.le_entries k ds hds d hd
  · intro k ds hds
    by_cases hk : k = a.env.pidTgid
    · subst hk
      rw [stack_left] at hds
      obtain rfl := Option.some.inj hds
      exact hsorted.2
    · rw [stack_left_ne c cs hk] at hds
      exact hw.sorted k ds hds
  · intro r hr
    rcases List.mem_append.mp hr with hr | hr
    · exact hw.returned_le r hr
    · obtain rfl := List.mem_singleton.mp hr
      exact hw.le_entries _ _ hcs c List.mem_cons_self
  · intro r hr ds hds d hd
    rcases List.mem_append.mp hr with hr | hr
    · by_cases hk : r.key = a.env.pidTgid
      · rw [hk, stack_left] at hds
        obtain rfl := Option.some.inj hds
        exact hw.returned_closed r hr _ (hk ▸ hcs) d (List.mem_cons_of_mem c hd)
      · rw [stack_left_ne c cs hk] at hds
        exact hw.returned_closed r hr ds hds d hd
    · obtain rfl := List.mem_singleton.mp hr
      obtain rfl := Option.some.inj ((stack_left a c cs).symm.trans hds)
      exact (hsorted.1 d hd).ne
  · refine (List.map_append ▸ List.nodup_append.mpr
      ⟨hw.nodup, List.nodup_singleton (w.returnedOf a c).name, ?_⟩)
    rintro n hn m hm rfl
    obtain ⟨r, hr, hname⟩ := List.mem_map.mp hn
    have heq : r.name = (w.returnedOf a c).name := hname.trans (List.mem_singleton.mp hm)
    have hkey : r.key = a.env.pidTgid := congrArg Prod.fst heq
    have hindex : r.call.index = c.index := congrArg Prod.snd heq
    exact hw.returned_closed r hr _ (hkey ▸ hcs) c List.mem_cons_self hindex.symm

/-- Every action keeps the names unique. -/
theorem NamesOk.of_step {act : CallAct} (hw : NamesOk w)
    (h : step cfg w act = some w') : NamesOk w' := by
  cases act with
  | spawn k =>
      obtain ⟨-, rfl⟩ := step_spawn_eq_some h
      exact hw.setStack fun cs hcs => (Option.some.inj hcs).symm
  | exit k =>
      obtain rfl := step_exit_eq_some h
      exact hw.setStack fun cs hcs => absurd hcs (by simp)
  | enter a =>
      obtain ⟨cs, hcs, -, hcall, rfl⟩ := step_enter_eq_some h
      exact hw.entered hcs hcall
  | leave a =>
      obtain ⟨c, cs, hcs, -, -, -, rfl⟩ := step_leave_eq_some h
      exact hw.left hcs

/-- **Unique names.** In every run each call is named uniquely and returns at most once. -/
theorem NamesOk.of_run {acts : List CallAct} (h : runs cfg acts = some w) : NamesOk w :=
  ActionRun.run_invariant NamesOk.init (fun _ _ _ _ hu hstep => hu.of_step hstep) h

/-! ### Open calls saved what their entry stored -/

/-- The call was entered on this thread, no later than now, and saved what its entry stored, if
anything. -/
structure EnteredOn (c : Call) (k now : UInt64) : Prop where
  thread : c.env.pidTgid = k
  past : c.env.now ≤ now
  stored : ∀ info, c.saved = some info → StoredBy c.env c.ctx c.op info

/-- What a call saved was saved no later than now. -/
theorem EnteredOn.time_le {c : Call} {k now : UInt64} (h : EnteredOn c k now) {info : CudaCallInfo}
    (hsaved : c.saved = some info) : info.timestamp ≤ now :=
  (h.stored info hsaved).time ▸ h.past

/-- Time passes. -/
theorem EnteredOn.mono {c : Call} {k now now' : UInt64} (h : EnteredOn c k now) (hle : now ≤ now') :
    EnteredOn c k now' :=
  ⟨h.thread, UInt64.le_trans h.past hle, h.stored⟩

/-- The open calls of every thread are its own, and saved what their entries stored. -/
def CallsOk (w : CallWorld) : Prop :=
  ∀ k cs, w.stack k = some cs → ∀ c ∈ cs, EnteredOn c k w.clock

/-- No call is in progress. -/
theorem CallsOk.init : CallsOk init := by
  intro k cs h
  exact absurd h (by simp [CallWorld.init])

/-- Every action keeps it, since the clock never goes back. -/
theorem CallsOk.of_step {act : CallAct} (hw : CallsOk w)
    (h : step cfg w act = some w') : CallsOk w' := by
  have hset : ∀ {k : UInt64} {o : Option (List Call)}, (∀ cs, o = some cs → cs = []) →
      CallsOk (w.setStack k o) := by
    intro k o ho k' cs hcs c hc
    rcases stack_setStack_eq_some ho hcs with rfl | hcs
    · exact absurd hc List.not_mem_nil
    · exact hw k' cs hcs c hc
  cases act with
  | spawn k =>
      obtain ⟨-, rfl⟩ := step_spawn_eq_some h
      exact hset fun cs hcs => (Option.some.inj hcs).symm
  | exit k =>
      obtain rfl := step_exit_eq_some h
      exact hset fun cs hcs => absurd hcs (by simp)
  | enter a =>
      obtain ⟨cs, hcs, hclock, -, rfl⟩ := step_enter_eq_some h
      intro k ds hds c hc
      by_cases hk : k = a.env.pidTgid
      · subst hk
        rw [stack_entered] at hds
        obtain rfl := Option.some.inj hds
        rcases List.mem_cons.mp hc with rfl | hc
        · exact ⟨rfl, UInt64.le_refl _, fun info hsaved => (of_savedBy_eq_some hsaved).2⟩
        · exact (hw _ cs hcs c hc).mono hclock
      · rw [stack_entered_ne cs hk] at hds
        exact (hw k ds hds c hc).mono hclock
  | leave a =>
      obtain ⟨c, cs, hcs, hclock, -, -, rfl⟩ := step_leave_eq_some h
      intro k ds hds d hd
      by_cases hk : k = a.env.pidTgid
      · subst hk
        rw [stack_left] at hds
        obtain rfl := Option.some.inj hds
        exact (hw _ _ hcs d (List.mem_cons_of_mem c hd)).mono hclock
      · rw [stack_left_ne c cs hk] at hds
        exact (hw k ds hds d hd).mono hclock

end CallWorld

end UnifiedTrace
