import Mathlib.Data.List.Forall2
import UnifiedTrace.ThreadIsolation

/-!
# The Mock Workload

`tests/mock/workload.c` makes the same twelve calls in every iteration, against the stubs of
`tests/mock/fake_cudart.c`. Its calls do not nest. For any thread like that, whatever runs
beside it, the events are read off the calls: one for each call whose probes fired and whose
event found room in the ring. For the workload these are the twelve events of each iteration,
with the sizes, pointers and streams that the stubs hand out.

The stubs only wait and set their output parameters; how long they wait is left out.

## Main results

* `CallWorld.run_flatCall`: what one call does to the world.
* `threadEvents_of_flat_calls`: the events of a thread whose calls do not nest.
* `mock_workload_events`: the events of the workload.
-/

namespace UnifiedTrace

/-! ### Calls that do not nest -/

/-- A call without inner calls: its entry and its return. -/
structure FlatCall where
  enter : EnterAct
  leave : LeaveAct

/-- The actions of the call. -/
def FlatCall.acts (c : FlatCall) : List CallAct := [.enter c.enter, .leave c.leave]

/-- The call is made by the thread, and its return probe fires if its entry probe did: the
kernel arms a return probe when the entry is reached. -/
structure FlatCall.On (k : UInt64) (c : FlatCall) : Prop where
  enter_key : c.enter.env.pidTgid = k
  leave_key : c.leave.env.pidTgid = k
  fires : c.leave.fires = c.enter.fires

/-- The event of the call, without its stack. -/
def FlatCall.event? (cfg : CudaTracerCfg) (c : FlatCall) : Option CudaEvent :=
  if c.enter.fires = true ∧ cfg.Passes c.enter.env.pidTgid ∧ c.leave.env.reserve = true then
    some (eventOf c.enter.info c.leave.env c.leave.ctx c.enter.op.code).withoutStack
  else none

/-- Without a capture, the entry has the stack id of none. -/
theorem withStack_neg_one (a : EnterAct) : a.info.withStack (-1) = a.info := by
  rw [CudaCallInfo.withStack, if_neg (by decide)]
  rfl

namespace CallWorld

variable {cfg : CudaTracerCfg} {k : UInt64} {w u : CallWorld}

/-- Between the calls: the thread is in no call and its slot is empty, and there is room. -/
structure Idle (k : UInt64) (w : CallWorld) : Prop where
  stack : w.stack k = some []
  slot : w.maps.cudaCalls.lookup k = none
  keys : ∀ k' ∈ w.maps.cudaCalls.keys, k' = k

/-- **One call.** A thread alone that is idle is idle again after a call, and the event of the
call is the new one. -/
theorem run_flatCall {c : FlatCall} (hw : Idle k w) (hc : c.On k)
    (hrun : ActionRun.run (step cfg) w c.acts = some u) :
    Idle k u ∧ (u.threadEvents k).map CudaEvent.withoutStack =
      (w.threadEvents k).map CudaEvent.withoutStack ++ (c.event? cfg).toList := by
  obtain ⟨v, hv, hu⟩ := Option.bind_eq_some_iff.mp hrun
  obtain ⟨u', hu', huu⟩ := Option.bind_eq_some_iff.mp hu
  obtain rfl : u' = u := Option.some.inj huu
  obtain ⟨cs, hcs, -, -, rfl⟩ := step_enter_eq_some hv
  obtain ⟨d, ds, hds, -, -, hop, rfl⟩ := step_leave_eq_some hu'
  obtain ⟨a, b⟩ := c
  obtain ⟨rfl, hkey, hfires⟩ := hc
  dsimp only at hcs hds hop hkey hfires ⊢
  -- the call that returns is the one that was entered
  obtain rfl : [] = cs := Option.some.inj (hw.stack.symm.trans hcs)
  rw [hkey, stack_entered] at hds
  obtain ⟨rfl, rfl⟩ := List.cons.inj (Option.some.inj hds)
  have hkeys : ∀ k' ∈ (fireEntry cfg w.maps a).1.cudaCalls.keys, k' = a.env.pidTgid := by
    intro k' hk'
    rcases List.mem_cons.mp (keys_fireEntry_subset hk') with h | h
    · exact h
    · exact hw.keys k' h
  have hslot : (fireReturn (fireEntry cfg w.maps a).1 b).1.cudaCalls.lookup a.env.pidTgid =
      none := by
    by_cases hf : b.fires = true
    · exact hkey ▸ lookup_fireReturn hf
    · have hs : ¬ (a.fires = true ∧ cfg.Passes a.env.pidTgid) := fun h => hf (hfires.trans h.1)
      rw [fireReturn, if_neg hf, fireEntry_of_not_stores hs]
      exact hw.slot
  refine ⟨⟨hkey ▸ stack_left .., hslot, fun k' hk' => hkeys k' (keys_fireReturn_subset hk')⟩, ?_⟩
  have hevents := threadEvents_left (w := w.entered cfg a []) b
    ⟨a.call, a.op, a.env, a.ctx, savedBy cfg w.maps a⟩ []
  rw [hkey] at hevents
  rw [hevents, List.map_append]
  congr 1
  -- the return reads what the entry stored
  have hlast : (fireReturn (fireEntry cfg w.maps a).1 b).2.map CudaEvent.withoutStack =
      FlatCall.event? cfg ⟨a, b⟩ := by
    rw [fireReturn_snd, FlatCall.event?, hkey, hfires]
    dsimp only
    by_cases hs : a.fires = true ∧ cfg.Passes a.env.pidTgid
    · obtain ⟨sid, hl⟩ := @lookup_fireEntry_of_traced cfg {a.env.pidTgid} w.maps a
        (fun k' hk' => Finset.mem_singleton.mpr (hw.keys k' hk')) (Finset.mem_singleton_self _)
        (by rw [Finset.card_singleton]; decide) hs.1 hs.2
      have hcode : (a.info.withStack sid).opType = a.op.code := rfl
      rw [hl, Option.bind_some, hcode, hop]
      dsimp only
      by_cases hr : b.env.reserve = true
      · rw [if_pos ⟨hs.1, rfl, hr⟩, if_pos ⟨hs.1, hs.2, hr⟩, Option.map_some,
          withoutStack_eventOf_withStack a sid (-1), withStack_neg_one]
      · rw [if_neg fun h => hr h.2.2, if_neg fun h => hr h.2.2, Option.map_none]
    · rw [if_neg fun h => hs ⟨h.1, h.2.1⟩, fireEntry_of_not_stores hs, hw.slot]
      rfl
  exact Option.toList_map.symm.trans (congrArg Option.toList hlast)

/-- The calls of a thread alone, one after the other. -/
theorem run_flatCalls {calls : List FlatCall} (hw : Idle k w) (hcalls : ∀ c ∈ calls, c.On k)
    (hrun : ActionRun.run (step cfg) w (calls.flatMap FlatCall.acts) = some u) :
    Idle k u ∧ (u.threadEvents k).map CudaEvent.withoutStack =
      (w.threadEvents k).map CudaEvent.withoutStack ++
        calls.filterMap (FlatCall.event? cfg) := by
  induction calls generalizing w with
  | nil =>
      obtain rfl : w = u := Option.some.inj hrun
      exact ⟨hw, (List.append_nil _).symm⟩
  | cons c calls ih =>
      obtain ⟨hc, hrest⟩ := List.forall_mem_cons.mp hcalls
      rw [List.flatMap_cons, ActionRun.run_append_eq_some] at hrun
      obtain ⟨v, hv, hu⟩ := hrun
      obtain ⟨hidle, hevents⟩ := run_flatCall hw hc hv
      obtain ⟨hidle', hevents'⟩ := ih hidle hrest hu
      refine ⟨hidle', ?_⟩
      rw [hevents', hevents, List.append_assoc]
      cases he : c.event? cfg with
      | none => rw [List.filterMap_cons_none he]; rfl
      | some e => rw [List.filterMap_cons_some he]; rfl

/-- A thread alone that has just appeared is idle. -/
theorem idle_of_step_spawn (h : step cfg init (.spawn k) = some w) :
    Idle k w ∧ w.threadEvents k = [] := by
  obtain ⟨-, rfl⟩ := step_spawn_eq_some h
  refine ⟨⟨stack_setStack k _, BoundedMap.lookup_empty k, ?_⟩, rfl⟩
  intro k' hk'
  exact absurd hk' List.not_mem_nil

end CallWorld

/-- **The events of a thread whose calls do not nest.** In every run of at most `10240` thread
identities, a thread that makes calls one after the other, and may exit at the end, has one
event for each call whose probes fired and whose event found room, in order. -/
theorem threadEvents_of_flat_calls {cfg : CudaTracerCfg} {acts : List CallAct} {w : CallWorld}
    {K : Finset UInt64} (hk : ∀ act ∈ acts, act.key ∈ K)
    (hcard : K.card ≤ cudaCallsMaxEntries) (hrun : CallWorld.runs cfg acts = some w)
    {k : UInt64} {calls : List FlatCall} (hcalls : ∀ c ∈ calls, c.On k) (exits : Bool)
    (hacts : (acts.filter fun act => act.key = k) =
      .spawn k :: (calls.flatMap FlatCall.acts ++ if exits then [.exit k] else [])) :
    (w.threadEvents k).map CudaEvent.withoutStack =
      calls.filterMap (FlatCall.event? cfg) := by
  obtain ⟨u, hu, hevents⟩ := thread_events_isolated hk hcard hrun k
  rw [hacts, CallWorld.runs, ActionRun.run_cons] at hu
  obtain ⟨v, hv, hu⟩ := Option.bind_eq_some_iff.mp hu
  obtain ⟨x, hx, hu⟩ := ActionRun.run_append_eq_some.mp hu
  obtain ⟨hidle, hnone⟩ := CallWorld.idle_of_step_spawn hv
  obtain ⟨-, hflat⟩ := CallWorld.run_flatCalls hidle hcalls hx
  have hexit : u.threadEvents k = x.threadEvents k := by
    cases exits with
    | false =>
        obtain rfl : x = u := Option.some.inj hu
        rfl
    | true =>
        obtain ⟨y, hy, hyu⟩ := Option.bind_eq_some_iff.mp hu
        obtain rfl : y = u := Option.some.inj hyu
        obtain rfl := CallWorld.step_exit_eq_some hy
        rfl
  rw [← hevents, hexit, hflat, hnone]
  rfl

/-! ### The stubs -/

/-- The pointer that `cudaMalloc` of the stubs hands out. -/
def fakeDevPtr (size : UInt64) : UInt64 := 0xD0000000 + size

/-- `next_stream` before the first call of `cudaStreamCreate`. -/
def firstStream : UInt64 := 0x57000001

/-! ### The workload -/

/-- A call of the workload: its arguments in order. Every stub returns `0`. -/
structure MockCall where
  op : CudaOp
  args : List UInt64
  deriving DecidableEq

/-- The addresses of the locals of `run_iter`. -/
structure IterFrame where
  dA : UInt64
  dB : UInt64
  stream : UInt64
  hostBuf : UInt64

/-- The local `evt` of `run_iter`. -/
def mockEvt : UInt64 := 0xE5E47A1

/-- `run_iter`, with the value of `next_stream` before and after it. -/
def runIter (fr : IterFrame) (nextStream : UInt64) : List MockCall × UInt64 :=
  -- what the stubs write through their pointer arguments
  let stream := nextStream
  let dA := fakeDevPtr 4096
  let dB := fakeDevPtr 4096
  ([⟨.streamCreate, [fr.stream]⟩,
    ⟨.malloc, [fr.dA, 4096]⟩,
    ⟨.malloc, [fr.dB, 4096]⟩,
    ⟨.memcpyAsync, [dA, fr.hostBuf, 256, 1, stream]⟩,
    ⟨.launchKernel, [0x4144, 1, 1, 0, 0, stream]⟩,
    ⟨.eventRecord, [mockEvt, stream]⟩,
    ⟨.eventQuery, [mockEvt]⟩,
    ⟨.streamSync, [stream]⟩,
    ⟨.memcpyAsync, [fr.hostBuf, dB, 256, 2, stream]⟩,
    ⟨.free, [dA]⟩,
    ⟨.free, [dB]⟩,
    ⟨.streamDestroy, [stream]⟩], nextStream + 1)

/-- The loop of `main`: `iters` more iterations from iteration `i` on. -/
def mockCalls (frames : ℕ → IterFrame) (nextStream : UInt64) (i : ℕ) : ℕ → List MockCall
  | 0 => []
  | iters + 1 =>
      (runIter (frames i) nextStream).1 ++
        mockCalls frames (runIter (frames i) nextStream).2 (i + 1) iters

/-- The calls of `main`. -/
def workloadCalls (frames : ℕ → IterFrame) (iters : ℕ) : List MockCall :=
  mockCalls frames firstStream 0 iters

/-- `EVENTS_PER_ITER`. -/
def eventsPerIter : ℕ := 12

/-- Every iteration makes the same number of calls. -/
theorem length_mockCalls (frames : ℕ → IterFrame) (nextStream : UInt64) (i iters : ℕ) :
    (mockCalls frames nextStream i iters).length = iters * eventsPerIter := by
  induction iters generalizing nextStream i with
  | zero => exact (Nat.zero_mul _).symm
  | succ iters ih =>
      rw [mockCalls, List.length_append, ih, Nat.succ_mul, Nat.add_comm]
      rfl

/-- The registers of the first five arguments, in order. -/
def PtRegs.args (ctx : PtRegs) : List UInt64 := [ctx.rdi, ctx.rsi, ctx.rdx, ctx.rcx, ctx.r8]

/-- The thread makes this call, with all probes firing and room in the ring: the arguments are in
the registers and the result is `0`. -/
structure FlatCall.Makes (c : FlatCall) (m : MockCall) : Prop where
  op : c.enter.op = m.op
  args : m.args.take 5 <+: c.enter.ctx.args
  ret : c.leave.ctx.rax.toUInt32 = 0
  fires : c.enter.fires = true
  reserve : c.leave.env.reserve = true

/-- What an event says about its call. -/
structure EventRow where
  op : UInt32
  size : UInt64
  ptr : UInt64
  streamId : UInt64
  ret : Int32
  flags : UInt32
  deriving DecidableEq

/-- The row of an event. -/
def CudaEvent.row (e : CudaEvent) : EventRow :=
  ⟨e.opType, e.size, e.ptr, e.streamId, e.retVal, e.flags &&& cudaEvFlagAsync⟩

/-- The rows of an iteration with its stream. -/
def iterRows (fr : IterFrame) (stream : UInt64) : List EventRow :=
  [⟨CudaOp.streamCreate.code, 0, fr.stream, 0, 0, 0⟩,
    ⟨CudaOp.malloc.code, 4096, 0, 0, 0, 0⟩,
    ⟨CudaOp.malloc.code, 4096, 0, 0, 0, 0⟩,
    ⟨CudaOp.memcpyAsync.code, 256, 0, stream, 0, cudaEvFlagAsync⟩,
    ⟨CudaOp.launchKernel.code, 0, 0x4144, 0, 0, 0⟩,
    ⟨CudaOp.eventRecord.code, 0, mockEvt, stream, 0, cudaEvFlagAsync⟩,
    ⟨CudaOp.eventQuery.code, 0, mockEvt, 0, 0, 0⟩,
    ⟨CudaOp.streamSync.code, 0, 0, stream, 0, 0⟩,
    ⟨CudaOp.memcpyAsync.code, 256, 0, stream, 0, cudaEvFlagAsync⟩,
    ⟨CudaOp.free.code, 0, 0xD0001000, 0, 0, 0⟩,
    ⟨CudaOp.free.code, 0, 0xD0001000, 0, 0, 0⟩,
    ⟨CudaOp.streamDestroy.code, 0, 0, stream, 0, 0⟩]

/-! ### The events of the workload -/

/-- How many argument registers the entry program of a function reads. -/
def CudaOp.argsRead : CudaOp → ℕ
  | sync => 0
  | free | launchKernel | streamSync | streamCreate | streamDestroy | eventSync | eventQuery => 1
  | malloc | eventRecord | launchKernelEx | graphLaunch => 2
  | memcpy => 3
  | memcpyAsync => 5

/-- The registers at the entry of a call, with `0` for those it leaves open. -/
def MockCall.ctx (m : MockCall) : PtRegs where
  rdi := m.args.getD 0 0
  rsi := m.args.getD 1 0
  rdx := m.args.getD 2 0
  rcx := m.args.getD 3 0
  r8 := m.args.getD 4 0
  rax := 0

/-- The row of a call. -/
def MockCall.row (m : MockCall) : EventRow :=
  ⟨m.op.code, m.ctx.word m.op.sizeArg, m.ctx.word m.op.ptrArg, m.ctx.word m.op.streamArg, 0,
    m.op.entryFlags⟩

/-- A register that carries an argument. -/
theorem args_eq_of_prefix {ctx : PtRegs} {m : MockCall} (h : m.args.take 5 <+: ctx.args) {i : ℕ}
    (hi : i < 5) (hlen : i < m.args.length) : ctx.args.getD i 0 = m.args.getD i 0 := by
  have htake : i < (m.args.take 5).length := by
    rw [List.length_take]
    omega
  obtain ⟨rest, hrest⟩ := h
  rw [← hrest, List.getD_eq_getElem?_getD, List.getD_eq_getElem?_getD,
    List.getElem?_append_left htake, List.getElem?_take_of_lt hi]

/-- The words that the tracer records are those of the arguments. -/
theorem word_eq_of_prefix {ctx : PtRegs} {m : MockCall} (h : m.args.take 5 <+: ctx.args)
    (hlen : m.op.argsRead ≤ m.args.length) :
    ctx.word m.op.sizeArg = m.ctx.word m.op.sizeArg ∧
      ctx.word m.op.ptrArg = m.ctx.word m.op.ptrArg ∧
      ctx.word m.op.streamArg = m.ctx.word m.op.streamArg := by
  have hreg : ∀ i < 5, i < m.op.argsRead → ctx.args.getD i 0 = m.args.getD i 0 :=
    fun i hi hread => args_eq_of_prefix h hi (by omega)
  cases hop : m.op <;> rw [hop] at hreg
  case malloc => exact ⟨hreg 1 (by decide) (by decide), rfl, rfl⟩
  case free => exact ⟨rfl, hreg 0 (by decide) (by decide), rfl⟩
  case memcpy => exact ⟨hreg 2 (by decide) (by decide), rfl, rfl⟩
  case launchKernel => exact ⟨rfl, hreg 0 (by decide) (by decide), rfl⟩
  case sync => exact ⟨rfl, rfl, rfl⟩
  case memcpyAsync =>
    exact ⟨hreg 2 (by decide) (by decide), rfl, hreg 4 (by decide) (by decide)⟩
  case streamSync => exact ⟨rfl, rfl, hreg 0 (by decide) (by decide)⟩
  case streamCreate => exact ⟨rfl, hreg 0 (by decide) (by decide), rfl⟩
  case streamDestroy => exact ⟨rfl, rfl, hreg 0 (by decide) (by decide)⟩
  case eventRecord =>
    exact ⟨rfl, hreg 0 (by decide) (by decide), hreg 1 (by decide) (by decide)⟩
  case eventSync => exact ⟨rfl, hreg 0 (by decide) (by decide), rfl⟩
  case eventQuery => exact ⟨rfl, hreg 0 (by decide) (by decide), rfl⟩
  case launchKernelEx => exact ⟨rfl, hreg 1 (by decide) (by decide), rfl⟩
  case graphLaunch =>
    exact ⟨rfl, hreg 0 (by decide) (by decide), hreg 1 (by decide) (by decide)⟩

/-- The stack is not part of the row. -/
theorem row_withoutStack (e : CudaEvent) : e.withoutStack.row = e.row := by
  have hflags : e.flags &&& cudaEvFlagAsync &&& cudaEvFlagAsync = e.flags &&& cudaEvFlagAsync := by
    rw [UInt32.and_assoc, UInt32.and_self]
  rw [CudaEvent.row, CudaEvent.withoutStack]
  dsimp only
  rw [hflags]
  rfl

/-- The event of a call of the workload. -/
theorem exists_event_of_makes {cfg : CudaTracerCfg} {k : UInt64} {c : FlatCall} {m : MockCall}
    (hc : c.On k) (hm : c.Makes m) (hlen : m.op.argsRead ≤ m.args.length) (hp : cfg.Passes k) :
    ∃ e, c.event? cfg = some e ∧ e.row = m.row := by
  obtain ⟨rfl, -, -⟩ := hc
  refine ⟨_, if_pos ⟨hm.fires, hp, hm.reserve⟩, ?_⟩
  obtain ⟨hsize, hptr, hstream⟩ := word_eq_of_prefix hm.args hlen
  have hflags : m.op.entryFlags &&& cudaEvFlagAsync = m.op.entryFlags := by
    rcases entryFlags_eq m.op with ⟨-, h⟩ | ⟨-, h⟩ <;> rw [h] <;> rfl
  rw [row_withoutStack, MockCall.row, ← hsize, ← hptr, ← hstream, ← hflags, ← hm.op]
  change EventRow.mk _ _ _ _ c.leave.ctx.rax.toUInt32.toInt32 _ = _
  rw [hm.ret]
  congr 1

/-- The events of calls of the workload. -/
theorem rows_of_makes {cfg : CudaTracerCfg} {k : UInt64} {calls : List FlatCall}
    {ms : List MockCall} (hms : List.Forall₂ FlatCall.Makes calls ms)
    (hcalls : ∀ c ∈ calls, c.On k) (hlen : ∀ m ∈ ms, m.op.argsRead ≤ m.args.length)
    (hp : cfg.Passes k) :
    (calls.filterMap (FlatCall.event? cfg)).map CudaEvent.row = ms.map MockCall.row := by
  induction hms with
  | nil => rfl
  | @cons c m calls ms hm hrest ih =>
      obtain ⟨hc, hcalls⟩ := List.forall_mem_cons.mp hcalls
      obtain ⟨hm', hlen⟩ := List.forall_mem_cons.mp hlen
      obtain ⟨e, he, hrow⟩ := exists_event_of_makes hc hm hm' hp
      rw [List.filterMap_cons_some he, List.map_cons, List.map_cons, hrow, ih hcalls hlen]

/-- Each call of the workload passes the arguments its probe reads. -/
theorem argsRead_le_of_mem_runIter {fr : IterFrame} {nextStream : UInt64} {m : MockCall}
    (h : m ∈ (runIter fr nextStream).1) : m.op.argsRead ≤ m.args.length := by
  simp only [runIter, List.mem_cons, List.not_mem_nil, or_false] at h
  rcases h with rfl | rfl | rfl | rfl | rfl | rfl | rfl | rfl | rfl | rfl | rfl | rfl <;>
    simp [CudaOp.argsRead]

/-- Every call of the workload has the arguments that the tracer reads. -/
theorem argsRead_le_of_mem_mockCalls {frames : ℕ → IterFrame} {nextStream : UInt64}
    {i iters : ℕ} {m : MockCall} (h : m ∈ mockCalls frames nextStream i iters) :
    m.op.argsRead ≤ m.args.length := by
  induction iters generalizing nextStream i with
  | zero => exact absurd h List.not_mem_nil
  | succ iters ih =>
      rcases List.mem_append.mp h with h | h
      · exact argsRead_le_of_mem_runIter h
      · exact ih h

/-- The rows of the remaining iterations. -/
theorem map_row_mockCalls (frames : ℕ → IterFrame) (nextStream : UInt64) (i iters : ℕ) :
    (mockCalls frames nextStream i iters).map MockCall.row =
      (List.range iters).flatMap fun j =>
        iterRows (frames (i + j)) (nextStream + UInt64.ofNat j) := by
  induction iters generalizing nextStream i with
  | zero => rfl
  | succ iters ih =>
      have hnext : ∀ j, nextStream + 1 + UInt64.ofNat j = nextStream + UInt64.ofNat (j + 1) := by
        intro j
        rw [UInt64.ofNat_add, UInt64.add_assoc, UInt64.add_comm 1]
        rfl
      have hfirst : (runIter (frames i) nextStream).1.map MockCall.row =
          iterRows (frames (i + 0)) (nextStream + UInt64.ofNat 0) := by
        rw [Nat.add_zero, show UInt64.ofNat 0 = 0 from rfl, UInt64.add_zero]
        rfl
      rw [mockCalls, List.map_append, ih, hfirst, List.range_succ_eq_map, List.flatMap_cons,
        List.flatMap_map]
      congr 1
      refine List.flatMap_congr fun j _ => ?_
      rw [Nat.add_assoc, Nat.add_comm 1 j]
      exact congrArg _ (hnext j)

/-- The events of a thread that makes some calls unseen and then calls of the workload. -/
theorem rows_of_mockCalls {cfg : CudaTracerCfg} {acts : List CallAct} {w : CallWorld}
    {K : Finset UInt64} (hk : ∀ act ∈ acts, act.key ∈ K)
    (hcard : K.card ≤ cudaCallsMaxEntries) (hrun : CallWorld.runs cfg acts = some w)
    {k : UInt64} (hp : cfg.Passes k) {early late : List FlatCall}
    (hcalls : ∀ c ∈ early ++ late, c.On k) (exits : Bool)
    (hacts : (acts.filter fun act => act.key = k) =
      .spawn k :: ((early ++ late).flatMap FlatCall.acts ++ if exits then [.exit k] else []))
    (hearly : ∀ c ∈ early, c.enter.fires = false) {frames : ℕ → IterFrame} {stream : UInt64}
    {i n : ℕ} (hmakes : List.Forall₂ FlatCall.Makes late (mockCalls frames stream i n)) :
    (w.threadEvents k).map CudaEvent.row = (mockCalls frames stream i n).map MockCall.row := by
  have hflat := threadEvents_of_flat_calls hk hcard hrun hcalls exits hacts
  have hnone : early.filterMap (FlatCall.event? cfg) = [] :=
    List.filterMap_eq_nil_iff.mpr fun c hc => if_neg fun h => by
      rw [hearly c hc] at h
      exact Bool.false_ne_true h.1
  have hrows := rows_of_makes hmakes (fun c hc => hcalls c (List.mem_append_right early hc))
    (fun m hm => argsRead_le_of_mem_mockCalls hm) hp
  rw [List.filterMap_append, hnone, List.nil_append] at hflat
  rw [← hrows, ← hflat, List.map_map]
  exact List.map_congr_left fun e _ => (row_withoutStack e).symm

/-- **The events of the mock workload.** In every run of at most `10240` thread identities in
which a traced thread runs the workload with all its probes firing and room in the ring, whatever
the other threads do, the thread's events are the twelve of each iteration in order, with the
sizes, pointers, streams and results of the calls. -/
theorem mock_workload_events {cfg : CudaTracerCfg} {acts : List CallAct} {w : CallWorld}
    {K : Finset UInt64} (hk : ∀ act ∈ acts, act.key ∈ K)
    (hcard : K.card ≤ cudaCallsMaxEntries) (hrun : CallWorld.runs cfg acts = some w)
    {k : UInt64} (hp : cfg.Passes k) {calls : List FlatCall} (hcalls : ∀ c ∈ calls, c.On k)
    (exits : Bool)
    (hacts : (acts.filter fun act => act.key = k) =
      .spawn k :: (calls.flatMap FlatCall.acts ++ if exits then [.exit k] else []))
    {frames : ℕ → IterFrame} {iters : ℕ}
    (hmakes : List.Forall₂ FlatCall.Makes calls (workloadCalls frames iters)) :
    (w.threadEvents k).map CudaEvent.row =
        (List.range iters).flatMap
          (fun i => iterRows (frames i) (firstStream + UInt64.ofNat i)) ∧
      (w.threadEvents k).length = iters * eventsPerIter := by
  have hsame : (w.threadEvents k).map CudaEvent.row =
      (mockCalls frames firstStream 0 iters).map MockCall.row :=
    @rows_of_mockCalls cfg acts w K hk hcard hrun k hp [] calls hcalls exits hacts
      (fun c hc => absurd hc List.not_mem_nil) frames firstStream 0 iters hmakes
  refine ⟨?_, ?_⟩
  · rw [hsame, map_row_mockCalls]
    simp only [Nat.zero_add]
  · have hlen := congrArg List.length hsame
    rwa [List.length_map, List.length_map, length_mockCalls] at hlen

/-! ### One iteration -/

/-- The `i`-th call of a thread, made as the workload makes it. -/
def FlatCall.ofMock (k : UInt64) (i : ℕ) (m : MockCall) : FlatCall where
  enter := ⟨⟨k, UInt64.ofNat (20 * i), 0, -1⟩, m.ctx, i + 1, m.op, true⟩
  leave := ⟨⟨k, UInt64.ofNat (20 * i + 10), true, .empty⟩, m.ctx, i + 1, m.op, true⟩

/-- The firings built from a call of the workload make that call. -/
theorem FlatCall.makes_ofMock (k : UInt64) (i : ℕ) (m : MockCall) :
    (FlatCall.ofMock k i m).Makes m := by
  refine ⟨rfl, ?_, rfl, rfl, rfl⟩
  obtain ⟨op, args⟩ := m
  change args.take 5 <+: [args.getD 0 0, args.getD 1 0, args.getD 2 0, args.getD 3 0, args.getD 4 0]
  match args with
  | [] => exact List.nil_prefix
  | [a] => exact ⟨[0, 0, 0, 0], rfl⟩
  | [a, b] => exact ⟨[0, 0, 0], rfl⟩
  | [a, b, c] => exact ⟨[0, 0], rfl⟩
  | [a, b, c, d] => exact ⟨[0], rfl⟩
  | a :: b :: c :: d :: e :: _ => exact ⟨[], rfl⟩

/-- The calls of a list, numbered from `i` on. -/
def FlatCall.ofMocks (k : UInt64) : ℕ → List MockCall → List FlatCall
  | _, [] => []
  | i, m :: ms => .ofMock k i m :: ofMocks k (i + 1) ms

/-- So do those of a whole list, on one thread. -/
theorem FlatCall.makes_ofMocks (k : UInt64) (i : ℕ) (ms : List MockCall) :
    List.Forall₂ FlatCall.Makes (ofMocks k i ms) ms ∧ ∀ c ∈ ofMocks k i ms, c.On k := by
  induction ms generalizing i with
  | nil => exact ⟨.nil, fun c hc => absurd hc List.not_mem_nil⟩
  | cons m ms ih =>
      refine ⟨.cons (makes_ofMock k i m) (ih (i + 1)).1, ?_⟩
      exact List.forall_mem_cons.mpr ⟨⟨rfl, rfl, rfl⟩, (ih (i + 1)).2⟩

/-- The locals of an iteration. -/
def someFrame : IterFrame := ⟨0x7000, 0x7008, 0x7010, 0x7020⟩

/-- The workload with one iteration, while thread `2` is in a call. -/
def oneIterationRun : List CallAct :=
  [.spawn 2, .enterAt 2 0 1 .sync true, .spawn 1] ++
    (FlatCall.ofMocks 1 0 (workloadCalls (fun _ => someFrame) 1)).flatMap FlatCall.acts ++
    [.exit 1, .leaveAt 2 400 1 .sync true]

/-- Two threads take part. -/
theorem keys_oneIterationRun : ∀ act ∈ oneIterationRun, act.key ∈ ({1, 2} : Finset UInt64) := by
  have hall : (oneIterationRun.all fun act => act.key = 1 ∨ act.key = 2) = true := by
    decide +kernel
  intro act hact
  have hkey := of_decide_eq_true (List.all_eq_true.mp hall act hact)
  rwa [Finset.mem_insert, Finset.mem_singleton]

/-- One iteration, and another thread's calls in between. -/
theorem mock_workload_events_one_iteration :
    ∃ w, CallWorld.runs CudaTracerCfg.default oneIterationRun = some w ∧
      (w.threadEvents 1).map CudaEvent.row =
        (List.range 1).flatMap (fun i => iterRows someFrame (firstStream + UInt64.ofNat i)) ∧
      (w.threadEvents 1).length = 1 * eventsPerIter := by
  have hsome : (CallWorld.runs CudaTracerCfg.default oneIterationRun).isSome := by
    decide +kernel
  obtain ⟨w, hrun⟩ := Option.isSome_iff_exists.mp hsome
  obtain ⟨hmakes, hcalls⟩ :=
    FlatCall.makes_ofMocks 1 0 (workloadCalls (fun _ => someFrame) 1)
  exact ⟨w, hrun, mock_workload_events keys_oneIterationRun (by decide) hrun (.inl rfl) hcalls
    true rfl hmakes⟩

end UnifiedTrace
