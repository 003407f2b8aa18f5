import UnifiedTrace.CallRun

/-!
# Attribution of CUDA Events

Each thread has a single slot in `cuda_calls`, overwritten by nested entries, emptied by
every return that fires, and possibly stale after a thread died or a function whose return
probe is not attached came back. This module shows that, whatever subset of the probes is
attached, an event is only ever made from the entry of the call whose return made it.

The invariant is `SlotOk`. A filled slot holds an entry of some operation `op` whose entry
probe is attached. When the return probe of `op` is attached too, the entry is that of the
innermost open call of `op` on the thread, if there is one: a later entry of `op` would
have overwritten the slot and the return of a later call of `op` would have emptied it. A
return of `op` comes from the innermost open call, so it can only meet its own entry.

## Main results

* `SlotOk.of_run`: the invariant holds in every run with a fixed set of probes.
* `owns_eventOf`: a return that reads what its own call saved makes the event of that call.
* `cuda_attribution_sound`: every event reports one call, with a duration that does not
  wrap, and no call is reported twice.
-/

namespace UnifiedTrace

/-- A probe that `main` may have attached: the entry or the return of a function. -/
inductive Probe
  | entry (op : CudaOp)
  | ret (op : CudaOp)
  deriving DecidableEq

/-- The probes fire exactly as they are attached. -/
def CallAct.FiresAs (attached : Probe → Bool) : CallAct → Prop
  | spawn _ => True
  | exit _ => True
  | enter a => a.fires = attached (.entry a.op)
  | leave a => a.fires = attached (.ret a.op)

/-- The event reports a call that stored `info` at its entry and returned at `now` with `rc` in the
result register: the entry data are those of `info`, the duration is the time from the entry to the
return, without wrapping, and the result is the low half of `rc`. -/
structure CudaEvent.Reports (e : CudaEvent) (info : CudaCallInfo) (now rc : UInt64) : Prop where
  opType : e.opType = info.opType
  timestamp : e.timestamp = info.timestamp
  pid : e.pid = info.pid
  size : e.size = info.size
  ptr : e.ptr = info.ptr
  streamId : e.streamId = info.streamId
  flags : e.flags = info.flags
  stackId : e.stackId = info.stackId
  started : info.timestamp ≤ now
  duration : e.durationNs.toNat = now.toNat - info.timestamp.toNat
  retVal : e.retVal = rc.toUInt32.toInt32

/-- The event of a return reports the entry it was made from, if that lies in the past. -/
theorem reports_eventOf {info : CudaCallInfo} {env : ReturnEnv} (ctx : PtRegs)
    (hle : info.timestamp ≤ env.now) :
    (eventOf info env ctx info.opType).Reports info env.now ctx.rc where
  opType := rfl
  timestamp := rfl
  pid := rfl
  size := rfl
  ptr := rfl
  streamId := rfl
  flags := rfl
  stackId := rfl
  started := hle
  duration := UInt64.toNat_sub_of_le _ _ hle
  retVal := rfl

/-- The event is the own event of a call that returned: it was made from what the entry of that
call stored, on the thread of the call, and reports its return. -/
structure Returned.Owns (r : Returned) (e : CudaEvent) : Prop where
  /-- The slot was last filled by this call. -/
  source : r.source = some r.call.index
  thread : r.call.env.pidTgid = r.key
  tid : e.tid = tidOf r.key
  entry : ∃ info, r.call.saved = some info ∧
    CallWorld.StoredBy r.call.env r.call.ctx r.call.op info ∧ e.Reports info r.now r.rc

namespace CallWorld

/-- What a slot says about the thread it belongs to: see the module documentation. -/
structure SlotOk (cfg : CudaTracerCfg) (attached : Probe → Bool) (w : CallWorld) :
    Prop where
  slot : ∀ k info, w.maps.cudaCalls.lookup k = some info →
    cfg.Passes k ∧ ∃ op : CudaOp, info.opType = op.code ∧ attached (.entry op) = true ∧
      (attached (.ret op) = true → ∀ cs, w.stack k = some cs →
        ∀ c, cs.find? (fun c => c.op = op) = some c →
          c.saved = some info ∧ w.filledBy k = some c.index)
  reports : ∀ r ∈ w.returned, ∀ e, r.event = some e → r.Owns e

variable {cfg : CudaTracerCfg} {attached : Probe → Bool} {w w' : CallWorld}

/-- A return that reads what its own call saved makes the event of that call. -/
theorem owns_eventOf {a : LeaveAct} {c : Call} {info : CudaCallInfo}
    (hc : EnteredOn c a.env.pidTgid w.clock)
    (hfilled : w.filledBy a.env.pidTgid = some c.index) (hsaved : c.saved = some info)
    (hclock : w.clock ≤ a.env.now) :
    (w.returnedOf a c).Owns (eventOf info a.env a.ctx info.opType) where
  source := hfilled
  thread := hc.thread
  tid := rfl
  entry := ⟨info, hsaved, hc.stored info hsaved,
    reports_eventOf a.ctx ((hc.mono hclock).time_le hsaved)⟩

/-- The map starts empty. -/
theorem SlotOk.init : SlotOk cfg attached init where
  slot := by intro k info h; exact absurd h (by simp [CallWorld.init, CudaMaps.init])
  reports := by intro r hr; exact absurd hr (by simp [CallWorld.init])

/-- A thread that appears or disappears has no open call, so its slot promises nothing. -/
theorem SlotOk.setStack {k : UInt64} {o : Option (List Call)} (hw : SlotOk cfg attached w)
    (ho : ∀ cs, o = some cs → cs = []) : SlotOk cfg attached (w.setStack k o) := by
  refine ⟨?_, hw.reports⟩
  intro k' info hinfo
  obtain ⟨hp, op, hcode, hentry, hfind⟩ := hw.slot k' info hinfo
  refine ⟨hp, op, hcode, hentry, ?_⟩
  intro hret cs hcs c hc
  rcases stack_setStack_eq_some ho hcs with rfl | hcs
  · exact absurd hc (by simp)
  · exact hfind hret cs hcs c hc

/-- An entry keeps the invariant. Either it stores, and the slot, if filled, is its own;
or its probe is not attached, and the slot belongs to another operation. -/
theorem SlotOk.entered {a : EnterAct} {cs : List Call} (hw : SlotOk cfg attached w)
    (hcs : w.stack a.env.pidTgid = some cs) (hfires : a.fires = attached (.entry a.op)) :
    SlotOk cfg attached (w.entered cfg a cs) := by
  refine ⟨?_, hw.reports⟩
  intro k info hinfo
  rcases lookup_entered_cases hinfo with ⟨rfl, hsaved⟩ | ⟨hold, hmissed⟩
  · obtain ⟨hs, hstored⟩ := of_savedBy_eq_some hsaved
    refine ⟨hs.2, a.op, hstored.opType, hfires ▸ hs.1, ?_⟩
    intro _ ds hds c hc
    rw [stack_entered] at hds
    obtain rfl := Option.some.inj hds
    rw [List.find?_cons_of_pos (by simp)] at hc
    obtain rfl := Option.some.inj hc
    exact ⟨hsaved, filledBy_entered cs (fireEntry_snd_eq_zero_iff.mpr hs)⟩
  · obtain ⟨hp, op, hcode, hentry, hfind⟩ := hw.slot k info hold
    refine ⟨hp, op, hcode, hentry, ?_⟩
    intro hret ds hds c hc
    rcases eq_or_ne k a.env.pidTgid with rfl | hk
    · have hs := hmissed rfl
      have hne : a.op ≠ op := by
        rintro rfl
        exact hs ⟨hfires.trans hentry, hp⟩
      rw [stack_entered] at hds
      obtain rfl := Option.some.inj hds
      rw [List.find?_cons_of_neg (by simpa using hne)] at hc
      rw [filledBy_entered_of_ne cs (mt fireEntry_snd_eq_zero_iff.mp hs)]
      exact hfind hret cs hcs c hc
    · rw [stack_entered_ne cs hk] at hds
      rw [filledBy_entered_ne cs hk]
      exact hfind hret ds hds c hc

/-- **A return meets its own entry.** When a return probe finds a slot of its own operation,
the slot was filled by the call that returns. -/
theorem SlotOk.own_entry {a : LeaveAct} {c : Call} {cs : List Call} {info : CudaCallInfo}
    (hw : SlotOk cfg attached w) (hcs : w.stack a.env.pidTgid = some (c :: cs))
    (hop : a.op = c.op) (hfires : a.fires = attached (.ret a.op)) (hf : a.fires = true)
    (hinfo : w.maps.cudaCalls.lookup a.env.pidTgid = some info)
    (hcode : info.opType = a.op.code) :
    c.saved = some info ∧ w.filledBy a.env.pidTgid = some c.index := by
  obtain ⟨-, op, hcode', -, hfind⟩ := hw.slot _ info hinfo
  obtain rfl : op = a.op := CudaOp.code_injective (hcode'.symm.trans hcode)
  exact hfind (hfires ▸ hf) _ hcs c (List.find?_cons_of_pos (by simp [hop]))

/-- A return keeps the invariant. If it fires, its slot is empty afterwards; if not, its
return probe is not attached, and closing its call opens no promise. -/
theorem SlotOk.left {a : LeaveAct} {c : Call} {cs : List Call} (hw : SlotOk cfg attached w)
    (hcalls : CallsOk w) (hcs : w.stack a.env.pidTgid = some (c :: cs))
    (hclock : w.clock ≤ a.env.now) (hop : a.op = c.op)
    (hfires : a.fires = attached (.ret a.op)) : SlotOk cfg attached (w.left a c cs) := by
  refine ⟨?_, ?_⟩
  · intro k info hinfo
    obtain ⟨hold, hmissed⟩ := lookup_left_cases hinfo
    obtain ⟨hp, op, hcode, hentry, hfind⟩ := hw.slot k info hold
    refine ⟨hp, op, hcode, hentry, ?_⟩
    intro hret ds hds d hd
    rcases eq_or_ne k a.env.pidTgid with rfl | hk
    · rw [stack_left] at hds
      obtain rfl := Option.some.inj hds
      have hne : c.op ≠ op := by
        rintro rfl
        exact hmissed rfl (hfires.trans (hop ▸ hret))
      exact hfind hret _ hcs d (by rwa [List.find?_cons_of_neg (by simpa using hne)])
    · rw [stack_left_ne c cs hk] at hds
      exact hfind hret ds hds d hd
  · intro r hr e he
    rcases List.mem_append.mp hr with hr | hr
    · exact hw.reports r hr e he
    · obtain rfl := List.mem_singleton.mp hr
      obtain ⟨hf, info, hinfo, hcode, -, rfl⟩ := fireReturn_eq_some_iff.mp he
      obtain ⟨hsaved, hfilled⟩ := hw.own_entry hcs hop hfires hf hinfo hcode
      have hc := hcalls _ _ hcs c List.mem_cons_self
      exact hcode ▸ owns_eventOf hc hfilled hsaved hclock

/-- Every action keeps the invariant. -/
theorem SlotOk.of_step {act : CallAct} (hw : SlotOk cfg attached w) (hcalls : CallsOk w)
    (hfires : act.FiresAs attached) (h : step cfg w act = some w') :
    SlotOk cfg attached w' := by
  cases act with
  | spawn k =>
      obtain ⟨-, rfl⟩ := step_spawn_eq_some h
      exact hw.setStack fun cs hcs => (Option.some.inj hcs).symm
  | exit k =>
      obtain rfl := step_exit_eq_some h
      exact hw.setStack fun cs hcs => absurd hcs (by simp)
  | enter a =>
      obtain ⟨cs, hcs, -, -, rfl⟩ := step_enter_eq_some h
      exact hw.entered hcs hfires
  | leave a =>
      obtain ⟨c, cs, hcs, hclock, -, hop, rfl⟩ := step_leave_eq_some h
      exact hw.left hcalls hcs hclock hop hfires

/-- The invariant holds after every run with a fixed set of attached probes. -/
theorem SlotOk.of_run {acts : List CallAct} (hfires : ∀ act ∈ acts, act.FiresAs attached)
    (h : runs cfg acts = some w) : SlotOk cfg attached w :=
  (ActionRun.run_invariant (I := fun u => CallsOk u ∧ SlotOk cfg attached u)
    ⟨CallsOk.init, SlotOk.init⟩
    (fun act hact _ _ hu hstep =>
      ⟨hu.1.of_step hstep, hu.2.of_step hu.1 (hfires act hact) hstep⟩) h).2

/-- The names of the calls for which an event was submitted. -/
def submitted (w : CallWorld) : List (UInt64 × ℕ) :=
  (w.returned.filter fun r => r.event.isSome).map Returned.name

end CallWorld

/-- **CUDA call attribution is sound.** In every run in which the attached probes fire and
the others do not, each submitted event is that of the call whose return submitted it: on the
thread of that call, with what the entry probe of that very call stored, which is the time and the
arguments of its entry, and with the time from that entry to that return and its result; and no
call is reported twice. -/
theorem cuda_attribution_sound {cfg : CudaTracerCfg} {attached : Probe → Bool}
    {acts : List CallAct} {w : CallWorld}
    (hfires : ∀ act ∈ acts, act.FiresAs attached) (hrun : CallWorld.runs cfg acts = some w) :
    (∀ r ∈ w.returned, ∀ e, r.event = some e → r.Owns e) ∧ w.submitted.Nodup := by
  refine ⟨(CallWorld.SlotOk.of_run hfires hrun).reports, ?_⟩
  have hnames := (CallWorld.NamesOk.of_run hrun).nodup
  exact hnames.sublist (List.filter_sublist.map Returned.name)

/-- A run in which `cudaMalloc` returns are not probed: thread `1` is killed inside
`cudaFree`, and its identity makes a `cudaMemcpy` inside a `cudaMalloc` and one more
`cudaFree`, while thread `2` synchronises. -/
def reusedIdentityRun : List CallAct :=
  [.spawn 1, .enterAt 1 10 1 .free true, .exit 1, .spawn 2, .spawn 1,
    .enterAt 2 11 1 .sync true, .enterAt 1 12 2 .malloc true,
    .enterAt 1 13 3 .memcpy true, .leaveAt 1 15 3 .memcpy true,
    .leaveAt 1 16 2 .malloc false, .enterAt 1 17 4 .free true,
    .leaveAt 2 19 1 .sync true, .leaveAt 1 20 4 .free true]

/-- The copy, the synchronisation and the second `cudaFree` are reported, each as entered. -/
theorem cuda_attribution_sound_reused_identity :
    ∃ w, CallWorld.runs CudaTracerCfg.default reusedIdentityRun = some w ∧
      w.submitted = [(1, 3), (2, 1), (1, 4)] ∧
      w.cudaEvents.map (fun e => (e.timestamp, e.durationNs)) = [(13, 2), (11, 8), (17, 3)] ∧
      (∀ r ∈ w.returned, ∀ e, r.event = some e → r.Owns e) ∧ w.submitted.Nodup := by
  have hmap : (CallWorld.runs CudaTracerCfg.default reusedIdentityRun).map (fun w =>
      (w.submitted, w.cudaEvents.map fun e => (e.timestamp, e.durationNs))) =
        some ([(1, 3), (2, 1), (1, 4)], [(13, 2), (11, 8), (17, 3)]) := by decide +kernel
  obtain ⟨w, hrun, hfacts⟩ := Option.map_eq_some_iff.mp hmap
  obtain ⟨hsub, hspans⟩ := Prod.mk.inj hfacts
  have hfires : ∀ act ∈ reusedIdentityRun, act.FiresAs fun p => p ≠ .ret .malloc := by
    simp [reusedIdentityRun, CallAct.FiresAs, CallAct.enterAt, CallAct.leaveAt]
  exact ⟨w, hrun, hsub, hspans, cuda_attribution_sound hfires hrun⟩

end UnifiedTrace
