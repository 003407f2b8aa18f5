import UnifiedTrace.CallSpans
import UnifiedTrace.EventShape
import UnifiedTrace.NestedCalls

/-!
# A Thread's Events Are Its Own

All threads share `cuda_calls` and the sampling counters. While the map has room for all of
them, what is reported of a thread depends on the others only through the counters, that is in
whether a call has a stack: the events of a thread are otherwise those of a run in which it is
alone. Probes may be missed and reservations may fail.

## Main results

* `SameThread.of_skip`: what the other threads do is not seen.
* `SameThread.of_follow`: what the thread does has the same effect in both runs.
* `thread_events_isolated`: the events of a thread are those of the thread alone.
-/

namespace UnifiedTrace

/-! ### Without the stacks -/

/-- An event without what depends on its stack. -/
def CudaEvent.withoutStack (e : CudaEvent) : CudaEvent :=
  { e with stackId := -1, flags := e.flags &&& cudaEvFlagAsync }

/-- What the event of a call says besides its stack. -/
theorem withoutStack_eventOf_withStack (a : EnterAct) (sid sid' : Int32) (env : ReturnEnv)
    (ctx : PtRegs) (opType : UInt32) :
    (eventOf (a.info.withStack sid) env ctx opType).withoutStack =
      (eventOf (a.info.withStack sid') env ctx opType).withoutStack := by
  have hflags : ∀ sid : Int32,
      (a.info.withStack sid).flags &&& cudaEvFlagAsync = a.op.entryFlags := by
    intro sid
    change (if 0 ≤ sid then a.op.entryFlags ||| cudaEvFlagStackSampled else a.op.entryFlags) &&&
      cudaEvFlagAsync = a.op.entryFlags
    rcases entryFlags_eq a.op with ⟨-, h⟩ | ⟨-, h⟩
    · rw [h]
      split <;> rfl
    · rw [h]
      split <;> rfl
  have hf := (hflags sid).trans (hflags sid').symm
  rw [CudaEvent.withoutStack, CudaEvent.withoutStack]
  simp only [eventOf, hf]
  rfl

/-- Two slots hold the same call up to its stack, or are both empty. -/
def SameSlot (o o' : Option CudaCallInfo) : Prop :=
  o = none ∧ o' = none ∨
    ∃ (a : EnterAct) (sid sid' : Int32), o = some (a.info.withStack sid) ∧
      o' = some (a.info.withStack sid')

/-- What the two runs agree on about an open call. -/
def Call.plain (c : Call) : ℕ × CudaOp := (c.index, c.op)

namespace CallWorld

variable {cfg : CudaTracerCfg} {K : Finset UInt64} {k : UInt64} {w w' u : CallWorld}

/-- `u` is a world in which the thread `k` of `w` has done what it did. -/
structure SameThread (K : Finset UInt64) (k : UInt64) (w u : CallWorld) : Prop where
  clock : u.clock ≤ w.clock
  entries : u.entries k = w.entries k
  stack : (u.stack k).map (List.map Call.plain) = (w.stack k).map (List.map Call.plain)
  slot : SameSlot (w.maps.cudaCalls.lookup k) (u.maps.cudaCalls.lookup k)
  keys : ∀ k' ∈ w.maps.cudaCalls.keys, k' ∈ K
  keys_alone : ∀ k' ∈ u.maps.cudaCalls.keys, k' ∈ K
  events : (u.threadEvents k).map CudaEvent.withoutStack =
    (w.threadEvents k).map CudaEvent.withoutStack

/-- Both worlds start empty. -/
theorem SameThread.init : SameThread K k init init where
  clock := UInt64.le_refl _
  entries := rfl
  stack := rfl
  slot := .inl ⟨rfl, rfl⟩
  keys := by intro k' hk'; exact absurd hk' (by simp [CallWorld.init, CudaMaps.init])
  keys_alone := by intro k' hk'; exact absurd hk' (by simp [CallWorld.init, CudaMaps.init])
  events := rfl

/-! ### Actions of the other threads -/

/-- **The others are not seen.** -/
theorem SameThread.of_skip {act : CallAct} (h : SameThread K k w u) (hkey : act.key ≠ k)
    (hK : act.key ∈ K) (hstep : step cfg w act = some w') : SameThread K k w' u := by
  cases act with
  | spawn k' =>
      obtain ⟨-, rfl⟩ := step_spawn_eq_some hstep
      exact { h with stack := h.stack.trans (congrArg _ (stack_setStack_ne _ hkey.symm).symm) }
  | exit k' =>
      obtain rfl := step_exit_eq_some hstep
      exact { h with stack := h.stack.trans (congrArg _ (stack_setStack_ne _ hkey.symm).symm) }
  | enter a =>
      obtain ⟨cs, -, hclock, -, rfl⟩ := step_enter_eq_some hstep
      have hne : k ≠ a.env.pidTgid := Ne.symm hkey
      refine ⟨UInt64.le_trans h.clock hclock, ?_, ?_, ?_, ?_, h.keys_alone, h.events⟩
      · rw [entries_entered_ne cs hne]
        exact h.entries
      · rw [stack_entered_ne cs hne]
        exact h.stack
      · rw [entered, lookup_fireEntry_ne hne]
        exact h.slot
      · intro k' hk'
        rcases List.mem_cons.mp (keys_fireEntry_subset hk') with rfl | hk'
        · exact hK
        · exact h.keys k' hk'
  | leave a =>
      obtain ⟨c, cs, -, hclock, -, -, rfl⟩ := step_leave_eq_some hstep
      have hne : k ≠ a.env.pidTgid := Ne.symm hkey
      refine ⟨UInt64.le_trans h.clock hclock, h.entries, ?_, ?_, ?_, h.keys_alone, ?_⟩
      · rw [stack_left_ne c cs hne]
        exact h.stack
      · rw [left, lookup_fireReturn_ne hne]
        exact h.slot
      · exact fun k' hk' => h.keys k' (keys_fireReturn_subset hk')
      · rw [threadEvents_left_ne c cs hne]
        exact h.events

/-! ### Actions of the thread -/

/-- A traced firing with room fills its slot, with some stack. -/
theorem lookup_fireEntry_of_traced {maps : CudaMaps} {a : EnterAct}
    (hkeys : ∀ k' ∈ maps.cudaCalls.keys, k' ∈ K) (hK : a.env.pidTgid ∈ K)
    (hcard : K.card ≤ cudaCallsMaxEntries) (hf : a.fires = true)
    (hp : cfg.Passes a.env.pidTgid) :
    ∃ sid : Int32, (fireEntry cfg maps a).1.cudaCalls.lookup a.env.pidTgid =
      some (a.info.withStack sid) := by
  obtain ⟨sid, maps', -, hmaps, hfire⟩ := fireEntry_of_traced maps hf hp
  refine ⟨sid, ?_⟩
  rw [hfire]
  apply lookup_setCall_of_isSome
  exact BoundedMap.update_isSome_of_subset _ (hmaps ▸ hkeys) hK hcard

/-- An entry of the thread leaves the same call in both slots. -/
theorem SameThread.slot_entered {a : EnterAct} (h : SameThread K a.env.pidTgid w u)
    (hK : a.env.pidTgid ∈ K) (hcard : K.card ≤ cudaCallsMaxEntries) :
    SameSlot ((fireEntry cfg w.maps a).1.cudaCalls.lookup a.env.pidTgid)
      ((fireEntry cfg u.maps a).1.cudaCalls.lookup a.env.pidTgid) := by
  by_cases hs : a.fires = true ∧ cfg.Passes a.env.pidTgid
  · obtain ⟨sid, hw⟩ := lookup_fireEntry_of_traced h.keys hK hcard hs.1 hs.2
    obtain ⟨sid', hu⟩ := lookup_fireEntry_of_traced h.keys_alone hK hcard hs.1 hs.2
    exact .inr ⟨a, sid, sid', hw, hu⟩
  · rw [fireEntry_of_not_stores hs, fireEntry_of_not_stores hs]
    exact h.slot

/-- A return of the thread leaves the same in both slots. -/
theorem SameThread.slot_left {a : LeaveAct} (h : SameThread K a.env.pidTgid w u) :
    SameSlot ((fireReturn w.maps a).1.cudaCalls.lookup a.env.pidTgid)
      ((fireReturn u.maps a).1.cudaCalls.lookup a.env.pidTgid) := by
  by_cases hf : a.fires = true
  · exact .inl ⟨lookup_fireReturn hf, lookup_fireReturn hf⟩
  · rw [fireReturn, fireReturn, if_neg hf, if_neg hf]
    exact h.slot

/-- A firing of a return probe from a slot, as a function of the slot. -/
theorem fireReturn_snd (maps : CudaMaps) (a : LeaveAct) :
    (fireReturn maps a).2 = (maps.cudaCalls.lookup a.env.pidTgid).bind fun info =>
      if a.fires = true ∧ info.opType = a.op.code ∧ a.env.reserve = true then
        some (eventOf info a.env a.ctx a.op.code)
      else none := by
  ext e
  rw [fireReturn_eq_some_iff, Option.bind_eq_some_iff]
  constructor
  · rintro ⟨hf, info, hinfo, hcode, hr, rfl⟩
    exact ⟨info, hinfo, if_pos ⟨hf, hcode, hr⟩⟩
  · rintro ⟨info, hinfo, he⟩
    split at he
    · rename_i hg
      exact ⟨hg.1, info, hinfo, hg.2.1, hg.2.2, (Option.some.inj he).symm⟩
    · exact absurd he (by simp)

/-- A return of the thread submits the same event in both runs, up to its stack. -/
theorem SameThread.event_left {a : LeaveAct} (h : SameThread K a.env.pidTgid w u) :
    (fireReturn u.maps a).2.toList.map CudaEvent.withoutStack =
      (fireReturn w.maps a).2.toList.map CudaEvent.withoutStack := by
  rw [fireReturn_snd, fireReturn_snd]
  rcases h.slot with ⟨hw, hu⟩ | ⟨b, sid, sid', hw, hu⟩
  · rw [hw, hu]
  · have hcode : (b.info.withStack sid').opType = (b.info.withStack sid).opType := rfl
    rw [hw, hu, Option.bind_some, Option.bind_some, hcode]
    split
    · rw [Option.toList_some, Option.toList_some, List.map_singleton, List.map_singleton,
        withoutStack_eventOf_withStack b sid' sid]
    · rfl

/-- **The thread's own actions** are possible alone and have the same effect. -/
theorem SameThread.of_follow {act : CallAct} (h : SameThread K k w u) (hkey : act.key = k)
    (hK : act.key ∈ K) (hcard : K.card ≤ cudaCallsMaxEntries)
    (hstep : step cfg w act = some w') :
    ∃ u', step cfg u act = some u' ∧ SameThread K k w' u' := by
  subst hkey
  cases act with
  | spawn k =>
      obtain ⟨hnone, rfl⟩ := step_spawn_eq_some hstep
      have hu : u.stack k = none :=
        Option.map_eq_none_iff.mp (h.stack.trans (Option.map_eq_none_iff.mpr hnone))
      refine ⟨u.setStack k (some []), by rw [step, if_pos hu], { h with stack := ?_ }⟩
      exact congrArg _ ((stack_setStack k _).trans (stack_setStack k _).symm)
  | exit k =>
      have hsome : ¬ w.stack k = none := by
        intro hnone
        rw [step, if_pos hnone] at hstep
        exact absurd hstep (by simp)
      obtain rfl := step_exit_eq_some hstep
      have hu : ¬ u.stack k = none := fun hnone =>
        hsome (Option.map_eq_none_iff.mp (h.stack.symm.trans (Option.map_eq_none_iff.mpr hnone)))
      refine ⟨u.setStack k none, by rw [step, if_neg hu], { h with stack := ?_ }⟩
      exact congrArg _ ((stack_setStack k _).trans (stack_setStack k _).symm)
  | enter a =>
      obtain ⟨cs, hcs, hclock, hcall, rfl⟩ := step_enter_eq_some hstep
      obtain ⟨ds, hds, hplain⟩ := Option.map_eq_some_iff.mp
        (h.stack.trans (Option.map_eq_some_iff.mpr ⟨cs, hcs, rfl⟩))
      have hstep' := @step_enter_of_stack cfg u a ds hds (UInt64.le_trans h.clock hclock)
        (hcall.trans (congrArg (· + 1) h.entries.symm))
      refine ⟨u.entered cfg a ds, hstep', UInt64.le_refl _, ?_, ?_, h.slot_entered hK hcard,
        ?_, ?_, h.events⟩
      · exact (entries_entered a ds).trans
          ((congrArg (· + 1) h.entries).trans (entries_entered a cs).symm)
      · refine (congrArg _ (stack_entered a ds)).trans
          (Eq.trans ?_ (congrArg _ (stack_entered a cs)).symm)
        simp [Call.plain, hplain]
      · intro k' hk'
        rcases List.mem_cons.mp (keys_fireEntry_subset hk') with rfl | hk'
        · exact hK
        · exact h.keys k' hk'
      · intro k' hk'
        rcases List.mem_cons.mp (keys_fireEntry_subset hk') with rfl | hk'
        · exact hK
        · exact h.keys_alone k' hk'
  | leave a =>
      obtain ⟨c, cs, hcs, hclock, hcall, hop, rfl⟩ := step_leave_eq_some hstep
      obtain ⟨ds, hds, hplain⟩ := Option.map_eq_some_iff.mp
        (h.stack.trans (Option.map_eq_some_iff.mpr ⟨c :: cs, hcs, rfl⟩))
      obtain ⟨d, ds, rfl, hd, hplain⟩ := List.map_eq_cons_iff.mp hplain
      obtain ⟨hindex, hdop⟩ := Prod.mk.inj hd
      have hstep' := @step_leave_of_stack cfg u a d ds hds (UInt64.le_trans h.clock hclock)
        (hcall.trans hindex.symm) (hop.trans hdop.symm)
      refine ⟨u.left a d ds, hstep', UInt64.le_refl _, h.entries, ?_, h.slot_left, ?_, ?_, ?_⟩
      · refine (congrArg _ (stack_left a d ds)).trans
          (Eq.trans ?_ (congrArg _ (stack_left a c cs)).symm)
        exact congrArg some hplain
      · exact fun k' hk' => h.keys k' (keys_fireReturn_subset hk')
      · exact fun k' hk' => h.keys_alone k' (keys_fireReturn_subset hk')
      · have hev := h.events
        have hlast := h.event_left
        dsimp only [CallAct.key] at hev ⊢
        rw [threadEvents_left, threadEvents_left, List.map_append, List.map_append, hev, hlast]

end CallWorld

/-- **A thread's events are its own.** In every run of at most `10240` thread identities, with
any probes missed and any reservations failing, the actions of one identity are a run by
themselves, and with the same answers of the ring to its reservations that run reports the same
events in the same order, but for which of them have a stack. So what other threads do can change
the events of a thread only through the room they take in the ring. -/
theorem thread_events_isolated {cfg : CudaTracerCfg} {acts : List CallAct} {w : CallWorld}
    {K : Finset UInt64} (hk : ∀ act ∈ acts, act.key ∈ K)
    (hcard : K.card ≤ cudaCallsMaxEntries) (hrun : CallWorld.runs cfg acts = some w)
    (k : UInt64) :
    ∃ u, CallWorld.runs cfg (acts.filter fun act => act.key = k) = some u ∧
      (u.threadEvents k).map CudaEvent.withoutStack =
        (w.threadEvents k).map CudaEvent.withoutStack := by
  have hskip : ∀ act ∈ acts, ¬ decide (act.key = k) = true → ∀ v v' x,
      CallWorld.SameThread K k v x → CallWorld.step cfg v act = some v' →
        CallWorld.SameThread K k v' x :=
    fun act hact hne v v' x hx hstep =>
      hx.of_skip (fun heq => hne (decide_eq_true heq)) (hk act hact) hstep
  have hfollow : ∀ act ∈ acts, decide (act.key = k) = true → ∀ v v' x,
      CallWorld.SameThread K k v x → CallWorld.step cfg v act = some v' →
        ∃ y, CallWorld.step cfg x act = some y ∧ CallWorld.SameThread K k v' y :=
    fun act hact heq v v' x hx hstep =>
      hx.of_follow (of_decide_eq_true heq) (hk act hact) hcard hstep
  obtain ⟨u, hu, hsame⟩ :=
    ActionRun.run_filter CallWorld.SameThread.init hskip hfollow hrun
  exact ⟨u, hu, hsame.events⟩

/-- The thread `1` of `nestedRun` alone. -/
theorem thread_events_isolated_nested :
    ∃ w u, CallWorld.runs CudaTracerCfg.default nestedRun = some w ∧
      CallWorld.runs CudaTracerCfg.default (nestedRun.filter fun act => act.key = 1) = some u ∧
      (w.threadEvents 1).length = 1 ∧
      (u.threadEvents 1).map CudaEvent.withoutStack =
        (w.threadEvents 1).map CudaEvent.withoutStack := by
  have hmap : (CallWorld.runs CudaTracerCfg.default nestedRun).map
      (fun w => (w.threadEvents 1).length) = some 1 := by decide +kernel
  obtain ⟨w, hrun, hlen⟩ := Option.map_eq_some_iff.mp hmap
  obtain ⟨u, hu, hevents⟩ :=
    thread_events_isolated nestedRun_undisturbed.2 (by decide) hrun 1
  exact ⟨w, u, hrun, hu, hlen, hevents⟩

end UnifiedTrace
