import UnifiedTrace.CallRun

/-!
# The Spans of a Thread's CUDA Events

Traced calls of a thread nest, but its events do not. A return that submits an event empties
the slot of its thread, so the next event of that thread is made from an entry that fired
later: the calls around the reported one lost their entries when it was stored. This holds
whichever probes fire and whatever else goes wrong, because it only rests on the slot being
single and on the clock.

## Main results

* `SpansOk.of_run`: a filled slot was filled after the last event of its thread ended.
* `cuda_spans_disjoint`: the spans of a thread follow each other in the order of submission.
-/

namespace UnifiedTrace

/-- The end of the interval that an event covers. -/
def CudaEvent.endTime (e : CudaEvent) : ℕ := e.timestamp.toNat + e.durationNs.toNat

/-- The span of an event that was made in time ends when its call returns. -/
theorem endTime_eventOf {info : CudaCallInfo} {env : ReturnEnv} (ctx : PtRegs)
    (opType : UInt32) (h : info.timestamp ≤ env.now) :
    (eventOf info env ctx opType).endTime = env.now.toNat := by
  have hdur : (env.now - info.timestamp).toNat = env.now.toNat - info.timestamp.toNat :=
    UInt64.toNat_sub_of_le _ _ h
  have hle : info.timestamp.toNat ≤ env.now.toNat := h
  change info.timestamp.toNat + (env.now - info.timestamp).toNat = env.now.toNat
  omega

namespace CallWorld

/-- The events submitted under an identity, in the order of submission. -/
def threadEvents (w : CallWorld) (k : UInt64) : List CudaEvent :=
  (w.returned.filter fun r => r.key = k).filterMap Returned.event

variable {cfg : CudaTracerCfg} {w w' : CallWorld}

/-- A return appends its event to those of its thread. -/
theorem threadEvents_left (a : LeaveAct) (c : Call) (cs : List Call) :
    (w.left a c cs).threadEvents a.env.pidTgid =
      w.threadEvents a.env.pidTgid ++ (fireReturn w.maps a).2.toList := by
  have hkey : [w.returnedOf a c].filter (fun r => r.key = a.env.pidTgid) =
      [w.returnedOf a c] :=
    List.filter_eq_self.mpr fun r hr => by
      obtain rfl := List.mem_singleton.mp hr
      exact decide_eq_true rfl
  have hevent : [w.returnedOf a c].filterMap Returned.event =
      (fireReturn w.maps a).2.toList := by
    cases h : (fireReturn w.maps a).2 with
    | none => exact List.filterMap_cons_none h
    | some e => exact List.filterMap_cons_some h
  rw [threadEvents, left, List.filter_append, List.filterMap_append, hkey, hevent, threadEvents]

/-- It appends nothing to those of the others. -/
theorem threadEvents_left_ne {a : LeaveAct} (c : Call) (cs : List Call) {k : UInt64}
    (h : k ≠ a.env.pidTgid) : (w.left a c cs).threadEvents k = w.threadEvents k := by
  have hkey : [w.returnedOf a c].filter (fun r => r.key = k) = [] :=
    List.filter_eq_nil_iff.mpr fun r hr => by
      obtain rfl := List.mem_singleton.mp hr
      exact fun he => h (of_decide_eq_true he).symm
  rw [threadEvents, left, List.filter_append, hkey, List.append_nil, ← threadEvents]

/-- The spans submitted so far lie behind one another and behind the slot of their thread,
and none reaches beyond now. -/
structure SpansOk (w : CallWorld) : Prop where
  slot_le : ∀ k info, w.maps.cudaCalls.lookup k = some info → info.timestamp ≤ w.clock
  slot_after : ∀ k info, w.maps.cudaCalls.lookup k = some info →
    ∀ e ∈ w.threadEvents k, e.endTime ≤ info.timestamp.toNat
  ended : ∀ k, ∀ e ∈ w.threadEvents k, e.endTime ≤ w.clock.toNat
  ordered : ∀ k, (w.threadEvents k).Pairwise fun e f => e.endTime ≤ f.timestamp.toNat

/-- No event has been submitted. -/
theorem SpansOk.init : SpansOk init where
  slot_le := by intro k info h; exact absurd h (by simp [CallWorld.init, CudaMaps.init])
  slot_after := by intro k info h; exact absurd h (by simp [CallWorld.init, CudaMaps.init])
  ended := by intro k e he; exact absurd he (by simp [threadEvents, CallWorld.init])
  ordered := by intro k; simp [threadEvents, CallWorld.init]

/-- An entry fills the slot, if at all, after all spans that ended. -/
theorem SpansOk.entered {a : EnterAct} (hw : SpansOk w) (cs : List Call)
    (hclock : w.clock ≤ a.env.now) : SpansOk (w.entered cfg a cs) := by
  have hnow : w.clock.toNat ≤ a.env.now.toNat := hclock
  refine ⟨?_, ?_, fun k e he => (hw.ended k e he).trans hnow, hw.ordered⟩
  · intro k info hinfo
    rcases lookup_entered_cases hinfo with ⟨rfl, hsaved⟩ | ⟨hold, -⟩
    · exact UInt64.le_of_eq (of_savedBy_eq_some hsaved).2.time
    · exact UInt64.le_trans (hw.slot_le k info hold) hclock
  · intro k info hinfo e he
    rcases lookup_entered_cases hinfo with ⟨rfl, hsaved⟩ | ⟨hold, -⟩
    · rw [(of_savedBy_eq_some hsaved).2.time]
      exact (hw.ended _ e he).trans hnow
    · exact hw.slot_after k info hold e he

/-- A return that submits an event appends a span that starts at the slot's time and ends
now, and empties the slot. -/
theorem SpansOk.left {a : LeaveAct} (hw : SpansOk w) (c : Call) (cs : List Call)
    (hclock : w.clock ≤ a.env.now) : SpansOk (w.left a c cs) := by
  have hnow : w.clock.toNat ≤ a.env.now.toNat := hclock
  -- what the slot of a thread other than this return's says is unchanged
  have hslot : ∀ k info, (w.left a c cs).maps.cudaCalls.lookup k = some info →
      w.maps.cudaCalls.lookup k = some info ∧
        (w.left a c cs).threadEvents k = w.threadEvents k := by
    intro k info hinfo
    obtain ⟨hold, hmissed⟩ := lookup_left_cases hinfo
    refine ⟨hold, ?_⟩
    rcases eq_or_ne k a.env.pidTgid with rfl | hk
    · rw [threadEvents_left, fireReturn, if_neg (hmissed rfl)]
      exact List.append_nil _
    · exact threadEvents_left_ne c cs hk
  have hevent : ∀ e ∈ (fireReturn w.maps a).2.toList,
      e.endTime = a.env.now.toNat ∧
        ∀ f ∈ w.threadEvents a.env.pidTgid, f.endTime ≤ e.timestamp.toNat := by
    intro e he
    obtain ⟨-, info, hinfo, -, -, rfl⟩ := fireReturn_eq_some_iff.mp (Option.mem_toList.mp he)
    have hle := UInt64.le_trans (hw.slot_le _ info hinfo) hclock
    exact ⟨endTime_eventOf a.ctx a.op.code hle, hw.slot_after _ info hinfo⟩
  refine ⟨?_, ?_, ?_, ?_⟩
  · intro k info hinfo
    exact UInt64.le_trans (hw.slot_le k info (hslot k info hinfo).1) hclock
  · intro k info hinfo e he
    obtain ⟨hold, hevents⟩ := hslot k info hinfo
    rw [hevents] at he
    exact hw.slot_after k info hold e he
  · intro k e he
    rcases eq_or_ne k a.env.pidTgid with rfl | hk
    · rw [threadEvents_left] at he
      rcases List.mem_append.mp he with he | he
      · exact (hw.ended _ e he).trans hnow
      · exact (hevent e he).1.le
    · rw [threadEvents_left_ne c cs hk] at he
      exact (hw.ended k e he).trans hnow
  · intro k
    rcases eq_or_ne k a.env.pidTgid with rfl | hk
    · rw [threadEvents_left]
      refine List.pairwise_append.mpr ⟨hw.ordered _, ?_, ?_⟩
      · cases (fireReturn w.maps a).2 with
        | none => exact List.Pairwise.nil
        | some e => exact List.pairwise_singleton _ e
      · intro f hf e he
        exact (hevent e he).2 f hf
    · rw [threadEvents_left_ne c cs hk]
      exact hw.ordered k

/-- Every action keeps the spans in order. -/
theorem SpansOk.of_step {act : CallAct} (hw : SpansOk w) (h : step cfg w act = some w') :
    SpansOk w' := by
  cases act with
  | spawn k =>
      obtain ⟨-, rfl⟩ := step_spawn_eq_some h
      exact ⟨hw.slot_le, hw.slot_after, hw.ended, hw.ordered⟩
  | exit k =>
      obtain rfl := step_exit_eq_some h
      exact ⟨hw.slot_le, hw.slot_after, hw.ended, hw.ordered⟩
  | enter a =>
      obtain ⟨cs, -, hclock, -, rfl⟩ := step_enter_eq_some h
      exact hw.entered cs hclock
  | leave a =>
      obtain ⟨c, cs, -, hclock, -, -, rfl⟩ := step_leave_eq_some h
      exact hw.left c cs hclock

/-- The spans are in order after every run. -/
theorem SpansOk.of_run {acts : List CallAct} (h : runs cfg acts = some w) : SpansOk w :=
  ActionRun.run_invariant SpansOk.init (fun _ _ _ _ hu hstep => hu.of_step hstep) h

end CallWorld

/-- **CUDA spans of one thread never overlap.** In every run, whichever probes fire, each
event submitted under an identity starts no earlier than the events submitted under it
before have ended; in particular the events are submitted in the order of their start. -/
theorem cuda_spans_disjoint {cfg : CudaTracerCfg} {acts : List CallAct} {w : CallWorld}
    (hrun : CallWorld.runs cfg acts = some w) (k : UInt64) :
    ((w.threadEvents k).Pairwise fun e f =>
      e.timestamp.toNat + e.durationNs.toNat ≤ f.timestamp.toNat) ∧
    (w.threadEvents k).Pairwise fun e f => e.timestamp ≤ f.timestamp := by
  have hordered := (CallWorld.SpansOk.of_run hrun).ordered k
  refine ⟨hordered, hordered.imp ?_⟩
  intro e f h
  have hle : e.timestamp.toNat ≤ f.timestamp.toNat := (Nat.le_add_right _ _).trans h
  exact hle

/-- A copy inside an allocation, whose return then finds its slot emptied, and a free. -/
def nestedCopyRun : List CallAct :=
  [.spawn 1, .enterAt 1 10 1 .malloc true, .enterAt 1 12 2 .memcpy true,
    .leaveAt 1 15 2 .memcpy true, .leaveAt 1 16 1 .malloc true,
    .enterAt 1 16 3 .free true, .leaveAt 1 19 3 .free true]

/-- The copy and the free have spans that do not overlap; the allocation has none. -/
theorem cuda_spans_disjoint_nested_copy :
    ∃ w, CallWorld.runs CudaTracerCfg.default nestedCopyRun = some w ∧
      (w.threadEvents 1).map (fun e => (e.timestamp, e.durationNs)) = [(12, 3), (16, 3)] ∧
      ((w.threadEvents 1).Pairwise fun e f =>
        e.timestamp.toNat + e.durationNs.toNat ≤ f.timestamp.toNat) ∧
      (w.threadEvents 1).Pairwise fun e f => e.timestamp ≤ f.timestamp := by
  have hmap : (CallWorld.runs CudaTracerCfg.default nestedCopyRun).map
      (fun w => (w.threadEvents 1).map fun e => (e.timestamp, e.durationNs)) =
        some [(12, 3), (16, 3)] := by decide +kernel
  obtain ⟨w, hrun, hspans⟩ := Option.map_eq_some_iff.mp hmap
  exact ⟨w, hrun, hspans, cuda_spans_disjoint hrun 1⟩

end UnifiedTrace
