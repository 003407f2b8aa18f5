import UnifiedTrace.Schedule
import UnifiedTrace.Spans

/-!
# On-CPU Intervals and the Events that Report Them

The intervals during which a thread is on a CPU, read off a scheduler run: one begins with
each switch-in of the thread and lasts until the next switch on the same CPU. Beside them the
marks the thread's switches make, in the order of the run, and what becomes of these marks
when the records pass through the ring, the array and the sort.

## Main results

* `filterMap_mark?_schedEvents`: without losses the recorded events carry all marks.
* `spansOf_threadMarks`: for a thread other than an idle task, the row automaton turns the
  marks into the thread's intervals.
* `filter_isCpu_sorted`: what the sorted array holds of the CPU events.
-/

namespace UnifiedTrace

variable {n : ℕ}

/-! ### Intervals -/

/-- An interval on a CPU; it has no end if the run stops before. -/
structure Interval where
  start : UInt64
  stop : Option UInt64
  deriving DecidableEq

/-- When the thread that is current on the CPU gives way. -/
def endOn (cpu : Fin n) : List (SchedAct n) → Option UInt64
  | [] => none
  | .switch sw :: acts => if sw.cpu = cpu then some sw.offNow else endOn cpu acts
  | .wakeup _ :: acts => endOn cpu acts

/-- The on-CPU intervals of a thread id that begin in the run. -/
def onCpuIntervals (tid : UInt32) : List (SchedAct n) → List Interval
  | [] => []
  | .switch sw :: acts =>
      if sw.next.tid = tid then
        ⟨sw.onNow, endOn sw.cpu acts⟩ :: onCpuIntervals tid acts
      else
        onCpuIntervals tid acts
  | .wakeup _ :: acts => onCpuIntervals tid acts

/-- The records of an interval: a begin record, and an end record if it ends. -/
def Interval.spans (minTs : UInt64) (iv : Interval) : List SpanRecord :=
  .b (iv.start - minTs) :: iv.stop.elim [] fun e => [.e (e - minTs) (e - iv.start)]

/-! ### Marks -/

/-- The marks of an action on the row of a thread id. -/
def SchedAct.marks (tid : UInt32) : SchedAct n → List SwitchMark
  | switch sw =>
      (if sw.prev.tid = tid then [⟨false, sw.offNow⟩] else []) ++
        (if sw.next.tid = tid then [⟨true, sw.onNow⟩] else [])
  | wakeup _ => []

/-- The marks of a run on the row of a thread id. -/
def threadMarks (tid : UInt32) (acts : List (SchedAct n)) : List SwitchMark :=
  acts.flatMap (SchedAct.marks tid)

/-- The marks of the first action come first. -/
@[simp] theorem threadMarks_cons (tid : UInt32) (act : SchedAct n)
    (acts : List (SchedAct n)) :
    threadMarks tid (act :: acts) = act.marks tid ++ threadMarks tid acts := rfl

/-- The ring has room for all records of the action. -/
def SchedAct.Reserved : SchedAct n → Prop
  | switch sw => sw.offReserve = true ∧ sw.onReserve = true
  | wakeup wk => wk.reserve = true

instance (act : SchedAct n) : Decidable act.Reserved :=
  match act with
  | .switch _ => inferInstanceAs (Decidable (_ ∧ _))
  | .wakeup _ => inferInstanceAs (Decidable (_ = _))

/-- The off event marks the thread that is switched out. -/
theorem mark?_offEvent (sw : Switch n) (tid : UInt32) :
    (offEvent sw.ctx sw.env).mark? tid =
      if sw.prev.tid = tid then some ⟨false, sw.offNow⟩ else none := by
  have htid : (offEvent sw.ctx sw.env).tid = sw.prev.tid := sw.toUInt32_prevPid
  split
  · rename_i h
    rw [← h, ← htid]
    exact CpuSchedEvent.mark?_off rfl
  · rename_i h
    exact CpuSchedEvent.mark?_of_ne (htid ▸ h)

/-- The on event marks the thread that is switched in. -/
theorem mark?_onEvent (sw : Switch n) (tid : UInt32) :
    (onEvent sw.ctx sw.env).mark? tid =
      if sw.next.tid = tid then some ⟨true, sw.onNow⟩ else none := by
  have htid : (onEvent sw.ctx sw.env).tid = sw.next.tid := sw.toUInt32_nextPid
  split
  · rename_i h
    rw [← h, ← htid]
    exact CpuSchedEvent.mark?_on rfl
  · rename_i h
    exact CpuSchedEvent.mark?_of_ne (htid ▸ h)

/-- A wakeup record makes no mark. -/
theorem mark?_of_mem_traceSchedWakeup {P tid : UInt32} {ctx : SchedWakeupArgs}
    {env : WakeupEnv} {e : CpuSchedEvent} (he : e ∈ traceSchedWakeup P ctx env) :
    e.mark? tid = none := by
  obtain ⟨-, -, rfl⟩ := mem_traceSchedWakeup.mp he
  exact CpuSchedEvent.mark?_other (by simp [cpuSchedOn, cpuSchedWakeup])
    (by simp [cpuSchedOff, cpuSchedWakeup])

/-- A filter in front of a test that is at least as strong changes nothing. -/
theorem filterMap_ite_singleton {α β : Type*} {f : α → Option β} {a : α} {b : β}
    {c d : Prop} [Decidable c] [Decidable d] (hf : f a = if d then some b else none)
    (hcd : d → c) : (if c then [a] else []).filterMap f = if d then [b] else [] := by
  rcases em d with hd | hd
  · rw [if_pos hd] at hf ⊢
    rw [if_pos (hcd hd), List.filterMap_cons_some hf]
    rfl
  · rw [if_neg hd] at hf ⊢
    split
    · rw [List.filterMap_cons_none hf]
      rfl
    · rfl

/-- In trace-all mode, and on the row of the target otherwise, the records of an action carry
its marks. -/
theorem filterMap_mark?_events {P tid : UInt32} (hP : P = 0 ∨ P = tid) {act : SchedAct n}
    (hres : act.Reserved) (hne : ∀ sw, act = .switch sw → sw.next.tid ≠ sw.prev.tid) :
    (act.events P).filterMap (CpuSchedEvent.mark? tid) = act.marks tid := by
  cases act with
  | wakeup wk =>
      exact List.filterMap_eq_nil_iff.mpr fun e he => mark?_of_mem_traceSchedWakeup he
  | switch sw =>
      obtain ⟨hoff, hon⟩ := hres
      have hne' := hne sw rfl
      rw [SchedAct.events, traceSchedSwitch_eq, List.filterMap_append, SchedAct.marks,
        filterMap_ite_singleton (mark?_offEvent sw tid),
        filterMap_ite_singleton (mark?_onEvent sw tid)]
      · intro hnext
        refine ⟨hP.imp_right fun h => ?_, hon⟩
        rw [sw.toUInt32_prevPid, sw.toUInt32_nextPid, h, ← hnext]
        exact ⟨hne'.symm, rfl⟩
      · intro hprev
        refine ⟨hP.imp_right fun h => ?_, hoff⟩
        rw [sw.toUInt32_prevPid, h, hprev]

/-- **The recorded marks**: without losses the events of a run carry all marks of the row, in
trace-all mode of every row and otherwise of the target's. -/
theorem filterMap_mark?_schedEvents {P tid : UInt32} (hP : P = 0 ∨ P = tid)
    {start current : Placement n} {acts : List (SchedAct n)}
    (hrun : start.runs acts = some current) (hres : ∀ act ∈ acts, act.Reserved) :
    (schedEvents P acts).filterMap (CpuSchedEvent.mark? tid) = threadMarks tid acts := by
  rw [schedEvents, List.filterMap_flatMap, threadMarks]
  refine List.flatMap_congr fun act hact => ?_
  refine filterMap_mark?_events hP (hres act hact) fun sw hsw => ?_
  exact Placement.next_ne_prev_of_run hrun (hsw ▸ hact)

/-! ### A thread in the run -/

section Thread

variable {tid : UInt32} {current : Placement n} {sw : Switch n}

/-- What a switch means for a thread that is current nowhere: it comes on, or nothing. -/
theorem marks_of_off (hsw : sw.Allowed current) (hoff : ∀ c, (current c).tid ≠ tid) :
    (sw.next.tid = tid ∧ (SchedAct.switch sw).marks tid = [⟨true, sw.onNow⟩]) ∨
      (sw.next.tid ≠ tid ∧ (SchedAct.switch sw).marks tid = [] ∧
        ∀ c, (Function.update current sw.cpu sw.next c).tid ≠ tid) := by
  have hprev : sw.prev.tid ≠ tid := hsw.1 ▸ hoff sw.cpu
  rw [SchedAct.marks, if_neg hprev, List.nil_append]
  rcases eq_or_ne sw.next.tid tid with hnext | hnext
  · exact .inl ⟨hnext, if_pos hnext⟩
  · refine .inr ⟨hnext, if_neg hnext, fun c => ?_⟩
    rcases eq_or_ne c sw.cpu with rfl | hc
    · rwa [Function.update_self]
    · rw [Function.update_of_ne hc]
      exact hoff c

/-- What a switch means for a thread that is current on a CPU: it goes off if the switch is
on that CPU, and nothing otherwise. -/
theorem marks_of_on (htid : tid ≠ 0) (hproper : current.Proper) (hsw : sw.Allowed current)
    {c : Fin n} (hc : (current c).tid = tid) :
    sw.next.tid ≠ tid ∧
      ((sw.cpu = c ∧ (SchedAct.switch sw).marks tid = [⟨false, sw.offNow⟩] ∧
          ∀ d, (Function.update current sw.cpu sw.next d).tid ≠ tid) ∨
        (sw.cpu ≠ c ∧ (SchedAct.switch sw).marks tid = [] ∧
          (Function.update current sw.cpu sw.next c).tid = tid)) := by
  obtain ⟨hprev, -, hnext⟩ := hsw
  have hnext' : sw.next.tid ≠ tid := by
    rintro rfl
    exact hnext.resolve_left htid c hc
  rw [SchedAct.marks, if_neg hnext', List.append_nil]
  refine ⟨hnext', ?_⟩
  rcases eq_or_ne sw.cpu c with rfl | hcpu
  · have hprev' : sw.prev.tid = tid := by rw [hprev, hc]
    refine .inl ⟨rfl, if_pos hprev', fun d hd => ?_⟩
    rcases eq_or_ne d sw.cpu with rfl | hdc
    · rw [Function.update_self] at hd
      exact hnext' hd
    · rw [Function.update_of_ne hdc] at hd
      exact hdc (hproper d sw.cpu (hd.trans hc.symm) (hd ▸ htid))
  · have hprev' : sw.prev.tid ≠ tid := by
      intro h
      rw [hprev] at h
      exact hcpu (hproper sw.cpu c (h.trans hc.symm) (h ▸ htid))
    refine .inr ⟨hcpu, if_neg hprev', ?_⟩
    rw [Function.update_of_ne (Ne.symm hcpu), hc]

end Thread

variable {tid : UInt32} {current after : Placement n} {acts : List (SchedAct n)}

/-- Switch-ins and switch-outs of a thread other than an idle task alternate. -/
theorem isChain_threadMarks (htid : tid ≠ 0) (hproper : current.Proper)
    (hrun : current.runs acts = some after) :
    ((∀ c, (current c).tid ≠ tid) → (threadMarks tid acts).IsChain NotBothOn) ∧
    ∀ c, (current c).tid = tid → (∀ k ∈ (threadMarks tid acts).head?, k.on = false) ∧
      (threadMarks tid acts).IsChain NotBothOn := by
  induction acts generalizing current with
  | nil => simp [threadMarks]
  | cons act acts ih =>
      obtain ⟨mid, hstep, hrest⟩ := Option.bind_eq_some_iff.mp hrun
      have hrec := ih (hproper.of_step hstep) hrest
      cases act with
      | wakeup wk =>
          obtain rfl := Placement.step_wakeup_eq_some.mp hstep
          exact hrec
      | switch sw =>
          obtain ⟨hsw, rfl⟩ := Placement.step_switch_eq_some.mp hstep
          rw [threadMarks_cons]
          constructor
          · intro hoff
            rcases marks_of_off hsw hoff with ⟨hnext, hmarks⟩ | ⟨-, hmarks, hoff'⟩
            · obtain ⟨hhead, hchain⟩ := hrec.2 sw.cpu (by rw [Function.update_self, hnext])
              rw [hmarks, List.singleton_append, List.isChain_cons]
              exact ⟨fun k hk _ => hhead k hk, hchain⟩
            · rw [hmarks]
              exact hrec.1 hoff'
          · intro c hc
            obtain ⟨-, ⟨-, hmarks, hoff⟩ | ⟨-, hmarks, hc'⟩⟩ :=
              marks_of_on htid hproper hsw hc
            · rw [hmarks, List.singleton_append, List.isChain_cons]
              exact ⟨fun k hk => by rw [← Option.mem_some_iff.mp hk],
                fun _ _ h => absurd h (by simp), hrec.1 hoff⟩
            · rw [hmarks]
              exact hrec.2 c hc'

/-- The switch-in and the switch-out of a finished interval of a thread other than an idle
task are consecutive marks. -/
theorem consecutive_of_mem_onCpuIntervals (htid : tid ≠ 0) (hproper : current.Proper)
    (hrun : current.runs acts = some after) :
    (∀ c e, (current c).tid = tid → endOn c acts = some e →
      (threadMarks tid acts).head? = some ⟨false, e⟩) ∧
    ∀ iv ∈ onCpuIntervals tid acts, ∀ e, iv.stop = some e →
      ∃ pre post, threadMarks tid acts = pre ++ ⟨true, iv.start⟩ :: ⟨false, e⟩ :: post := by
  induction acts generalizing current with
  | nil =>
      exact ⟨fun _ _ _ h => absurd h (by simp [endOn]), fun _ h => absurd h List.not_mem_nil⟩
  | cons act acts ih =>
      obtain ⟨mid, hstep, hrest⟩ := Option.bind_eq_some_iff.mp hrun
      obtain ⟨hhead, hpairs⟩ := ih (hproper.of_step hstep) hrest
      cases act with
      | wakeup wk =>
          obtain rfl := Placement.step_wakeup_eq_some.mp hstep
          exact ⟨hhead, hpairs⟩
      | switch sw =>
          obtain ⟨hsw, rfl⟩ := Placement.step_switch_eq_some.mp hstep
          rw [threadMarks_cons, onCpuIntervals]
          constructor
          · intro c e hc hend
            obtain ⟨hnext, ⟨rfl, hmarks, -⟩ | ⟨hcpu, hmarks, hc'⟩⟩ :=
              marks_of_on htid hproper hsw hc
            · rw [endOn, if_pos rfl] at hend
              obtain rfl := Option.some.inj hend
              rw [hmarks]
              rfl
            · rw [endOn, if_neg hcpu] at hend
              rw [hmarks]
              exact hhead c e hc' hend
          · intro iv hiv e hstop
            split at hiv
            · rename_i hnext
              rcases List.mem_cons.mp hiv with rfl | hiv
              · -- the interval begins here: the next mark is its end
                have hnow := hhead sw.cpu e (by rw [Function.update_self, hnext]) hstop
                obtain ⟨rest, hrest'⟩ := List.head?_eq_some_iff.mp hnow
                have hmarks : (SchedAct.switch sw).marks tid =
                    (if sw.prev.tid = tid then [⟨false, sw.offNow⟩] else []) ++
                      [⟨true, sw.onNow⟩] := by
                  rw [SchedAct.marks, if_pos hnext]
                rw [hmarks, hrest', List.append_assoc]
                exact ⟨_, rest, rfl⟩
              · obtain ⟨pre, post, heq⟩ := hpairs iv hiv e hstop
                exact ⟨_ ++ pre, post, by rw [heq, List.append_assoc]⟩
            · obtain ⟨pre, post, heq⟩ := hpairs iv hiv e hstop
              exact ⟨_ ++ pre, post, by rw [heq, List.append_assoc]⟩

/-! ### Through the ring, the array and the sort -/

/-- The event is a scheduling event. -/
def UnifiedEvent.isCpu : UnifiedEvent → Bool
  | cpu _ => true
  | gpu _ => false

/-- The scheduling events among the records that arrived in time. -/
def survivors (cpuEvents : List CpuSchedEvent) (arrivals : List UnifiedEvent) :
    List CpuSchedEvent :=
  cpuEvents.filter fun e => UnifiedEvent.cpu e ∈ (collect arrivals).events

/-- **What is left of the scheduling events**: when their timestamps increase, the sorted
array holds those that were collected, in the order of the run. -/
theorem filter_isCpu_sorted {cpuEvents : List CpuSchedEvent} {gpuEvents : List CudaEvent}
    {arrivals sorted : List UnifiedEvent}
    (hinc : cpuEvents.Pairwise fun a b => a.timestamp < b.timestamp)
    (harr : arrivals.Perm (cpuEvents.map .cpu ++ gpuEvents.map .gpu))
    (hsort : IsSortOf sorted (collect arrivals).events) :
    sorted.filter UnifiedEvent.isCpu = (survivors cpuEvents arrivals).map .cpu := by
  have hlt : ((survivors cpuEvents arrivals).map UnifiedEvent.cpu).Pairwise
      fun a b => a.timestamp < b.timestamp :=
    List.pairwise_map.mpr (hinc.filter _)
  refine hsort.filter_eq ?_ hlt
  have hcpu : (arrivals.filter UnifiedEvent.isCpu).Perm (cpuEvents.map .cpu) := by
    refine (harr.filter _).trans (List.Perm.of_eq ?_)
    rw [List.filter_append, List.filter_eq_self.mpr, List.filter_eq_nil_iff.mpr,
      List.append_nil]
    · intro e he
      obtain ⟨gpu, -, rfl⟩ := List.mem_map.mp he
      exact Bool.false_ne_true
    · intro e he
      obtain ⟨cpu, -, rfl⟩ := List.mem_map.mp he
      rfl
  have hnodup : (cpuEvents.map UnifiedEvent.cpu).Nodup :=
    List.pairwise_map.mpr (hinc.imp fun hab heq => by
      obtain rfl := UnifiedEvent.cpu.inj heq
      exact UInt64.lt_irrefl _ hab)
  have hsub : ((collect arrivals).events.filter UnifiedEvent.isCpu).Sublist
      (arrivals.filter UnifiedEvent.isCpu) := by
    rw [events_collect]
    exact (List.take_sublist _ _).filter _
  refine (List.perm_ext_iff_of_nodup (hsub.nodup (hcpu.nodup_iff.mpr hnodup))
    (hnodup.sublist (List.filter_sublist.map _))).mpr fun e => ?_
  rw [List.mem_filter, List.mem_map]
  constructor
  · rintro ⟨he, hisCpu⟩
    have hmem : e ∈ cpuEvents.map UnifiedEvent.cpu :=
      hcpu.subset (hsub.subset (List.mem_filter.mpr ⟨he, hisCpu⟩))
    obtain ⟨cpu, hcpuMem, rfl⟩ := List.mem_map.mp hmem
    exact ⟨cpu, List.mem_filter.mpr ⟨hcpuMem, decide_eq_true he⟩, rfl⟩
  · rintro ⟨cpu, hcpuMem, rfl⟩
    exact ⟨of_decide_eq_true (List.mem_filter.mp hcpuMem).2, rfl⟩

/-- Scheduling events alone, arriving in the order of their timestamps, stay as they are. -/
theorem isSortOf_collect_in_order {cpuEvents : List CpuSchedEvent}
    (hinc : cpuEvents.Pairwise fun a b => a.timestamp < b.timestamp)
    (hlen : cpuEvents.length ≤ maxEvents) :
    (cpuEvents.map UnifiedEvent.cpu).Perm
        (cpuEvents.map .cpu ++ ([] : List CudaEvent).map .gpu) ∧
      IsSortOf (cpuEvents.map .cpu) (collect (cpuEvents.map .cpu)).events := by
  constructor
  · rw [List.map_nil, List.append_nil]
  · rw [events_collect_of_length_le (by rwa [List.length_map]), isSortOf_iff]
    exact ⟨List.Perm.refl _, List.pairwise_map.mpr (hinc.imp UInt64.le_of_lt)⟩

/-- Nothing is lost while there is room. -/
theorem survivors_eq_self {cpuEvents : List CpuSchedEvent} {gpuEvents : List CudaEvent}
    {arrivals : List UnifiedEvent}
    (harr : arrivals.Perm (cpuEvents.map .cpu ++ gpuEvents.map .gpu))
    (hlen : arrivals.length ≤ maxEvents) : survivors cpuEvents arrivals = cpuEvents := by
  rw [survivors, List.filter_eq_self]
  intro e he
  rw [events_collect_of_length_le hlen, decide_eq_true_iff, harr.mem_iff]
  exact List.mem_append_left _ (List.mem_map_of_mem he)

/-- Only scheduling events make marks. -/
theorem filterMap_mark?_filter_isCpu (tid : UInt32) (events : List UnifiedEvent) :
    (events.filter UnifiedEvent.isCpu).filterMap (UnifiedEvent.mark? tid) =
      events.filterMap (UnifiedEvent.mark? tid) := by
  rw [List.filterMap_filter]
  refine List.filterMap_congr fun e _ => ?_
  cases e <;> rfl

/-- **The row of a thread id after sorting**: the automaton runs over the marks of the
surviving records, in the order of the run. -/
theorem rowSpans_sorted {tid : UInt32} (htid : tid < cpuOnTimeLen) (env : StackEnv)
    {cpuEvents : List CpuSchedEvent} {gpuEvents : List CudaEvent}
    {arrivals sorted : List UnifiedEvent}
    (hinc : cpuEvents.Pairwise fun a b => a.timestamp < b.timestamp)
    (harr : arrivals.Perm (cpuEvents.map .cpu ++ gpuEvents.map .gpu))
    (hsort : IsSortOf sorted (collect arrivals).events) :
    rowSpans tid (traceFile env sorted) =
      spansOf (minTimestamp sorted) 0
        ((survivors cpuEvents arrivals).filterMap (CpuSchedEvent.mark? tid)) := by
  rw [rowSpans_traceFile htid, ← filterMap_mark?_filter_isCpu,
    filter_isCpu_sorted hinc harr hsort, List.filterMap_map]
  rfl

/-- A mark has the time of its event. -/
theorem CpuSchedEvent.time_of_mark? {e : CpuSchedEvent} {k : SwitchMark}
    (h : e.mark? tid = some k) : k.time = e.timestamp := by
  rw [CpuSchedEvent.mark?] at h
  split at h
  · exact absurd h (by simp)
  · split at h
    · rw [← Option.some.inj h]
    · split at h
      · rw [← Option.some.inj h]
      · exact absurd h (by simp)

/-- The marks of events have their times. -/
theorem time_ne_zero_of_mem_marks {events : List CpuSchedEvent}
    (hpos : ∀ e ∈ events, e.timestamp ≠ 0) :
    ∀ k ∈ events.filterMap (CpuSchedEvent.mark? tid), k.time ≠ 0 := by
  intro k hk
  obtain ⟨e, he, hmark⟩ := List.mem_filterMap.mp hk
  rw [CpuSchedEvent.time_of_mark? hmark]
  exact hpos e he

end UnifiedTrace
