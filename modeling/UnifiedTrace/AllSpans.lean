import UnifiedTrace.OnCpu

/-!
# The Spans of All Threads

In trace-all mode every thread id has a row. A thread other than an idle task is on one CPU
at a time, so its switches alternate and its row is well bracketed. The idle tasks of all
CPUs share thread id `0` and with it one row and one start time: as soon as two CPUs are idle
at once their spans get in each other's way.

## Main results

* `rowBracketed_iff`: a row is well bracketed exactly when no two consecutive switches of the
  thread id are both switch-ins and each switch-out that ends an interval of the run directly
  follows a switch-in.
* `switchesPair_of_ne_zero`: those of all thread ids but `0` do.
* `all_rows_bracketed_iff`: all rows are exactly when the idle row is.
* `two_idle_cpus_share_row`: it is not when two CPUs go idle one after the other.
-/

namespace UnifiedTrace

variable {n : ℕ}

/-- The row alternates, starting with a begin record, and each switch-out that ends an
interval begun in the run has its end record. -/
def RowBracketed (minTs : UInt64) (tid : UInt32) (acts : List (SchedAct n))
    (row : List SpanRecord) : Prop :=
  AlternatesFrom false row ∧
    ∀ iv ∈ onCpuIntervals tid acts, ∀ e, iv.stop = some e → ∃ dur, .e (e - minTs) dur ∈ row

/-- The switches of a thread id, on whatever CPU, pair up: no two consecutive ones are
switch-ins, and each switch-out that ends an interval begun in the run directly follows a
switch-in. -/
def SwitchesPair (tid : UInt32) (acts : List (SchedAct n)) : Prop :=
  (threadMarks tid acts).IsChain NotBothOn ∧
    ∀ iv ∈ onCpuIntervals tid acts, ∀ e, iv.stop = some e → FollowsOn e (threadMarks tid acts)

/-- The automaton writes a well-bracketed row exactly when the switches pair up. -/
theorem rowBracketed_iff (minTs : UInt64) {tid : UInt32} {acts : List (SchedAct n)}
    (hpos : ∀ k ∈ threadMarks tid acts, k.time ≠ 0) :
    RowBracketed minTs tid acts (spansOf minTs 0 (threadMarks tid acts)) ↔
      SwitchesPair tid acts := by
  refine and_congr ?_ (forall₄_congr fun iv _ e _ => ?_)
  · exact (alternates_spansOf_iff minTs 0 hpos).trans (and_iff_right fun h => absurd rfl h)
  · exact (exists_finish_mem_spansOf_iff minTs 0 e hpos).trans
      (or_iff_right fun h => h.1 rfl)

/-- The switches of a thread other than an idle task pair up. -/
theorem switchesPair_of_ne_zero {tid : UInt32} (htid : tid ≠ 0) {start current : Placement n}
    (hproper : start.Proper) {acts : List (SchedAct n)}
    (hrun : start.runs acts = some current) : SwitchesPair tid acts := by
  constructor
  · obtain ⟨hoff, hon⟩ := isChain_threadMarks htid hproper hrun
    rcases em (∃ c, (start c).tid = tid) with ⟨c, hc⟩ | hnone
    · exact (hon c hc).2
    · exact hoff (not_exists.mp hnone)
  · intro iv hiv e hstop
    obtain ⟨pre, post, heq⟩ :=
      (consecutive_of_mem_onCpuIntervals htid hproper hrun).2 iv hiv e hstop
    exact ⟨pre, iv.start, post, heq⟩

/-- **All rows.** In trace-all mode without losses, the rows of all thread ids are well
bracketed exactly when the switches into and out of idle tasks, of all CPUs together, pair
up. -/
theorem all_rows_bracketed_iff {start current : Placement n} (hproper : start.Proper)
    {acts : List (SchedAct n)} (hrun : start.runs acts = some current)
    (hres : ∀ act ∈ acts, act.Reserved)
    (hinc : (schedEvents 0 acts).Pairwise fun a b => a.timestamp < b.timestamp)
    (hpos : ∀ e ∈ schedEvents 0 acts, e.timestamp ≠ 0)
    {gpuEvents : List CudaEvent} {arrivals sorted : List UnifiedEvent}
    (harr : arrivals.Perm ((schedEvents 0 acts).map .cpu ++ gpuEvents.map .gpu))
    (hlen : arrivals.length ≤ maxEvents) (hsort : IsSortOf sorted (collect arrivals).events)
    {fopen calloc : Bool} {env : StackEnv} {file : List Piece}
    (hout : outputChromeTracingJson fopen calloc env sorted = .written file) :
    (∀ tid ≤ pidMaxLimit, RowBracketed (minTimestamp sorted) tid acts (rowSpans tid file)) ↔
      SwitchesPair 0 acts := by
  obtain rfl := traceFile_of_written hout
  have hrow : ∀ tid ≤ pidMaxLimit,
      (RowBracketed (minTimestamp sorted) tid acts (rowSpans tid (traceFile env sorted)) ↔
        SwitchesPair tid acts) := by
    intro tid htid
    have hmarks : (schedEvents 0 acts).filterMap (CpuSchedEvent.mark? tid) =
        threadMarks tid acts :=
      filterMap_mark?_schedEvents (.inl rfl) hrun hres
    have hlt : tid < cpuOnTimeLen := UInt32.lt_of_le_of_lt htid (by decide)
    rw [rowSpans_sorted hlt env hinc harr hsort, survivors_eq_self harr hlen, hmarks]
    exact rowBracketed_iff _ (hmarks ▸ time_ne_zero_of_mem_marks hpos)
  constructor
  · intro h
    exact (hrow 0 (by decide)).mp (h 0 (by decide))
  · intro h tid htid
    rcases eq_or_ne tid 0 with rfl | hne
    · exact (hrow 0 htid).mpr h
    · exact (hrow tid htid).mpr (switchesPair_of_ne_zero hne hproper hrun)

/-- On one CPU the idle task and thread `100` take turns. -/
def oneCpuRun : List (SchedAct 1) :=
  [.switchAt onlyCpu .idle .main100 10 (-1),
    .switchAt onlyCpu .main100 .idle 20 (-1),
    .switchAt onlyCpu .idle .main100 30 (-1)]

/-- The rows of the idle task and of the thread are bracketed, and so are the empty ones. -/
theorem all_rows_bracketed_iff_one_cpu :
    minTimestamp ((schedEvents 0 oneCpuRun).map .cpu) = 10 ∧
      ∀ tid ≤ pidMaxLimit, RowBracketed 10 tid oneCpuRun
        (rowSpans tid (traceFile .noStacks ((schedEvents 0 oneCpuRun).map .cpu))) := by
  have hrun : (Placement.runs (fun _ => Task.idle) oneCpuRun).isSome := by decide +kernel
  obtain ⟨current, hcurrent⟩ := Option.isSome_iff_exists.mp hrun
  have hinc : (schedEvents 0 oneCpuRun).Pairwise fun a b => a.timestamp < b.timestamp := by
    decide +kernel
  obtain ⟨harr, hsort⟩ := isSortOf_collect_in_order hinc (by decide +kernel)
  have hout : outputChromeTracingJson true true .noStacks
      ((schedEvents 0 oneCpuRun).map .cpu) =
        .written (traceFile .noStacks ((schedEvents 0 oneCpuRun).map .cpu)) := rfl
  have hmin : minTimestamp ((schedEvents 0 oneCpuRun).map .cpu) = 10 := by decide +kernel
  refine ⟨hmin, ?_⟩
  rw [← hmin, all_rows_bracketed_iff (by decide) hcurrent (by decide) hinc
    (by decide +kernel) harr (by decide +kernel) hsort hout]
  refine ⟨by decide +kernel, fun iv hiv e hstop => ?_⟩
  have hivs : onCpuIntervals 0 oneCpuRun = [⟨21, some 30⟩] := by decide +kernel
  rw [hivs, List.mem_singleton] at hiv
  obtain rfl : e = 30 := by rw [hiv] at hstop; exact (Option.some.inj hstop).symm
  exact ⟨[⟨false, 10⟩], 21, [], by decide +kernel⟩

/-- Threads `100` and `200` are current on the two CPUs. -/
def twoBusyCpus : Placement 2 := fun c =>
  if c = firstCpu then .main100 else .main200

/-- Both CPUs go idle. -/
def bothGoIdle : List (SchedAct 2) :=
  [.switchAt firstCpu .main100 .idle 10 (-1),
    .switchAt secondCpu .main200 .idle 20 (-1)]

/-- Two CPUs go idle: the row of thread id `0` gets two begin records in a row. -/
theorem two_idle_cpus_share_row :
    ¬ ∀ (n : ℕ) (start current : Placement n) (acts : List (SchedAct n))
      (gpuEvents : List CudaEvent) (arrivals sorted : List UnifiedEvent) (env : StackEnv)
      (file : List Piece),
      start.Proper → start.runs acts = some current → (∀ act ∈ acts, act.Reserved) →
      ((schedEvents 0 acts).Pairwise fun a b => a.timestamp < b.timestamp) →
      (∀ e ∈ schedEvents 0 acts, e.timestamp ≠ 0) →
      arrivals.Perm ((schedEvents 0 acts).map .cpu ++ gpuEvents.map .gpu) →
      arrivals.length ≤ maxEvents → IsSortOf sorted (collect arrivals).events →
      outputChromeTracingJson true true env sorted = .written file →
      ∀ tid ≤ pidMaxLimit, RowBracketed (minTimestamp sorted) tid acts (rowSpans tid file) := by
  intro hall
  have hrun : (twoBusyCpus.runs bothGoIdle).isSome := by decide +kernel
  obtain ⟨current, hcurrent⟩ := Option.isSome_iff_exists.mp hrun
  have hinc : (schedEvents 0 bothGoIdle).Pairwise fun a b => a.timestamp < b.timestamp := by
    decide +kernel
  obtain ⟨harr, hsort⟩ := isSortOf_collect_in_order hinc (by decide +kernel)
  have hrow := hall 2 twoBusyCpus current bothGoIdle [] _ _ .noStacks _ (by decide +kernel) hcurrent
    (by decide +kernel) hinc (by decide +kernel) harr (by decide +kernel) hsort rfl 0
    (by decide)
  have hspans : rowSpans 0 (traceFile .noStacks ((schedEvents 0 bothGoIdle).map .cpu)) =
      [.b 1, .b 11] := by
    decide +kernel
  rw [hspans] at hrow
  exact hrow.1

end UnifiedTrace
