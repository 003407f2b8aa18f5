import UnifiedTrace.OnCpu

/-!
# Rows with Lost Events

A record is lost when the ring has no room for it or when the array is full. The output loop
ignores a switch-out without a switch-in, but not a switch-in while a span is open: it begins
a second span and leaves the first without an end.

## Main results

* `lossy_row_alternates_iff`: the row of the target alternates exactly when a switch-out
  survives between any two surviving switch-ins.
* `lost_off_leaves_span_open`: it does not when a switch-out is lost in between.
-/

namespace UnifiedTrace

variable {n : ℕ}

/-- **Losses on the target's row.** Whatever the ring and the array lost of a run with a
target, the begin and end records of the target's row alternate exactly when no two
consecutive survivors among its switch events are both switch-ins. -/
theorem lossy_row_alternates_iff {P : UInt32} (hP : P < cpuOnTimeLen)
    {acts : List (SchedAct n)}
    (hinc : (schedEvents P acts).Pairwise fun a b => a.timestamp < b.timestamp)
    (hpos : ∀ e ∈ schedEvents P acts, e.timestamp ≠ 0)
    {gpuEvents : List CudaEvent} {arrivals sorted : List UnifiedEvent}
    (harr : arrivals.Perm ((schedEvents P acts).map .cpu ++ gpuEvents.map .gpu))
    (hsort : IsSortOf sorted (collect arrivals).events)
    {fopen calloc : Bool} {env : StackEnv} {file : List Piece}
    (hout : outputChromeTracingJson fopen calloc env sorted = .written file) :
    AlternatesFrom false (rowSpans P file) ↔
      ((survivors (schedEvents P acts) arrivals).filterMap
        (CpuSchedEvent.mark? P)).IsChain NotBothOn := by
  obtain rfl := traceFile_of_written hout
  have hposMarks : ∀ k ∈ (survivors (schedEvents P acts) arrivals).filterMap
      (CpuSchedEvent.mark? P), k.time ≠ 0 :=
    time_ne_zero_of_mem_marks fun e he => hpos e (List.mem_of_mem_filter he)
  rw [rowSpans_sorted hP env hinc harr hsort]
  refine (alternates_spansOf_iff (minTimestamp sorted) 0 hposMarks).trans ?_
  exact and_iff_right fun h => absurd rfl h

/-- Thread `100` runs twice on one CPU. Whether the ring has room for the record of its first
switch-in and for the one of its switch-out is given. -/
def twiceOnCpu (firstOn firstOff : Bool) : List (SchedAct 1) :=
  [.switch ⟨onlyCpu, .idle, .main100, .empty, 0,
      .empty, true, 10, firstOn, 11, -1⟩,
    .switch ⟨onlyCpu, .main100, .idle, .empty, 1,
      .empty, firstOff, 20, true, 21, -1⟩,
    .switchAt onlyCpu .idle .main100 30 (-1)]

/-- The file of `twiceOnCpu`, with the surviving records arriving in order. -/
def twiceOnCpuFile (firstOn firstOff : Bool) : List Piece :=
  traceFile .noStacks ((schedEvents 100 (twiceOnCpu firstOn firstOff)).map .cpu)

/-- The timestamps grow. -/
theorem twiceOnCpu_increasing (firstOn firstOff : Bool) :
    (schedEvents 100 (twiceOnCpu firstOn firstOff)).Pairwise
      fun a b => a.timestamp < b.timestamp := by
  cases firstOn <;> cases firstOff <;> decide +kernel

/-- Without its begin record the first interval leaves no trace, and the row alternates. -/
theorem lossy_row_alternates_iff_lost_on :
    AlternatesFrom false (rowSpans 100 (twiceOnCpuFile false true)) := by
  have hout : outputChromeTracingJson true true .noStacks
      ((schedEvents 100 (twiceOnCpu false true)).map .cpu) =
        .written (twiceOnCpuFile false true) := rfl
  obtain ⟨harr, hsort⟩ :=
    isSortOf_collect_in_order (twiceOnCpu_increasing false true) (by decide +kernel)
  rw [lossy_row_alternates_iff (by decide) (twiceOnCpu_increasing false true)
    (by decide +kernel) harr hsort hout]
  decide +kernel

/-- Without its end record the first interval stays open across the second. -/
theorem lost_off_leaves_span_open :
    ¬ ∀ (n : ℕ) (P : UInt32) (start current : Placement n) (acts : List (SchedAct n))
      (gpuEvents : List CudaEvent) (arrivals sorted : List UnifiedEvent) (env : StackEnv)
      (file : List Piece),
      P ≠ 0 → start.Proper → start.runs acts = some current →
      ((schedEvents P acts).Pairwise fun a b => a.timestamp < b.timestamp) →
      (∀ e ∈ schedEvents P acts, e.timestamp ≠ 0) →
      arrivals.Perm ((schedEvents P acts).map .cpu ++ gpuEvents.map .gpu) →
      IsSortOf sorted (collect arrivals).events →
      outputChromeTracingJson true true env sorted = .written file →
      AlternatesFrom false (rowSpans P file) := by
  intro hall
  have hrun : (Placement.runs (fun _ => Task.idle) (twiceOnCpu true false)).isSome := by
    decide +kernel
  obtain ⟨current, hcurrent⟩ := Option.isSome_iff_exists.mp hrun
  have hinc := twiceOnCpu_increasing true false
  obtain ⟨harr, hsort⟩ := isSortOf_collect_in_order hinc (by decide +kernel)
  have halt := hall 1 100 _ current _ [] _ _ .noStacks _ (by decide) (by decide) hcurrent
    hinc (by decide +kernel) harr hsort rfl
  have hrow : rowSpans 100 (twiceOnCpuFile true false) = [.b 0, .b 20] := by decide +kernel
  rw [twiceOnCpuFile] at hrow
  rw [hrow] at halt
  exact halt

end UnifiedTrace
