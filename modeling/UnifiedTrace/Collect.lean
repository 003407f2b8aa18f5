import Mathlib.Data.List.Induction
import Mathlib.Data.List.Pairwise
import Mathlib.Data.List.Perm.Basic
import UnifiedTrace.Common

/-!
# Collecting and Sorting Events

The part of `src/user/unified_trace.c` between the ring buffers and the output: the two
callbacks that copy records into the array `events`, and the comparison that `qsort` sorts
it with. `EventBuf` is the array with its bound; the callbacks drop what does not fit.
`qsort` promises a sorted permutation and nothing about equal elements, so `IsSortOf` is a
relation.

## Main results

* `events_collect`: of any arrival sequence the buffer holds the first `MAX_EVENTS`.
* `IsSortOf.filter_eq`: events with different timestamps can only come out in their order.
-/

namespace UnifiedTrace

/-- `MAX_EVENTS`. -/
def maxEvents : ℕ := 100000

/-- `struct unified_event`: a record of either ring; its copy of the timestamp is that of the
record. -/
inductive UnifiedEvent
  | cpu (e : CpuSchedEvent)
  | gpu (e : CudaEvent)
  deriving DecidableEq

/-- The wakeup of a nameless thread, as the tracer reports it. -/
def CpuSchedEvent.wakeupAt (tid : UInt32) (now : UInt64) : CpuSchedEvent :=
  ⟨now, cpuSchedWakeup, tid, tid, 0, 0, -1, .empty⟩

/-- A stream synchronisation of one microsecond, without a stack. -/
def CudaEvent.streamSyncAt (pid tid : UInt32) (now streamId : UInt64) : CudaEvent :=
  ⟨now, 1000, pid, tid, CudaOp.streamSync.code, 0, 0, 0, .empty, streamId, -1, 0⟩

/-- The timestamp of the record. -/
def UnifiedEvent.timestamp : UnifiedEvent → UInt64
  | cpu e => e.timestamp
  | gpu e => e.timestamp

/-- The array `events` with its counter. -/
structure EventBuf where
  events : List UnifiedEvent
  length_le : events.length ≤ maxEvents

/-- The empty array. -/
def EventBuf.empty : EventBuf := ⟨[], by simp⟩

/-- Append an event unless the array is full. -/
def EventBuf.push (buf : EventBuf) (e : UnifiedEvent) : EventBuf :=
  if h : maxEvents ≤ buf.events.length then
    buf
  else
    ⟨buf.events ++ [e], by rw [List.length_append, List.length_singleton]; omega⟩

/-- `handle_cpu_event`. -/
def handleCpuEvent (buf : EventBuf) (e : CpuSchedEvent) : EventBuf := buf.push (.cpu e)

/-- `handle_gpu_event`. -/
def handleGpuEvent (buf : EventBuf) (e : CudaEvent) : EventBuf := buf.push (.gpu e)

/-- The callback of the record's ring. -/
def handleEvent (buf : EventBuf) : UnifiedEvent → EventBuf
  | .cpu e => handleCpuEvent buf e
  | .gpu e => handleGpuEvent buf e

/-- The array after the callbacks received the records in the given order. -/
def collect (arrivals : List UnifiedEvent) : EventBuf := arrivals.foldl handleEvent .empty

/-- `compare_events`. -/
def compareEvents (a b : UnifiedEvent) : Int32 :=
  if a.timestamp < b.timestamp then -1
  else if a.timestamp > b.timestamp then 1
  else 0

/-- What `qsort` may leave in an array: a permutation that `compare_events` finds in
order. -/
def IsSortOf (sorted events : List UnifiedEvent) : Prop :=
  sorted.Perm events ∧ sorted.Pairwise fun a b => compareEvents a b ≤ 0

/-! ### Collection -/

/-- Both callbacks append to the array while it has room. -/
theorem handleEvent_eq_push (buf : EventBuf) (e : UnifiedEvent) :
    handleEvent buf e = buf.push e := by
  cases e <;> rfl

/-- The array holds the first events up to its size. -/
theorem events_push (buf : EventBuf) (e : UnifiedEvent) :
    (buf.push e).events = (buf.events ++ [e]).take maxEvents := by
  have hle := buf.length_le
  rw [EventBuf.push]
  split
  · rename_i h
    rw [List.take_append_of_le_length h, List.take_of_length_le hle]
  · rename_i h
    refine (List.take_of_length_le ?_).symm
    rw [List.length_append, List.length_singleton]
    omega

/-- **What is collected**: the first `MAX_EVENTS` records, whichever rings they come from. -/
theorem events_collect (arrivals : List UnifiedEvent) :
    (collect arrivals).events = arrivals.take maxEvents := by
  rw [collect]
  induction arrivals using List.reverseRecOn with
  | nil => rfl
  | append_singleton arrivals e ih =>
      rw [List.foldl_append, List.foldl_cons, List.foldl_nil, handleEvent_eq_push,
        events_push, ih]
      rcases Nat.lt_or_ge arrivals.length maxEvents with h | h
      · rw [List.take_of_length_le h.le]
      · rw [List.take_append_of_le_length (by rw [List.length_take]; omega),
          List.take_take, Nat.min_self, List.take_append_of_le_length h]

/-- Nothing is dropped while there is room. -/
theorem events_collect_of_length_le {arrivals : List UnifiedEvent}
    (h : arrivals.length ≤ maxEvents) : (collect arrivals).events = arrivals := by
  rw [events_collect, List.take_of_length_le h]

/-! ### Sorting -/

/-- The comparison is that of the timestamps. -/
theorem compareEvents_le_zero_iff {a b : UnifiedEvent} :
    compareEvents a b ≤ 0 ↔ a.timestamp ≤ b.timestamp := by
  rw [compareEvents]
  split
  · rename_i h
    exact iff_of_true (by decide) (UInt64.le_of_lt h)
  · rename_i h
    split
    · rename_i h'
      exact iff_of_false (by decide) (UInt64.not_le.mpr h')
    · exact iff_of_true (by decide) (UInt64.not_lt.mp (by assumption))

/-- A sorted array is any permutation in which the timestamps do not go down. -/
theorem isSortOf_iff {sorted events : List UnifiedEvent} :
    IsSortOf sorted events ↔
      sorted.Perm events ∧ sorted.Pairwise fun a b => a.timestamp ≤ b.timestamp := by
  rw [IsSortOf]
  simp only [compareEvents_le_zero_iff]

/-- In a list with increasing timestamps a timestamp identifies its event. -/
theorem eq_of_timestamp_eq {l : List UnifiedEvent}
    (hlt : l.Pairwise fun a b => a.timestamp < b.timestamp) {a b : UnifiedEvent}
    (ha : a ∈ l) (hb : b ∈ l) (h : a.timestamp = b.timestamp) : a = b := by
  have hne : l.Pairwise fun a b => a.timestamp ≠ b.timestamp :=
    hlt.imp fun hab => UInt64.ne_of_lt hab
  have hsymm : Std.Symm fun a b : UnifiedEvent => a.timestamp ≠ b.timestamp :=
    ⟨fun _ _ hab => hab.symm⟩
  by_contra hab
  exact hne.forall ha hb hab h

/-- **One order**: if the events of a kind have increasing timestamps in some order, then
sorting leaves them in that order. -/
theorem IsSortOf.filter_eq {sorted events inOrder : List UnifiedEvent}
    {p : UnifiedEvent → Bool} (h : IsSortOf sorted events)
    (hperm : (events.filter p).Perm inOrder)
    (hlt : inOrder.Pairwise fun a b => a.timestamp < b.timestamp) :
    sorted.filter p = inOrder := by
  obtain ⟨hsort, hle⟩ := isSortOf_iff.mp h
  have hperm' : (sorted.filter p).Perm inOrder := (hsort.filter p).trans hperm
  have hanti : ∀ a b, a ∈ sorted.filter p → b ∈ inOrder → a.timestamp ≤ b.timestamp →
      b.timestamp ≤ a.timestamp → a = b := by
    intro a b ha hb hab hba
    exact eq_of_timestamp_eq hlt (hperm'.subset ha) hb (UInt64.le_antisymm hab hba)
  exact List.Perm.eq_of_pairwise hanti (hle.filter p) (hlt.imp UInt64.le_of_lt) hperm'

end UnifiedTrace
