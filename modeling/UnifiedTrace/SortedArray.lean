import UnifiedTrace.EventArray

/-!
# Sorting the Array

`main` sorts `events` before the output. `qsort` knows nothing of the records: it moves elements
of `sizeof(struct unified_event)` bytes, and `compare_events` looks at their first member only.
That member was copied from the record when it arrived, so an order by it is an order of the
records by their own timestamps.

## Main results

* `StampedArray.qsort`: sorting moves no timestamp away from its record.
* `sorted_array_of_submitted`: what the output finds in the array is a sort of the first
  `MAX_EVENTS` records that arrived.
-/

namespace UnifiedTrace

open ByteStores RecordLayout

/-! ### The array -/

/-- The address of an element. -/
def elementAt (events k : ℕ) : ℕ := events + k * unifiedEventSize

/-- `compare_events` on the elements at two addresses. -/
def compareEventsData (mem : ℕ → UInt8) (a b : ℕ) : Int32 :=
  if uint64.load mem a < uint64.load mem b then -1
  else if uint64.load mem a > uint64.load mem b then 1
  else 0

/-- The records in the array, as the output reads them. -/
def loadArray (events : ℕ) (s : EventArray) : List UnifiedEvent :=
  (List.range s.eventCount).map fun k => UnifiedEvent.load s.mem (elementAt events k)

/-- What `qsort` may do to the array: each place gets the bytes of one old element, every element
goes to one place, and `compare_events` finds the new array in order. -/
structure QsortData (events : ℕ) (s s' : EventArray) : Prop where
  eventCount : s'.eventCount = s.eventCount
  moved : ∃ order : List ℕ, order.Perm (List.range s.eventCount) ∧
    ∀ k i, order[k]? = some i → ∀ o, o < unifiedEventSize →
      s'.mem (elementAt events k + o) = s.mem (elementAt events i + o)
  sorted : ∀ i j, i < j → j < s.eventCount →
    compareEventsData s'.mem (elementAt events i) (elementAt events j) ≤ 0

/-- The outer timestamp of every element is that of its record. -/
def StampedArray (events : ℕ) (s : EventArray) : Prop :=
  ∀ k, k < s.eventCount → uint64.load s.mem (elementAt events k) =
    (UnifiedEvent.load s.mem (elementAt events k)).timestamp

/-! ### Moving elements -/

section Qsort

variable {events : ℕ} {s s' : EventArray}

/-- The elements of the sorted array are the old ones in some order. -/
theorem QsortData.perm (h : QsortData events s s') :
    (loadArray events s').Perm (loadArray events s) := by
  obtain ⟨order, hperm, hmoved⟩ := h.moved
  have hlen : order.length = s.eventCount := by rw [hperm.length_eq, List.length_range]
  have hload : loadArray events s' =
      order.map fun i => UnifiedEvent.load s.mem (elementAt events i) := by
    refine List.ext_getElem? fun k => ?_
    rw [loadArray, h.eventCount, List.getElem?_map, List.getElem?_map]
    rcases Nat.lt_or_ge k order.length with hk | hk
    · have hget : order[k]? = some order[k] := List.getElem?_eq_getElem hk
      rw [List.getElem?_range (hlen ▸ hk), hget]
      exact congrArg some (UnifiedEvent.load_congr (hmoved k _ hget))
    · rw [List.getElem?_eq_none hk, List.getElem?_eq_none (by rwa [List.length_range, ← hlen])]
      rfl
  rw [hload, loadArray]
  exact hperm.map _

/-- **Sorting** moves no timestamp away from its record. -/
theorem StampedArray.qsort (hs : StampedArray events s) (h : QsortData events s s') :
    StampedArray events s' := by
  intro k hk
  obtain ⟨order, hperm, hmoved⟩ := h.moved
  have hlen : order.length = s.eventCount := by rw [hperm.length_eq, List.length_range]
  have hk' : k < order.length := by rw [hlen, ← h.eventCount]; exact hk
  have hget : order[k]? = some order[k] := List.getElem?_eq_getElem hk'
  have hi : order[k] < s.eventCount :=
    List.mem_range.mp (hperm.mem_iff.mp (List.getElem_mem hk'))
  have hstamp : uint64.load s'.mem (elementAt events k) =
      uint64.load s.mem (elementAt events order[k]) :=
    uint64.load_congr fun o ho => hmoved k _ hget o (by
      have ho : o < 8 := ho
      rw [unifiedEventSize_eq]
      omega)
  rw [hstamp, UnifiedEvent.load_congr (hmoved k _ hget), hs _ hi]

/-- In a stamped array `compare_events` compares the records. -/
theorem StampedArray.compareEventsData (hs : StampedArray events s) {i j : ℕ}
    (hi : i < s.eventCount) (hj : j < s.eventCount) :
    UnifiedTrace.compareEventsData s.mem (elementAt events i) (elementAt events j) =
      compareEvents (UnifiedEvent.load s.mem (elementAt events i))
        (UnifiedEvent.load s.mem (elementAt events j)) := by
  rw [UnifiedTrace.compareEventsData, compareEvents, hs i hi, hs j hj]

/-- **`qsort` on the array** is a sort of the records. -/
theorem StampedArray.isSortOf (hs : StampedArray events s) (h : QsortData events s s') :
    IsSortOf (loadArray events s') (loadArray events s) := by
  refine ⟨h.perm, List.pairwise_map.mpr (List.pairwise_iff_getElem.mpr fun i j hi hj hij => ?_)⟩
  have hsorted' := hs.qsort h
  rw [List.length_range] at hi hj
  rw [List.getElem_range, List.getElem_range, ← hsorted'.compareEventsData hi hj]
  exact h.sorted i j hij (h.eventCount ▸ hj)

end Qsort

/-! ### From the rings to the output -/

/-- What the array holds is what the list holds. -/
theorem Represents.loadArray_eq {events : ℕ} {s : EventArray} {buf : EventBuf}
    (h : Represents events s buf) : loadArray events s = buf.events := by
  refine List.ext_getElem? fun k => ?_
  rw [loadArray, List.getElem?_map, h.count_eq]
  rcases Nat.lt_or_ge k buf.events.length with hk | hk
  · have hget : buf.events[k]? = some buf.events[k] := List.getElem?_eq_getElem hk
    rw [List.getElem?_range hk, hget]
    exact congrArg some (h.load_eq k _ hget).1
  · rw [List.getElem?_eq_none hk, List.getElem?_eq_none (by rwa [List.length_range])]
    rfl

/-- The callbacks stamp what they copy. -/
theorem Represents.stamped {events : ℕ} {s : EventArray} {buf : EventBuf}
    (h : Represents events s buf) : StampedArray events s := by
  intro k hk
  have hk' : k < buf.events.length := h.count_eq ▸ hk
  obtain ⟨hload, hstamp⟩ := h.load_eq k _ (List.getElem?_eq_getElem hk')
  exact hstamp.trans (congrArg UnifiedEvent.timestamp hload).symm

/-- **What the output finds.** Whatever records the tracers submit, over whatever old contents and
in whatever order they arrive, and whichever of the orders that `compare_events` accepts `qsort`
leaves: the array holds a sort of the first `MAX_EVENTS` records by their own timestamps, and the
timestamp beside each record is its own. -/
theorem sorted_array_of_submitted (events : ℕ) (mem : ℕ → UInt8) (subs : List Submission)
    {s : EventArray} (h : QsortData events (collectData events mem subs) s) :
    s.eventCount = min maxEvents subs.length ∧
      IsSortOf (loadArray events s) ((subs.map (·.event)).take maxEvents) ∧
        StampedArray events s := by
  have hrep := represents_collectData events mem subs
  have hsort := hrep.stamped.isSortOf h
  rw [hrep.loadArray_eq, events_collect] at hsort
  refine ⟨?_, hsort, hrep.stamped.qsort h⟩
  rw [h.eventCount, hrep.count_eq, events_collect, List.length_take, List.length_map]

/-- A wakeup in an empty ring. -/
def wakeupSubmission (now : UInt64) : Submission where
  event := .cpu (.wakeupAt 100 now)
  slot := ⟨fun _ => 0, 0⟩
  rest := List.replicate 15 0
  filled := rfl

/-- Two elements that changed their places. -/
def swapElements (s : EventArray) : EventArray where
  mem j := if j < 104 then s.mem (104 + j) else s.mem (0 + (j - 104))
  eventCount := s.eventCount

/-- Two elements out of order are sorted by swapping them. -/
theorem qsortData_swapElements {s : EventArray} (hcount : s.eventCount = 2)
    (hlt : uint64.load s.mem (elementAt 0 1) < uint64.load s.mem (elementAt 0 0)) :
    QsortData 0 s (swapElements s) := by
  have hfirst : ∀ o, o < 104 → (swapElements s).mem (0 + o) = s.mem (104 + o) := by
    intro o ho
    rw [Nat.zero_add]
    exact if_pos ho
  have hsecond : ∀ o, o < 104 → (swapElements s).mem (104 + o) = s.mem (0 + o) := by
    intro o _
    have hskip : 104 + o - 104 = o := Nat.add_sub_cancel_left 104 o
    refine (if_neg (by omega)).trans ?_
    rw [hskip]
  refine ⟨rfl, ⟨[1, 0], ?_, ?_⟩, ?_⟩
  · rw [hcount]
    decide
  · intro k i hk
    rcases k with _ | _ | k
    · obtain rfl := Option.some.inj hk
      exact hfirst
    · obtain rfl := Option.some.inj hk
      exact hsecond
    · cases hk
  · intro i j hij hj
    rw [hcount] at hj
    obtain rfl : i = 0 := by omega
    obtain rfl : j = 1 := by omega
    have hload : ∀ a b : ℕ, (∀ o, o < 104 → (swapElements s).mem (a + o) = s.mem (b + o)) →
        uint64.load (swapElements s).mem a = uint64.load s.mem b := fun a b h =>
      uint64.load_congr fun o ho => h o (Nat.lt_trans ho (by decide))
    have hearly : uint64.load (swapElements s).mem (elementAt 0 0) =
        uint64.load s.mem (elementAt 0 1) := hload 0 104 hfirst
    have hlate : uint64.load (swapElements s).mem (elementAt 0 1) =
        uint64.load s.mem (elementAt 0 0) := hload 104 0 hsecond
    rw [compareEventsData, hearly, hlate, if_pos hlt]
    decide

/-- Two wakeups arrive in the wrong order. -/
theorem sorted_array_of_submitted_swapped :
    ∃ s, QsortData 0
        (collectData 0 (fun _ => 0) [wakeupSubmission 20, wakeupSubmission 10]) s ∧
      IsSortOf (loadArray 0 s) [.cpu (.wakeupAt 100 20), .cpu (.wakeupAt 100 10)] := by
  have hrep := represents_collectData 0 (fun _ => 0) [wakeupSubmission 20, wakeupSubmission 10]
  have hevents : (collect ([wakeupSubmission 20, wakeupSubmission 10].map (·.event))).events =
      [.cpu (.wakeupAt 100 20), .cpu (.wakeupAt 100 10)] :=
    events_collect_of_length_le (by decide)
  have hstamp : ∀ k e, [UnifiedEvent.cpu (.wakeupAt 100 20), .cpu (.wakeupAt 100 10)][k]? = some e →
      uint64.load (collectData 0 (fun _ => 0) [wakeupSubmission 20, wakeupSubmission 10]).mem
        (elementAt 0 k) = e.timestamp := fun k e hk =>
    (hrep.load_eq k e (hevents ▸ hk)).2
  have hqsort := qsortData_swapElements
    (s := collectData 0 (fun _ => 0) [wakeupSubmission 20, wakeupSubmission 10])
    (by rw [hrep.count_eq, hevents]; rfl)
    (by rw [hstamp 1 _ rfl, hstamp 0 _ rfl]; decide)
  exact ⟨_, hqsort, (sorted_array_of_submitted 0 (fun _ => 0) _ hqsort).2.1⟩

end UnifiedTrace
