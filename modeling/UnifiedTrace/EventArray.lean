import UnifiedTrace.Collect
import UnifiedTrace.WireFormat

/-!
# The Array of Events

The callbacks of `src/user/unified_trace.c` on the memory they work on. `events` is an array of
`struct unified_event`, a timestamp, a tag and a union of the two records; a callback copies the
record that libbpf points it at into the element at `event_count` and counts it. `EventBuf` says
the same with a list of records, and `Represents` connects the two: the elements below the
counter are read as the records of the list.

## Main results

* `Represents.handle`: a callback keeps the relation.
* `events_array_of_submitted`: whatever records the tracers submit, the array holds the first
  `MAX_EVENTS` of them, and no other byte of the collector's memory is touched.
-/

namespace UnifiedTrace

open ByteStores RecordLayout

/-- `struct unified_event`. -/
def unifiedEventMembers : List Member :=
  [memberU64, memberU32, .union (.struct cpuSchedEventMembers) (.struct cudaEventMembers)]

/-- `sizeof(struct unified_event)`. -/
def unifiedEventSize : ℕ := sizeof unifiedEventMembers

example : spans unifiedEventMembers = [⟨0, 8⟩, ⟨8, 4⟩, ⟨16, 88⟩] := rfl

/-- The size of an array element. -/
theorem unifiedEventSize_eq : unifiedEventSize = 104 := rfl

/-- The collector's memory and `event_count`. -/
structure EventArray where
  mem : ℕ → UInt8
  eventCount : ℕ

/-- What a callback is given: the ring's memory, and where the record stands in it. -/
structure RingData where
  mem : ℕ → UInt8
  data : ℕ

/-- The assignments of a callback to an element: the timestamp, the tag, and the record. -/
def copyAssigns (tag : UInt32) (size : ℕ) (r : RingData) : List Assign :=
  [⟨0, bytesOf 8 (uint64.load r.mem r.data).toNat⟩, ⟨8, bytesOf 4 tag.toNat⟩,
    ⟨16, read r.mem r.data size⟩]

section Callbacks

variable (events : ℕ) (s : EventArray) (r : RingData)

/-- What the two callbacks do: unless the array is full, fill the next element. -/
def handleData (tag : UInt32) (size : ℕ) : EventArray :=
  if maxEvents ≤ s.eventCount then
    s
  else
    { mem := run s.mem
        (storesOf (events + s.eventCount * unifiedEventSize) (copyAssigns tag size r))
      eventCount := s.eventCount + 1 }

/-- `handle_cpu_event` on memory. -/
def handleCpuData : EventArray := handleData events s r 0 (sizeof cpuSchedEventMembers)

/-- `handle_gpu_event` on memory. -/
def handleGpuData : EventArray := handleData events s r 1 (sizeof cudaEventMembers)

end Callbacks

/-- The element at an address, as the output reads it. -/
def UnifiedEvent.load (mem : ℕ → UInt8) (base : ℕ) : UnifiedEvent :=
  if uint32.load mem (base + 8) = 0 then .cpu (CpuSchedEvent.load mem (base + 16))
  else .gpu (CudaEvent.load mem (base + 16))

/-! ### One element -/

/-- A scheduling record is read from its own bytes. -/
theorem CpuSchedEvent.load_congr {mem mem' : ℕ → UInt8} {i j : ℕ}
    (h : ∀ k, k < sizeof cpuSchedEventMembers → mem' (j + k) = mem (i + k)) :
    load mem' j = load mem i := by
  rw [sizeof_cpuSchedEventMembers] at h
  have hload : ∀ {α : Type} (c : CType α) (o : ℕ), o + c.size ≤ 56 →
      c.load mem' (j + o) = c.load mem (i + o) := fun c o ho =>
    c.load_congr fun k hk => by rw [Nat.add_assoc, Nat.add_assoc]; exact h _ (by omega)
  rw [load, load, hload uint64 0 (by decide), hload uint32 8 (by decide),
    hload uint32 12 (by decide), hload uint32 16 (by decide), hload uint32 20 (by decide),
    hload uint64 24 (by decide), hload int32 32 (by decide), hload commArray 36 (by decide)]

/-- A CUDA record is read from its own bytes. -/
theorem CudaEvent.load_congr {mem mem' : ℕ → UInt8} {i j : ℕ}
    (h : ∀ k, k < sizeof cudaEventMembers → mem' (j + k) = mem (i + k)) :
    load mem' j = load mem i := by
  rw [sizeof_cudaEventMembers] at h
  have hload : ∀ {α : Type} (c : CType α) (o : ℕ), o + c.size ≤ 88 →
      c.load mem' (j + o) = c.load mem (i + o) := fun c o ho =>
    c.load_congr fun k hk => by rw [Nat.add_assoc, Nat.add_assoc]; exact h _ (by omega)
  rw [load, load, hload uint64 0 (by decide), hload uint64 8 (by decide),
    hload uint32 16 (by decide), hload uint32 20 (by decide), hload uint32 24 (by decide),
    hload uint64 32 (by decide), hload uint64 40 (by decide), hload int32 48 (by decide),
    hload commArray 52 (by decide), hload uint64 72 (by decide), hload int32 80 (by decide),
    hload uint32 84 (by decide)]

/-- An element is read from its own bytes. -/
theorem UnifiedEvent.load_congr {mem mem' : ℕ → UInt8} {i j : ℕ}
    (h : ∀ k, k < unifiedEventSize → mem' (j + k) = mem (i + k)) :
    load mem' j = load mem i := by
  rw [unifiedEventSize_eq] at h
  have hpart : ∀ o n, o + n ≤ 104 → ∀ k, k < n → mem' (j + o + k) = mem (i + o + k) := by
    intro o n ho k hk
    rw [Nat.add_assoc, Nat.add_assoc]
    exact h _ (by omega)
  have htag : uint32.load mem' (j + 8) = uint32.load mem (i + 8) :=
    uint32.load_congr (hpart 8 4 (by decide))
  rw [load, load, htag, CpuSchedEvent.load_congr (hpart 16 _ (by decide)),
    CudaEvent.load_congr (hpart 16 _ (by decide))]

section Copy

variable (mem : ℕ → UInt8) (base : ℕ) (tag : UInt32) (size : ℕ) (r : RingData)

/-- The element after the assignments. -/
def copied : ℕ → UInt8 := run mem (storesOf base (copyAssigns tag size r))

/-- A copied element holds what was assigned. -/
theorem holds_copied {w : Assign} (hw : w ∈ copyAssigns tag size r) :
    Holds (copied mem base tag size r) (base + w.offset) w.bytes :=
  holds_of_apart (by simp [copyAssigns, Assign.span, Span.Apart]) hw mem

/-- The outer timestamp of an element is that of the copied record. -/
theorem timestamp_copied :
    uint64.load (copied mem base tag size r) base = uint64.load r.mem r.data := by
  have hholds := holds_copied mem base tag size r List.mem_cons_self
  exact (uint64.load_of_holds (length_bytesOf 8 _) hholds).trans (uint64_value _)

/-- The tag of a copied element. -/
theorem tag_copied : uint32.load (copied mem base tag size r) (base + 8) = tag := by
  have hholds := holds_copied mem base tag size r (List.mem_cons_of_mem _ List.mem_cons_self)
  exact (uint32.load_of_holds (length_bytesOf 4 _) hholds).trans (uint32_value tag)

/-- The union holds the bytes of the record. -/
theorem union_copied (k : ℕ) (hk : k < size) :
    copied mem base tag size r (base + 16 + k) = r.mem (r.data + k) :=
  eq_of_holds_read (holds_copied mem base tag size r
    (List.mem_cons_of_mem _ (List.mem_cons_of_mem _ List.mem_cons_self))) k hk

/-- An element that the assignments do not exceed keeps the bytes around it. -/
theorem copied_of_outside (hsize : 16 + size ≤ unifiedEventSize) {j : ℕ}
    (hj : j < base ∨ base + unifiedEventSize ≤ j) :
    copied mem base tag size r j = mem j := by
  rw [unifiedEventSize_eq] at hsize hj
  refine run_storesOf_of_outside (fun w hw => ?_) mem
  simp only [copyAssigns, List.mem_cons, List.not_mem_nil, or_false] at hw
  rcases hw with rfl | rfl | rfl <;>
    simp only [length_bytesOf, length_read] <;> omega

/-- A copied CPU event is loaded back. -/
theorem load_copied_cpu :
    UnifiedEvent.load (copied mem base 0 (sizeof cpuSchedEventMembers) r) base =
      .cpu (CpuSchedEvent.load r.mem r.data) := by
  rw [UnifiedEvent.load, if_pos (tag_copied _ _ _ _ _)]
  exact congrArg _ (CpuSchedEvent.load_congr fun k hk => union_copied _ _ _ _ _ k hk)

/-- A copied CUDA event is loaded back. -/
theorem load_copied_gpu :
    UnifiedEvent.load (copied mem base 1 (sizeof cudaEventMembers) r) base =
      .gpu (CudaEvent.load r.mem r.data) := by
  have htag : uint32.load (copied mem base 1 (sizeof cudaEventMembers) r) (base + 8) ≠ 0 := by
    rw [tag_copied]
    decide
  rw [UnifiedEvent.load, if_neg htag]
  exact congrArg _ (CudaEvent.load_congr fun k hk => union_copied _ _ _ _ _ k hk)

end Copy

/-! ### Records that the tracers submit -/

/-- The bytes after the NUL of the record's name fill up its array. -/
def UnifiedEvent.FilledBy : UnifiedEvent → Bytes → Prop
  | cpu e => e.comm.FilledBy
  | gpu e => e.comm.FilledBy

/-- The assignments of the tracer that submits the record. -/
def UnifiedEvent.assigns : UnifiedEvent → Bytes → List Assign
  | cpu e => e.assigns
  | gpu e => e.assigns

/-- The tag of the record's ring. -/
def UnifiedEvent.tag : UnifiedEvent → UInt32
  | cpu _ => 0
  | gpu _ => 1

/-- The size of the record in its ring. -/
def UnifiedEvent.recordSize : UnifiedEvent → ℕ
  | cpu _ => sizeof cpuSchedEventMembers
  | gpu _ => sizeof cudaEventMembers

/-- The union has room for either record. -/
theorem UnifiedEvent.recordSize_le (e : UnifiedEvent) :
    16 + e.recordSize ≤ unifiedEventSize := by
  have hcpu : 16 + sizeof cpuSchedEventMembers ≤ unifiedEventSize := by decide
  have hgpu : 16 + sizeof cudaEventMembers ≤ unifiedEventSize := by decide
  cases e with
  | cpu e => exact hcpu
  | gpu e => exact hgpu

/-- A record that a tracer submits: into which slot, over which old contents, and what the
kernel leaves after the NUL of the name. -/
structure Submission where
  event : UnifiedEvent
  slot : RingData
  rest : Bytes
  filled : event.FilledBy rest

/-- What libbpf hands to the callback. -/
def Submission.data (sub : Submission) : RingData where
  mem := run sub.slot.mem (storesOf sub.slot.data (sub.event.assigns sub.rest))
  data := sub.slot.data

/-- The callback of the record's ring. -/
def Submission.handle (events : ℕ) (s : EventArray) (sub : Submission) : EventArray :=
  match sub.event with
  | .cpu _ => handleCpuData events s sub.data
  | .gpu _ => handleGpuData events s sub.data

/-- The array after the callbacks received the records in the given order. -/
def collectData (events : ℕ) (mem : ℕ → UInt8) (subs : List Submission) : EventArray :=
  subs.foldl (Submission.handle events) ⟨mem, 0⟩

/-- Both callbacks are the same function, at the tag and the size of their record. -/
theorem Submission.handle_eq (events : ℕ) (s : EventArray) (sub : Submission) :
    sub.handle events s = handleData events s sub.data sub.event.tag sub.event.recordSize := by
  rw [handle]
  cases sub.event <;> rfl

/-- The record that the callback finds at its pointer. -/
theorem Submission.load_data (sub : Submission) :
    (∀ e, sub.event = .cpu e → CpuSchedEvent.load sub.data.mem sub.data.data = e) ∧
      ∀ e, sub.event = .gpu e → CudaEvent.load sub.data.mem sub.data.data = e := by
  obtain ⟨event, slot, rest, hfilled⟩ := sub
  constructor
  · rintro e rfl
    simp only [data, UnifiedEvent.assigns]
    exact e.load_assigns hfilled slot.mem slot.data
  · rintro e rfl
    simp only [data, UnifiedEvent.assigns]
    exact e.load_assigns hfilled slot.mem slot.data

/-- The data starts with the timestamp. -/
theorem Submission.timestamp_data (sub : Submission) :
    uint64.load sub.data.mem sub.data.data = sub.event.timestamp := by
  cases hevent : sub.event with
  | cpu e => rw [← CpuSchedEvent.timestamp_load, sub.load_data.1 e hevent, UnifiedEvent.timestamp]
  | gpu e => rw [← CudaEvent.timestamp_load, sub.load_data.2 e hevent, UnifiedEvent.timestamp]

/-- What a callback leaves at its element. -/
theorem Submission.load_copied (sub : Submission) (mem : ℕ → UInt8) (base : ℕ) :
    UnifiedEvent.load (copied mem base sub.event.tag sub.event.recordSize sub.data) base =
      sub.event := by
  cases hevent : sub.event with
  | cpu e =>
      rw [UnifiedEvent.tag, UnifiedEvent.recordSize, load_copied_cpu, sub.load_data.1 e hevent]
  | gpu e =>
      rw [UnifiedEvent.tag, UnifiedEvent.recordSize, load_copied_gpu, sub.load_data.2 e hevent]

/-- A callback at a full array does nothing. -/
theorem Submission.handle_of_full {events : ℕ} {s : EventArray} (h : maxEvents ≤ s.eventCount)
    (sub : Submission) : sub.handle events s = s := by
  rw [handle_eq]
  exact if_pos h

/-- **One callback** with room: the next element is the record, and no byte outside of it
changes. -/
theorem Submission.handle_of_room {events : ℕ} {s : EventArray} (h : s.eventCount < maxEvents)
    (sub : Submission) :
    (sub.handle events s).eventCount = s.eventCount + 1 ∧
      UnifiedEvent.load (sub.handle events s).mem
        (events + s.eventCount * unifiedEventSize) = sub.event ∧
      uint64.load (sub.handle events s).mem (events + s.eventCount * unifiedEventSize) =
        sub.event.timestamp ∧
      ∀ j, j < events + s.eventCount * unifiedEventSize ∨
          events + s.eventCount * unifiedEventSize + unifiedEventSize ≤ j →
        (sub.handle events s).mem j = s.mem j := by
  have hhandle : sub.handle events s =
      ⟨copied s.mem (events + s.eventCount * unifiedEventSize) sub.event.tag
        sub.event.recordSize sub.data, s.eventCount + 1⟩ := by
    rw [handle_eq]
    exact if_neg (Nat.not_le.mpr h)
  rw [hhandle]
  refine ⟨rfl, sub.load_copied _ _, (timestamp_copied _ _ _ _ _).trans sub.timestamp_data, ?_⟩
  exact fun j hj => copied_of_outside _ _ _ _ _ sub.event.recordSize_le hj

/-! ### The array and the list -/

/-- The elements below the counter are the records of the list, each under its timestamp. -/
structure Represents (events : ℕ) (s : EventArray) (buf : EventBuf) : Prop where
  count_eq : s.eventCount = buf.events.length
  load_eq : ∀ k e, buf.events[k]? = some e →
    UnifiedEvent.load s.mem (events + k * unifiedEventSize) = e ∧
      uint64.load s.mem (events + k * unifiedEventSize) = e.timestamp

/-- **A callback refines** the list: it keeps the relation. -/
theorem Represents.handle {events : ℕ} {s : EventArray} {buf : EventBuf}
    (h : Represents events s buf) (sub : Submission) :
    Represents events (sub.handle events s) (handleEvent buf sub.event) := by
  rw [handleEvent_eq_push]
  rcases Nat.lt_or_ge s.eventCount maxEvents with hroom | hfull
  · have hpush : (buf.push sub.event).events = buf.events ++ [sub.event] := by
      rw [EventBuf.push, dif_neg (Nat.not_le.mpr (h.count_eq ▸ hroom))]
    obtain ⟨hcount, hload, htimestamp, hframe⟩ := @Submission.handle_of_room events s hroom sub
    refine ⟨?_, fun k e hk => ?_⟩
    · rw [hcount, h.count_eq, hpush, List.length_append, List.length_singleton]
    · rw [hpush, List.getElem?_append] at hk
      split_ifs at hk with hlt
      · -- an older element ends where the new one starts, or before it
        have hle : k * unifiedEventSize + unifiedEventSize ≤ s.eventCount * unifiedEventSize := by
          rw [← Nat.succ_mul, h.count_eq]
          exact Nat.mul_le_mul_right _ hlt
        have hsame : ∀ j, events + k * unifiedEventSize ≤ j →
            j < events + k * unifiedEventSize + unifiedEventSize →
            (sub.handle events s).mem j = s.mem j := fun j _ hj => hframe j (.inl (by omega))
        obtain ⟨hold, holdTimestamp⟩ := h.load_eq k e hk
        refine ⟨(UnifiedEvent.load_congr fun o ho => hsame _ (by omega) (by omega)).trans hold, ?_⟩
        refine (uint64.load_congr fun o ho => hsame _ (by omega) ?_).trans holdTimestamp
        have ho : o < 8 := ho
        rw [unifiedEventSize_eq]
        omega
      · rw [List.getElem?_singleton] at hk
        split_ifs at hk with hzero
        have hk' : k = s.eventCount := by rw [h.count_eq]; omega
        rw [hk', ← Option.some.inj hk]
        exact ⟨hload, htimestamp⟩
  · rw [sub.handle_of_full hfull, EventBuf.push, dif_pos (h.count_eq ▸ hfull)]
    exact h

/-- A callback leaves the bytes outside the array and above its last element alone. -/
theorem Submission.handle_frame {events : ℕ} (s : EventArray) (sub : Submission) {j : ℕ}
    (hj : j < events ∨ events + (sub.handle events s).eventCount * unifiedEventSize ≤ j) :
    (sub.handle events s).mem j = s.mem j := by
  rcases Nat.lt_or_ge s.eventCount maxEvents with hroom | hfull
  · obtain ⟨hcount, -, -, hframe⟩ := @Submission.handle_of_room events s hroom sub
    rw [hcount, Nat.succ_mul] at hj
    exact hframe j (by omega)
  · rw [sub.handle_of_full hfull]

/-- The counter never goes down. -/
theorem Submission.eventCount_le_handle (events : ℕ) (s : EventArray) (sub : Submission) :
    s.eventCount ≤ (sub.handle events s).eventCount := by
  rcases Nat.lt_or_ge s.eventCount maxEvents with hroom | hfull
  · obtain ⟨hcount, -⟩ := @Submission.handle_of_room events s hroom sub
    omega
  · rw [sub.handle_of_full hfull]

/-- The array and the list go together through any arrivals. -/
theorem represents_collectData (events : ℕ) (mem : ℕ → UInt8) (subs : List Submission) :
    Represents events (collectData events mem subs) (collect (subs.map (·.event))) := by
  induction subs using List.reverseRecOn with
  | nil => exact ⟨rfl, fun k e hk => by cases hk⟩
  | append_singleton subs sub ih =>
      have hstep := ih.handle sub
      simpa only [collectData, collect, List.map_append, List.map_cons, List.map_nil,
        List.foldl_append, List.foldl_cons, List.foldl_nil] using hstep

/-- The collector's other memory through any arrivals. -/
theorem frame_collectData (events : ℕ) (mem : ℕ → UInt8) (subs : List Submission) {j : ℕ}
    (hj : j < events ∨ events + (collectData events mem subs).eventCount * unifiedEventSize ≤ j) :
    (collectData events mem subs).mem j = mem j := by
  induction subs using List.reverseRecOn with
  | nil => rfl
  | append_singleton subs sub ih =>
      have hlast : collectData events mem (subs ++ [sub]) =
          sub.handle events (collectData events mem subs) := by
        rw [collectData, List.foldl_append]
        rfl
      have hmono := Nat.mul_le_mul_right unifiedEventSize
        (sub.eventCount_le_handle events (collectData events mem subs))
      rw [hlast] at hj ⊢
      rw [sub.handle_frame _ hj, ih (by omega)]

/-- **From the rings to the array.** Whatever records the tracers submit, over whatever the slots
of the rings held before, and in whatever order they arrive: the array holds the first
`MAX_EVENTS` of them, element by element and each under its own timestamp, and outside of these
elements the collector's memory is as it was. -/
theorem events_array_of_submitted (events : ℕ) (mem : ℕ → UInt8) (subs : List Submission) :
    (collectData events mem subs).eventCount = min maxEvents subs.length ∧
      (∀ k sub, k < maxEvents → subs[k]? = some sub →
        UnifiedEvent.load (collectData events mem subs).mem
            (events + k * unifiedEventSize) = sub.event ∧
          uint64.load (collectData events mem subs).mem (events + k * unifiedEventSize) =
            sub.event.timestamp) ∧
      ∀ j, j < events ∨ events + min maxEvents subs.length * unifiedEventSize ≤ j →
        (collectData events mem subs).mem j = mem j := by
  have hrep := represents_collectData events mem subs
  have hcount : (collectData events mem subs).eventCount = min maxEvents subs.length := by
    rw [hrep.count_eq, events_collect, List.length_take, List.length_map]
  refine ⟨hcount, fun k sub hk hsub => hrep.load_eq k _ ?_, fun j hj => ?_⟩
  · rw [events_collect, List.getElem?_take_of_lt hk, List.getElem?_map, hsub]
    rfl
  · exact frame_collectData events mem subs (hcount ▸ hj)

end UnifiedTrace
