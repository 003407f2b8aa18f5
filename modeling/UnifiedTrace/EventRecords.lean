import UnifiedTrace.Spans

/-!
# Which Record Comes from Which Event

The records of the loop without their text and their separators. Besides the names of the
rows, every event has at most one record, which depends on the event, on its position, and
for a switch-out on the span that is open on its thread id.

## Main results

* `fileRecords_emitEvents`: apart from the two row names at the first CPU event, the records
  of the loop are those of the events, in order.
* `cpuOnTime_emitEvents`: the span that is open on a thread id starts at its last mark.
* `exists_record_cpu_iff`: which CPU events have a record.
-/

namespace UnifiedTrace

/-- The CPU event, if it is one. -/
def UnifiedEvent.cpu? : UnifiedEvent → Option CpuSchedEvent
  | cpu e => some e
  | gpu _ => none

/-- The `stack` argument of an event. -/
def stackOf (env : StackEnv) (i : ℕ) (stackId : Int32) (pid : UInt32) :
    Option (List StackFrame) :=
  if stackId ≥ 0 then some (emitStackJson env i stackId pid) else none

/-- The record of a CUDA event. -/
def completeRecord (env : StackEnv) (m : UInt64) (i : ℕ) (gpu : CudaEvent) :
    CompleteRecord where
  name := cudaOpName gpu.opType
  cat := cudaOpCategory gpu.opType
  ts := gpu.timestamp - m
  dur := gpu.durationNs
  pid := gpu.pid
  tid := gpu.tid + 1000000 + streamOffset gpu.streamId
  ret := gpu.retVal
  comm := gpu.comm
  streamId := if gpu.streamId ≠ 0 then some gpu.streamId else none
  async := gpu.flags &&& cudaEvFlagAsync ≠ 0
  size :=
    if gpu.opType = CudaOp.malloc.code ∨ gpu.opType = CudaOp.memcpy.code ∨
        gpu.opType = CudaOp.memcpyAsync.code then
      some gpu.size
    else none
  ptr := if gpu.opType = CudaOp.free.code ∧ gpu.ptr ≠ 0 then some gpu.ptr else none
  stack := stackOf env i gpu.stackId gpu.pid

/-- The record of a CPU event at position `i`, when the span open on its thread id started at
`start`; `0` when none is open. -/
def cpuRecord? (env : StackEnv) (m : UInt64) (i : ℕ) (start : UInt64)
    (cpu : CpuSchedEvent) : Option Record :=
  if cpu.eventType = cpuSchedOn then
    some (.begin (cpu.timestamp - m) cpu.pid cpu.tid cpu.cpu cpu.comm
      (stackOf env i cpu.stackId cpu.pid))
  else if cpu.eventType = cpuSchedOff then
    if cpu.tid < cpuOnTimeLen ∧ start ≠ 0 then
      some (.finish (cpu.timestamp - m) cpu.pid cpu.tid (cpu.timestamp - start) cpu.prevState)
    else none
  else if cpu.eventType = cpuSchedWakeup then
    some (.instant (cpu.timestamp - m) cpu.pid cpu.tid)
  else none

/-- The record of an event, other than the names of the rows. -/
def ownRecord? (env : StackEnv) (m : UInt64) (i : ℕ) (onTime : UInt32 → UInt64) :
    UnifiedEvent → Option Record
  | .cpu cpu => cpuRecord? env m i (onTime cpu.tid) cpu
  | .gpu gpu => some (.complete (completeRecord env m i gpu))

/-- The names of the rows, which an event gives if it is the first CPU event. -/
def rowNames (st : EmitState) : UnifiedEvent → List Record
  | .cpu cpu =>
      if st.threadNameWritten then []
      else [.cpuThreadName cpu.pid cpu.tid cpu.comm, .gpuThreadName cpu.pid (cpu.tid + 1000000)]
  | .gpu _ => []

/-- The events of the loop with their records. -/
def eventRecords (env : StackEnv) (m : UInt64) (i : ℕ) (st : EmitState) :
    List UnifiedEvent → List (UnifiedEvent × Record)
  | [] => []
  | e :: events =>
      (ownRecord? env m i st.cpuOnTime e).toList.map (Prod.mk e) ++
        eventRecords env m (i + 1) (emitEvent env m i st e).2 events

/-- The events of a file with their records. -/
def fileEventRecords (env : StackEnv) (events : List UnifiedEvent) :
    List (UnifiedEvent × Record) :=
  eventRecords env (minTimestamp events) 0 .init events

/-- The record names a row. -/
def Record.IsName : Record → Bool
  | cpuThreadName _ _ _ => true
  | gpuThreadName _ _ => true
  | _ => false

/-- What the record of a CPU event can be. -/
theorem of_cpuRecord?_eq_some {env : StackEnv} {m : UInt64} {i : ℕ} {start : UInt64}
    {cpu : CpuSchedEvent} {r : Record} (h : cpuRecord? env m i start cpu = some r) :
    (cpu.eventType = cpuSchedOn ∧ r = .begin (cpu.timestamp - m) cpu.pid cpu.tid cpu.cpu
      cpu.comm (stackOf env i cpu.stackId cpu.pid)) ∨
    (cpu.eventType = cpuSchedOff ∧ r = .finish (cpu.timestamp - m) cpu.pid cpu.tid
      (cpu.timestamp - start) cpu.prevState) ∨
    (cpu.eventType = cpuSchedWakeup ∧ r = .instant (cpu.timestamp - m) cpu.pid cpu.tid) := by
  rw [cpuRecord?] at h
  split at h
  · rename_i hon
    exact .inl ⟨hon, (Option.some.inj h).symm⟩
  · split at h
    · rename_i hoff
      split at h
      · exact .inr (.inl ⟨hoff, (Option.some.inj h).symm⟩)
      · exact absurd h (by simp)
    · split at h
      · rename_i hwake
        exact .inr (.inr ⟨hwake, (Option.some.inj h).symm⟩)
      · exact absurd h (by simp)

/-! ### The records of the loop -/

/-- A separator is no record. -/
theorem fileRecords_separator (st : EmitState) (ps : List Piece) :
    fileRecords (st.separator ++ ps) = fileRecords ps := by
  rw [EmitState.separator]
  split <;> rfl

section Loop

variable (env : StackEnv) (m : UInt64) (i : ℕ) (st : EmitState)

/-- A CPU event writes its record, if it has one. -/
theorem fileRecords_emitCpuEvent_eq (cpu : CpuSchedEvent) :
    fileRecords (emitCpuEvent env m i st cpu).1 =
      (cpuRecord? env m i (st.cpuOnTime cpu.tid) cpu).toList := by
  rw [emitCpuEvent, cpuRecord?]
  dsimp only
  split
  · exact fileRecords_separator _ _
  · split
    · split
      · exact fileRecords_separator _ _
      · rfl
    · split
      · exact fileRecords_separator _ _
      · rfl

/-- The names of a thread are two records. -/
theorem fileRecords_emitThreadNames (cpu : CpuSchedEvent) :
    fileRecords (emitThreadNames st cpu).1 =
      [.cpuThreadName cpu.pid cpu.tid cpu.comm, .gpuThreadName cpu.pid (cpu.tid + 1000000)] :=
  fileRecords_separator _ _

/-- One round writes the names of the rows, if they are due, and the event's own record. -/
theorem fileRecords_emitEvent (e : UnifiedEvent) :
    fileRecords (emitEvent env m i st e).1 =
      rowNames st e ++ (ownRecord? env m i st.cpuOnTime e).toList := by
  cases e with
  | gpu gpu => exact fileRecords_separator _ _
  | cpu cpu =>
      rw [emitEvent, rowNames, ownRecord?]
      dsimp only
      rw [fileRecords_append, fileRecords_emitCpuEvent_eq]
      cases st.threadNameWritten with
      | true => rfl
      | false =>
          rw [if_neg Bool.false_ne_true, if_neg Bool.false_ne_true,
            fileRecords_emitThreadNames]
          rfl

/-- The branch for CPU events leaves the mark on the names alone. -/
theorem threadNameWritten_emitCpuEvent (cpu : CpuSchedEvent) :
    (emitCpuEvent env m i st cpu).2.threadNameWritten = st.threadNameWritten := by
  rw [emitCpuEvent]
  split_ifs <;> rfl

/-- The names are written with the first CPU event. -/
theorem threadNameWritten_emitEvent (e : UnifiedEvent) :
    (emitEvent env m i st e).2.threadNameWritten = (st.threadNameWritten || e.cpu?.isSome) := by
  cases e with
  | cpu cpu =>
      rw [emitEvent, threadNameWritten_emitCpuEvent]
      cases hwritten : st.threadNameWritten with
      | true => simp [hwritten]
      | false => simp [emitThreadNames, UnifiedEvent.cpu?]
  | gpu gpu => simp [emitEvent, emitGpuEvent, EmitState.count, UnifiedEvent.cpu?]

/-- The output loop over two lists goes on from where the first one ended. -/
theorem emitEvents_append (events events' : List UnifiedEvent) :
    emitEvents env m i st (events ++ events') =
      ((emitEvents env m i st events).1 ++
        (emitEvents env m (i + events.length) (emitEvents env m i st events).2 events').1,
      (emitEvents env m (i + events.length) (emitEvents env m i st events).2 events').2) := by
  induction events generalizing i st with
  | nil => rfl
  | cons e events ih =>
      rw [List.cons_append, emitEvents, ih]
      simp only [emitEvents, List.append_assoc, List.length_cons]
      rw [Nat.add_assoc i 1, Nat.add_comm 1]

/-- An event and its record stand at a position of the list. -/
theorem mem_eventRecords_iff {events : List UnifiedEvent} {e : UnifiedEvent} {r : Record} :
    (e, r) ∈ eventRecords env m i st events ↔
      ∃ pre post, events = pre ++ e :: post ∧
        ownRecord? env m (i + pre.length) (emitEvents env m i st pre).2.cpuOnTime e =
          some r := by
  induction events generalizing i st with
  | nil =>
      refine iff_of_false List.not_mem_nil ?_
      rintro ⟨pre, post, h, -⟩
      exact absurd h (by simp)
  | cons a events ih =>
      rw [eventRecords, List.mem_append, ih]
      constructor
      · rintro (hfirst | ⟨pre, post, rfl, hr⟩)
        · obtain ⟨r', hr', heq⟩ := List.mem_map.mp hfirst
          obtain ⟨rfl, rfl⟩ := Prod.mk.inj heq
          exact ⟨[], events, rfl, Option.mem_toList.mp hr'⟩
        · refine ⟨a :: pre, post, rfl, ?_⟩
          rw [List.length_cons, ← Nat.add_assoc, Nat.add_right_comm]
          exact hr
      · rintro ⟨pre, post, h, hr⟩
        cases pre with
        | nil =>
            obtain ⟨rfl, rfl⟩ := List.cons.inj h
            exact .inl (List.mem_map.mpr ⟨r, Option.mem_toList.mpr hr, rfl⟩)
        | cons b pre =>
            obtain ⟨rfl, rfl⟩ := List.cons.inj h
            refine .inr ⟨pre, post, rfl, ?_⟩
            rw [List.length_cons, ← Nat.add_assoc, Nat.add_right_comm] at hr
            exact hr

end Loop

/-- The names of the rows are names, and the records of events are not. -/
theorem isName_of_mem_rowNames {st : EmitState} {e : UnifiedEvent} {r : Record}
    (h : r ∈ rowNames st e) : r.IsName = true := by
  cases e with
  | gpu gpu => exact absurd h List.not_mem_nil
  | cpu cpu =>
      rw [rowNames] at h
      split at h
      · exact absurd h List.not_mem_nil
      · rcases List.mem_cons.mp h with rfl | h
        · rfl
        · obtain rfl := List.mem_singleton.mp h
          rfl

/-- The record of an event is no metadata. -/
theorem isName_of_ownRecord? {env : StackEnv} {m : UInt64} {i : ℕ}
    {onTime : UInt32 → UInt64} {e : UnifiedEvent} {r : Record}
    (h : ownRecord? env m i onTime e = some r) : r.IsName = false := by
  cases e with
  | gpu gpu =>
      obtain rfl := Option.some.inj h
      rfl
  | cpu cpu =>
      obtain ⟨-, rfl⟩ | ⟨-, rfl⟩ | ⟨-, rfl⟩ := of_cpuRecord?_eq_some h
      · rfl
      · rfl
      · rfl

/-- **The records of the loop** that do not name a row are those of the events, in order. -/
theorem fileRecords_emitEvents (env : StackEnv) (m : UInt64) (i : ℕ) (st : EmitState)
    (events : List UnifiedEvent) :
    (fileRecords (emitEvents env m i st events).1).filter (fun r => !r.IsName) =
      (eventRecords env m i st events).map Prod.snd := by
  induction events generalizing i st with
  | nil => rfl
  | cons e events ih =>
      have hnames : (rowNames st e).filter (fun r => !r.IsName) = [] :=
        List.filter_eq_nil_iff.mpr fun r hr => by simp [isName_of_mem_rowNames hr]
      have hown : (ownRecord? env m i st.cpuOnTime e).toList.filter (fun r => !r.IsName) =
          (ownRecord? env m i st.cpuOnTime e).toList :=
        List.filter_eq_self.mpr fun r hr => by
          simp [isName_of_ownRecord? (Option.mem_toList.mp hr)]
      rw [emitEvents]
      dsimp only
      rw [fileRecords_append, List.filter_append, ih, fileRecords_emitEvent, List.filter_append,
        hnames, hown, eventRecords, List.map_append, List.map_map]
      congr 1
      exact (List.map_id _).symm

/-- The records of a file are those its loop writes. -/
theorem fileRecords_traceFile (env : StackEnv) (events : List UnifiedEvent) :
    fileRecords (traceFile env events) =
      fileRecords (emitEvents env (minTimestamp events) 0 .init events).1 := by
  rw [traceFile, fileRecords_append, fileRecords_append]
  exact List.append_nil _

/-- **The records of the file** that do not name a row. -/
theorem filter_fileRecords_traceFile (env : StackEnv) (events : List UnifiedEvent) :
    (fileRecords (traceFile env events)).filter (fun r => !r.IsName) =
      (fileEventRecords env events).map Prod.snd := by
  rw [fileRecords_traceFile, fileRecords_emitEvents, fileEventRecords]

/-! ### Open spans -/

/-- The start of the span that is open after the marks of a thread id; `0` when none is. -/
def openSince (marks : List SwitchMark) : UInt64 :=
  match marks.getLast? with
  | some ⟨true, time⟩ => time
  | _ => 0

/-- The last mark decides since when a thread runs. -/
theorem openSince_concat (marks : List SwitchMark) (mark : SwitchMark) :
    openSince (marks ++ [mark]) = if mark.on then mark.time else 0 := by
  rw [openSince, List.getLast?_concat]
  obtain ⟨on, time⟩ := mark
  cases on <;> rfl

/-- What an event does to the open span of a thread id. -/
theorem cpuOnTime_emitEvent {tid : UInt32} (htid : tid < cpuOnTimeLen) (env : StackEnv)
    (m : UInt64) (i : ℕ) (st : EmitState) (e : UnifiedEvent) :
    (emitEvent env m i st e).2.cpuOnTime tid =
      (e.mark? tid).elim (st.cpuOnTime tid) fun mark => if mark.on then mark.time else 0 := by
  cases e with
  | gpu gpu => rfl
  | cpu cpu =>
      have hnames : (emitThreadNames st cpu).2.cpuOnTime = st.cpuOnTime := rfl
      have hstart : (if st.threadNameWritten then ([], st) else
          emitThreadNames st cpu).2.cpuOnTime = st.cpuOnTime := by
        split
        · rfl
        · exact hnames
      rw [emitEvent]
      dsimp only
      rw [← hstart, UnifiedEvent.mark?]
      generalize (if st.threadNameWritten then ([], st) else emitThreadNames st cpu).2 = st'
      rw [emitCpuEvent]
      dsimp only
      rcases eq_or_ne cpu.tid tid with rfl | hne
      · rcases em (cpu.eventType = cpuSchedOn) with hon | hon
        · rw [if_pos hon, CpuSchedEvent.mark?_on hon, if_pos htid]
          exact EmitState.cpuOnTime_setOnTime_self ..
        · rw [if_neg hon]
          rcases em (cpu.eventType = cpuSchedOff) with hoff | hoff
          · rw [if_pos hoff, CpuSchedEvent.mark?_off hoff]
            rcases eq_or_ne (st'.cpuOnTime cpu.tid) 0 with hz | hz
            · rw [if_neg fun h => h.2 hz]
              exact hz
            · rw [if_pos ⟨htid, hz⟩]
              exact EmitState.cpuOnTime_setOnTime_self ..
          · rw [if_neg hoff, CpuSchedEvent.mark?_other hon hoff]
            split <;> rfl
      · rw [CpuSchedEvent.mark?_of_ne hne]
        split
        · split
          · exact EmitState.cpuOnTime_setOnTime_ne _ _ hne.symm
          · rfl
        · split
          · split
            · exact EmitState.cpuOnTime_setOnTime_ne _ _ hne.symm
            · rfl
          · split <;> rfl

/-- **The open span of a thread id** starts at its last mark, if that is a switch-in. -/
theorem cpuOnTime_emitEvents {tid : UInt32} (htid : tid < cpuOnTimeLen) (env : StackEnv)
    (m : UInt64) (events : List UnifiedEvent) :
    (emitEvents env m 0 .init events).2.cpuOnTime tid =
      openSince (events.filterMap (UnifiedEvent.mark? tid)) := by
  induction events using List.reverseRecOn with
  | nil => rfl
  | append_singleton events e ih =>
      rw [emitEvents_append]
      dsimp only
      rw [emitEvents, emitEvents]
      dsimp only
      rw [cpuOnTime_emitEvent htid, ih, List.filterMap_append]
      cases hm : e.mark? tid with
      | none => rw [List.filterMap_cons_none hm, List.filterMap_nil, List.append_nil]; rfl
      | some mark =>
          rw [List.filterMap_cons_some hm, List.filterMap_nil, openSince_concat]
          rfl

/-! ### Which events have a record -/

/-- The CPU event gets a record: it is a switch-in or a wakeup, or it is a switch-out and the
last mark on its thread id before it is a switch-in at a time other than zero. -/
def HasRecord (events : List UnifiedEvent) (cpu : CpuSchedEvent) : Prop :=
  ∃ pre post, events = pre ++ .cpu cpu :: post ∧
    (cpu.eventType = cpuSchedOn ∨ cpu.eventType = cpuSchedWakeup ∨
      cpu.eventType = cpuSchedOff ∧
        openSince (pre.filterMap (UnifiedEvent.mark? cpu.tid)) ≠ 0)

/-- A switch-in and a wakeup have a record always, a switch-out only if the thread is running. -/
theorem cpuRecord?_isSome_iff {env : StackEnv} {m : UInt64} {i : ℕ} {start : UInt64}
    {cpu : CpuSchedEvent} (htid : cpu.tid < cpuOnTimeLen) :
    (cpuRecord? env m i start cpu).isSome ↔
      cpu.eventType = cpuSchedOn ∨ cpu.eventType = cpuSchedWakeup ∨
        cpu.eventType = cpuSchedOff ∧ start ≠ 0 := by
  rw [cpuRecord?]
  rcases em (cpu.eventType = cpuSchedOn) with hon | hon
  · rw [if_pos hon]
    exact iff_of_true rfl (.inl hon)
  · rw [if_neg hon]
    rcases em (cpu.eventType = cpuSchedOff) with hoff | hoff
    · have hwake : cpu.eventType ≠ cpuSchedWakeup := by
        rw [hoff]
        decide
      rw [if_pos hoff]
      split
      · rename_i h
        exact iff_of_true rfl (.inr (.inr ⟨hoff, h.2⟩))
      · rename_i h
        refine iff_of_false (by simp) ?_
        rintro (h' | h' | h')
        · exact hon h'
        · exact hwake h'
        · exact h ⟨htid, h'.2⟩
    · rw [if_neg hoff]
      split
      · rename_i h
        exact iff_of_true rfl (.inr (.inl h))
      · rename_i h
        refine iff_of_false (by simp) ?_
        rintro (h' | h' | h')
        · exact hon h'
        · exact h h'
        · exact hoff h'.1

/-- The fields of a CPU event's record that say where it is shown. -/
def Record.row : Record → UInt32 × UInt32
  | cpuThreadName pid tid _ => (pid, tid)
  | gpuThreadName pid tid => (pid, tid)
  | begin _ pid tid _ _ _ => (pid, tid)
  | finish _ pid tid _ _ => (pid, tid)
  | instant _ pid tid => (pid, tid)
  | complete r => (r.pid, r.tid)

/-- The record of a CPU event is on the row of its pid and thread id. -/
theorem row_of_cpuRecord? {env : StackEnv} {m : UInt64} {i : ℕ} {start : UInt64}
    {cpu : CpuSchedEvent} {r : Record} (h : cpuRecord? env m i start cpu = some r) :
    r.row = (cpu.pid, cpu.tid) := by
  obtain ⟨-, rfl⟩ | ⟨-, rfl⟩ | ⟨-, rfl⟩ := of_cpuRecord?_eq_some h
  · rfl
  · rfl
  · rfl

/-- **Which CPU events have a record.** -/
theorem exists_record_cpu_iff {env : StackEnv} {events : List UnifiedEvent}
    {cpu : CpuSchedEvent} (htid : cpu.tid < cpuOnTimeLen) :
    (∃ r, (.cpu cpu, r) ∈ fileEventRecords env events) ↔ HasRecord events cpu := by
  simp only [fileEventRecords, mem_eventRecords_iff, ownRecord?, cpuOnTime_emitEvents htid]
  rw [HasRecord, exists_comm]
  refine exists_congr fun pre => ?_
  rw [exists_comm]
  refine exists_congr fun post => ?_
  rw [exists_and_left, ← Option.isSome_iff_exists, cpuRecord?_isSome_iff htid]

/-- A CPU event's record is shown on the row of its own pid and tid. -/
theorem row_of_mem_cpu {env : StackEnv} {events : List UnifiedEvent} {cpu : CpuSchedEvent}
    {r : Record} (h : (.cpu cpu, r) ∈ fileEventRecords env events) :
    r.row = (cpu.pid, cpu.tid) := by
  rw [fileEventRecords, mem_eventRecords_iff] at h
  obtain ⟨pre, post, -, hr⟩ := h
  exact row_of_cpuRecord? hr

/-- Every CUDA event has a record. -/
theorem exists_record_gpu_iff {env : StackEnv} {events : List UnifiedEvent}
    {gpu : CudaEvent} :
    (∃ r, (.gpu gpu, r) ∈ fileEventRecords env events) ↔ .gpu gpu ∈ events := by
  simp only [fileEventRecords, mem_eventRecords_iff, ownRecord?]
  constructor
  · rintro ⟨r, pre, post, rfl, -⟩
    exact List.mem_append_right _ List.mem_cons_self
  · intro h
    obtain ⟨pre, post, rfl⟩ := List.append_of_mem h
    exact ⟨_, pre, post, rfl, rfl⟩

/-- What the record of a CUDA event says. -/
theorem record_of_mem_gpu {env : StackEnv} {events : List UnifiedEvent} {gpu : CudaEvent}
    {r : Record} (h : (.gpu gpu, r) ∈ fileEventRecords env events) :
    ∃ i, r = .complete (completeRecord env (minTimestamp events) i gpu) := by
  rw [fileEventRecords, mem_eventRecords_iff] at h
  obtain ⟨pre, post, -, hr⟩ := h
  exact ⟨_, (Option.some.inj hr).symm⟩

end UnifiedTrace
