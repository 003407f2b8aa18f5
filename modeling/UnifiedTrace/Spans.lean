import Mathlib.Data.List.Chain
import UnifiedTrace.ChromeTrace

/-!
# The On-CPU Spans of a Row

The output loop treats each thread id separately: which begin and end records a row gets is
decided by the switch-ins and switch-outs of its id alone, in the order of the sorted list.
`spansOf` is this row automaton; `rowSpans_traceFile` says that the file follows it.

## Main results

* `rowSpans_traceFile`: the row of a thread id in the file.
* `alternates_spansOf_iff`: begin and end records alternate exactly when no two consecutive
  marks are both switch-ins.
* `exists_finish_mem_spansOf_iff`: a switch-out gets an end record exactly when it directly
  follows a switch-in.
-/

namespace UnifiedTrace

/-! ### Rows -/

/-- A switch-in or switch-out of a thread. -/
structure SwitchMark where
  on : Bool
  time : UInt64
  deriving DecidableEq

/-- A begin or end record of a row. -/
inductive SpanRecord
  | b (ts : UInt64)
  | e (ts duration : UInt64)
  deriving DecidableEq

/-- The mark a CPU event makes on the row of a thread id. -/
def CpuSchedEvent.mark? (tid : UInt32) (e : CpuSchedEvent) : Option SwitchMark :=
  if e.tid ≠ tid then none
  else if e.eventType = cpuSchedOn then some ⟨true, e.timestamp⟩
  else if e.eventType = cpuSchedOff then some ⟨false, e.timestamp⟩
  else none

/-- The mark an event makes on the row of a thread id. -/
def UnifiedEvent.mark? (tid : UInt32) : UnifiedEvent → Option SwitchMark
  | cpu e => e.mark? tid
  | gpu _ => none

/-- The record as a begin or end record of the row of a thread id. -/
def Record.span? (tid : UInt32) : Record → Option SpanRecord
  | begin ts _ t _ _ _ => if t = tid then some (.b ts) else none
  | finish ts _ t dur _ => if t = tid then some (.e ts dur) else none
  | _ => none

/-- The begin and end records of a row, in file order. -/
def rowSpans (tid : UInt32) (file : List Piece) : List SpanRecord :=
  (fileRecords file).filterMap (Record.span? tid)

/-- The row automaton: its state is the start of the open span, `0` when none is open. -/
def spansOf (minTs : UInt64) : UInt64 → List SwitchMark → List SpanRecord
  | _, [] => []
  | _, ⟨true, t⟩ :: marks => .b (t - minTs) :: spansOf minTs t marks
  | start, ⟨false, t⟩ :: marks =>
      if start ≠ 0 then .e (t - minTs) (t - start) :: spansOf minTs 0 marks
      else spansOf minTs start marks

/-- Begin and end records alternate, starting with an end record if a span is open. -/
def AlternatesFrom : Bool → List SpanRecord → Prop
  | _, [] => True
  | false, .b _ :: row => AlternatesFrom true row
  | true, .e _ _ :: row => AlternatesFrom false row
  | _, _ => False

/-- Not both marks are switch-ins. -/
def NotBothOn (a b : SwitchMark) : Prop := a.on = true → b.on = false

instance (a b : SwitchMark) : Decidable (NotBothOn a b) :=
  inferInstanceAs (Decidable (_ → _))

/-- A switch-out at the time directly follows a switch-in. -/
def FollowsOn (time : UInt64) (marks : List SwitchMark) : Prop :=
  ∃ pre start post, marks = pre ++ ⟨true, start⟩ :: ⟨false, time⟩ :: post

/-! ### The file follows the automaton -/

/-- The spans of a row, part after part. -/
@[simp] theorem rowSpans_append (tid : UInt32) (file file' : List Piece) :
    rowSpans tid (file ++ file') = rowSpans tid file ++ rowSpans tid file' := by
  rw [rowSpans, fileRecords_append, List.filterMap_append]
  rfl

/-- A separator is on no row. -/
@[simp] theorem rowSpans_separator (tid : UInt32) (st : EmitState) :
    rowSpans tid st.separator = [] := by
  rw [EmitState.separator]
  split <;> rfl

variable {env : StackEnv} {minTs : UInt64} {i : ℕ} {st : EmitState} {tid : UInt32}

/-- Naming the rows is neither a begin nor an end. -/
theorem rowSpans_emitThreadNames (tid : UInt32) (st : EmitState) (cpu : CpuSchedEvent) :
    rowSpans tid (emitThreadNames st cpu).1 = [] ∧
      (emitThreadNames st cpu).2.cpuOnTime = st.cpuOnTime := by
  refine ⟨?_, rfl⟩
  rw [emitThreadNames, rowSpans_append, rowSpans_separator]
  rfl

/-- A CUDA event is neither a begin nor an end. -/
theorem rowSpans_emitGpuEvent (tid : UInt32) (env : StackEnv) (minTs : UInt64) (i : ℕ)
    (st : EmitState) (gpu : CudaEvent) :
    rowSpans tid (emitGpuEvent env minTs i st gpu).1 = [] ∧
      (emitGpuEvent env minTs i st gpu).2.cpuOnTime = st.cpuOnTime := by
  refine ⟨?_, rfl⟩
  rw [emitGpuEvent, rowSpans_append, rowSpans_separator]
  rfl

/-- A record gives its row one edge at most. -/
theorem rowSpans_separator_record (tid : UInt32) (st : EmitState) (r : Record) :
    rowSpans tid (st.separator ++ [.record r]) = (r.span? tid).toList := by
  rw [rowSpans_append, rowSpans_separator, List.nil_append]
  cases h : r.span? tid with
  | none => exact List.filterMap_cons_none h
  | some span => exact List.filterMap_cons_some h

/-- An event of another thread is no mark. -/
theorem CpuSchedEvent.mark?_of_ne {cpu : CpuSchedEvent} (h : cpu.tid ≠ tid) :
    cpu.mark? tid = none :=
  if_pos h

/-- A switch-in marks its time. -/
theorem CpuSchedEvent.mark?_on {cpu : CpuSchedEvent} (h : cpu.eventType = cpuSchedOn) :
    cpu.mark? cpu.tid = some ⟨true, cpu.timestamp⟩ := by
  rw [mark?, if_neg (not_not.mpr rfl), if_pos h]

/-- A switch-out marks its time. -/
theorem CpuSchedEvent.mark?_off {cpu : CpuSchedEvent} (h : cpu.eventType = cpuSchedOff) :
    cpu.mark? cpu.tid = some ⟨false, cpu.timestamp⟩ := by
  rw [mark?, if_neg (not_not.mpr rfl), if_neg (by rw [h]; decide), if_pos h]

/-- Other events are no marks. -/
theorem CpuSchedEvent.mark?_other {cpu : CpuSchedEvent} (hon : cpu.eventType ≠ cpuSchedOn)
    (hoff : cpu.eventType ≠ cpuSchedOff) : cpu.mark? tid = none := by
  rw [mark?, if_neg hon, if_neg hoff, ite_self]

/-- What a CPU event adds to a row, and the start time it leaves there. -/
theorem rowSpans_emitCpuEvent (htid : tid < cpuOnTimeLen) (cpu : CpuSchedEvent)
    (marks : List SwitchMark) :
    rowSpans tid (emitCpuEvent env minTs i st cpu).1 ++
        spansOf minTs ((emitCpuEvent env minTs i st cpu).2.cpuOnTime tid) marks =
      spansOf minTs (st.cpuOnTime tid) ((cpu.mark? tid).toList ++ marks) := by
  rcases eq_or_ne cpu.tid tid with rfl | hne
  · rcases em (cpu.eventType = cpuSchedOn) with hon | hon
    · rw [emitCpuEvent, if_pos hon, CpuSchedEvent.mark?_on hon]
      dsimp only
      rw [rowSpans_separator_record, EmitState.cpuOnTime_count, if_pos htid,
        EmitState.cpuOnTime_setOnTime_self, Record.span?, if_pos rfl]
      rfl
    · rcases em (cpu.eventType = cpuSchedOff) with hoff | hoff
      · rw [emitCpuEvent, if_neg hon, if_pos hoff, CpuSchedEvent.mark?_off hoff]
        dsimp only
        rcases eq_or_ne (st.cpuOnTime cpu.tid) 0 with hz | hz
        · rw [if_neg fun h => h.2 hz, hz]
          rfl
        · rw [if_pos ⟨htid, hz⟩]
          dsimp only
          rw [rowSpans_separator_record, EmitState.cpuOnTime_count,
            EmitState.cpuOnTime_setOnTime_self, Record.span?, if_pos rfl]
          exact (if_pos hz).symm
      · rw [CpuSchedEvent.mark?_other hon hoff, emitCpuEvent, if_neg hon, if_neg hoff]
        split
        · rw [rowSpans_separator_record]
          rfl
        · rfl
  · -- an event of another thread id
    rw [CpuSchedEvent.mark?_of_ne hne, emitCpuEvent]
    dsimp only
    split
    · rw [rowSpans_separator_record, Record.span?, if_neg hne, EmitState.cpuOnTime_count]
      split
      · rw [EmitState.cpuOnTime_setOnTime_ne _ _ hne.symm]
        rfl
      · rfl
    · split
      · split
        · rw [rowSpans_separator_record, Record.span?, if_neg hne, EmitState.cpuOnTime_count,
            EmitState.cpuOnTime_setOnTime_ne _ _ hne.symm]
          rfl
        · rfl
      · split
        · rw [rowSpans_separator_record]
          rfl
        · rfl

/-- What an event adds to a row, and the start time it leaves there. -/
theorem rowSpans_emitEvent (htid : tid < cpuOnTimeLen) (e : UnifiedEvent)
    (marks : List SwitchMark) :
    rowSpans tid (emitEvent env minTs i st e).1 ++
        spansOf minTs ((emitEvent env minTs i st e).2.cpuOnTime tid) marks =
      spansOf minTs (st.cpuOnTime tid) ((e.mark? tid).toList ++ marks) := by
  cases e with
  | gpu gpu =>
      obtain ⟨hspans, htime⟩ := rowSpans_emitGpuEvent tid env minTs i st gpu
      rw [emitEvent, hspans, htime]
      rfl
  | cpu cpu =>
      rw [emitEvent]
      dsimp only
      rw [rowSpans_append, List.append_assoc, rowSpans_emitCpuEvent htid]
      split
      · rfl
      · obtain ⟨hspans, htime⟩ := rowSpans_emitThreadNames tid st cpu
        rw [hspans, htime]
        rfl

/-- What the loop writes on a row. -/
theorem rowSpans_emitEvents (htid : tid < cpuOnTimeLen) (events : List UnifiedEvent) :
    rowSpans tid (emitEvents env minTs i st events).1 =
      spansOf minTs (st.cpuOnTime tid) (events.filterMap (UnifiedEvent.mark? tid)) := by
  induction events generalizing i st with
  | nil => rfl
  | cons e events ih =>
      rw [emitEvents]
      dsimp only
      rw [rowSpans_append, ih, rowSpans_emitEvent htid]
      cases hm : e.mark? tid with
      | none => rw [List.filterMap_cons_none hm]; rfl
      | some mark => rw [List.filterMap_cons_some hm]; rfl

/-- **The row of a thread id**: the automaton runs over its marks in the order of the list,
with no span open at the start. -/
theorem rowSpans_traceFile (htid : tid < cpuOnTimeLen) (env : StackEnv)
    (events : List UnifiedEvent) :
    rowSpans tid (traceFile env events) =
      spansOf (minTimestamp events) 0 (events.filterMap (UnifiedEvent.mark? tid)) := by
  rw [traceFile, rowSpans_append, rowSpans_append, rowSpans_emitEvents htid]
  exact List.append_nil _

/-! ### What the automaton writes -/

/-- With a span open at a non-zero start, a switch-out ends it. -/
theorem spansOf_off {minTs start : UInt64} (h : start ≠ 0) (t : UInt64)
    (marks : List SwitchMark) :
    spansOf minTs start (⟨false, t⟩ :: marks) =
      .e (t - minTs) (t - start) :: spansOf minTs 0 marks :=
  if_pos h

/-- With no span open, a switch-out is ignored. -/
theorem spansOf_off_zero (minTs t : UInt64) (marks : List SwitchMark) :
    spansOf minTs 0 (⟨false, t⟩ :: marks) = spansOf minTs 0 marks :=
  if_neg (not_not.mpr rfl)

/-- **When a row alternates**: no two consecutive marks are both switch-ins, and the first is
none if a span is open. -/
theorem alternates_spansOf_iff (minTs start : UInt64) {marks : List SwitchMark}
    (hpos : ∀ k ∈ marks, k.time ≠ 0) :
    AlternatesFrom (decide (start ≠ 0)) (spansOf minTs start marks) ↔
      (start ≠ 0 → ∀ k ∈ marks.head?, k.on = false) ∧ marks.IsChain NotBothOn := by
  induction marks generalizing start with
  | nil => simp [spansOf, AlternatesFrom]
  | cons mark marks ih =>
      obtain ⟨on, t⟩ := mark
      obtain ⟨ht, hpos'⟩ := List.forall_mem_cons.mp hpos
      rw [List.isChain_cons]
      cases on with
      | true =>
          rcases eq_or_ne start 0 with rfl | hs
          · have hrec := ih t hpos'
            rw [decide_eq_true ht, forall_prop_of_true ht] at hrec
            refine hrec.trans ?_
            simp [NotBothOn]
          · rw [decide_eq_true hs]
            refine iff_of_false (fun h => h) ?_
            rintro ⟨h, -⟩
            exact absurd (h hs _ rfl) (by simp)
      | false =>
          have hrec := ih 0 hpos'
          rcases eq_or_ne start 0 with rfl | hs
          · rw [spansOf_off_zero, hrec]
            simp [NotBothOn]
          · rw [spansOf_off hs, decide_eq_true hs]
            refine hrec.trans ?_
            simp [NotBothOn]

/-- A switch-out follows a switch-in either directly at the front or further on. -/
theorem followsOn_cons_iff {time : UInt64} {mark : SwitchMark} {marks : List SwitchMark} :
    FollowsOn time (mark :: marks) ↔
      (mark.on = true ∧ marks.head? = some ⟨false, time⟩) ∨ FollowsOn time marks := by
  constructor
  · rintro ⟨pre, s, post, h⟩
    cases pre with
    | nil =>
        obtain ⟨rfl, rfl⟩ := List.cons.inj h
        exact .inl ⟨rfl, rfl⟩
    | cons first pre => exact .inr ⟨pre, s, post, (List.cons.inj h).2⟩
  · rintro (⟨hon, hhead⟩ | ⟨pre, s, post, rfl⟩)
    · obtain ⟨rest, rfl⟩ := List.head?_eq_some_iff.mp hhead
      obtain ⟨on, s⟩ := mark
      obtain rfl : on = true := hon
      exact ⟨[], s, rest, rfl⟩
    · exact ⟨mark :: pre, s, post, rfl⟩

/-- **When a switch-out is ended**: it gets an end record exactly when it directly follows a
switch-in, or comes first while a span is open. -/
theorem exists_finish_mem_spansOf_iff (minTs start time : UInt64) {marks : List SwitchMark}
    (hpos : ∀ k ∈ marks, k.time ≠ 0) :
    (∃ dur, .e (time - minTs) dur ∈ spansOf minTs start marks) ↔
      (start ≠ 0 ∧ marks.head? = some ⟨false, time⟩) ∨ FollowsOn time marks := by
  induction marks generalizing start with
  | nil =>
      refine iff_of_false (fun ⟨_, h⟩ => absurd h List.not_mem_nil) ?_
      rintro (⟨-, h⟩ | ⟨pre, s, post, h⟩)
      · exact absurd h (by simp)
      · exact absurd h (by simp)
  | cons mark marks ih =>
      obtain ⟨on, t⟩ := mark
      obtain ⟨ht, hpos'⟩ := List.forall_mem_cons.mp hpos
      rw [followsOn_cons_iff, List.head?_cons]
      cases on with
      | true =>
          have hrec := ih t hpos'
          simp only [spansOf, List.mem_cons, reduceCtorEq, false_or, hrec]
          simp [ht]
      | false =>
          have hrec := ih 0 hpos'
          simp only [ne_eq, not_true_eq_false, false_and, false_or] at hrec
          rcases eq_or_ne start 0 with rfl | hs
          · rw [spansOf_off_zero, hrec]
            simp
          · rw [spansOf_off hs]
            simp only [List.mem_cons, exists_or, hrec]
            simp [hs, eq_comm]

end UnifiedTrace
