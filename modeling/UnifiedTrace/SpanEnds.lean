import Mathlib.Data.List.Nodup
import Mathlib.Data.List.Perm.Subperm
import UnifiedTrace.EventRecords

/-!
# Which Begin an End Closes

A viewer matches the begin and end records of a row as brackets: an end closes the begin that
was opened last. `cpu_on_time` holds one start time for each thread id, so the writer has to
agree with the viewer about which begin that is, whatever switch-ins and switch-outs are
missing or repeated.

The records are taken round by round of the output loop, that is, by the position of their
event in the sorted list.

## Main results

* `fileRecords_traceFile_eq_rounds`: the records of the file are those of the rounds, in order.
* `yieldsEnd_iff`, `YieldsEnd.closesSpan`: which switch-outs get an end record, and what it
  closes.
* `ends_close_latest_begins`: both, for every sorted list of events.
-/

namespace UnifiedTrace

/-! ### Rounds -/

/-- The records written in the round of the event at position `i`. -/
def roundRecords (env : StackEnv) (events : List UnifiedEvent) (i : ℕ) : List Record :=
  match events[i]? with
  | none => []
  | some e =>
      fileRecords (emitEvent env (minTimestamp events) i
        (emitEvents env (minTimestamp events) 0 .init (events.take i)).2 e).1

/-- The event at position `i` yields an end record. -/
def YieldsEnd (env : StackEnv) (events : List UnifiedEvent) (i : ℕ) : Prop :=
  ∃ ts pid tid dur state, Record.finish ts pid tid dur state ∈ roundRecords env events i

/-- The event at position `i` is a switch-in of the thread id. -/
def SwitchesIn (events : List UnifiedEvent) (tid : UInt32) (i : ℕ) (cpu : CpuSchedEvent) :
    Prop :=
  events[i]? = some (.cpu cpu) ∧ cpu.eventType = cpuSchedOn ∧ cpu.tid = tid

/-- The event at position `i` is a switch-out of the thread id. -/
def SwitchesOut (events : List UnifiedEvent) (tid : UInt32) (i : ℕ) (cpu : CpuSchedEvent) :
    Prop :=
  events[i]? = some (.cpu cpu) ∧ cpu.eventType = cpuSchedOff ∧ cpu.tid = tid

/-! ### Brackets -/

/-- Whether the record begins (`true`) or ends a span on the row. -/
def Record.edge? (row : UInt32 × UInt32) : Record → Option Bool
  | begin _ pid tid _ _ _ => if (pid, tid) = row then some true else none
  | finish _ pid tid _ _ => if (pid, tid) = row then some false else none
  | _ => none

/-- The begins and ends on the row in the rounds before `n`, each with its position. -/
def rowEdges (env : StackEnv) (events : List UnifiedEvent) (row : UInt32 × UInt32) (n : ℕ) :
    List (ℕ × Bool) :=
  (List.range n).flatMap fun i =>
    ((roundRecords env events i).filterMap (Record.edge? row)).map (Prod.mk i)

/-- The pairs of a begin and the end that closes it, where `opened` are the begins that are
open, the last one first. -/
def closings : List ℕ → List (ℕ × Bool) → List (ℕ × ℕ)
  | _, [] => []
  | opened, (i, true) :: edges => closings (i :: opened) edges
  | [], (_, false) :: edges => closings [] edges
  | j :: opened, (i, false) :: edges => (j, i) :: closings opened edges

/-- The begins that are open after some edges. -/
def openedBy : List ℕ → List (ℕ × Bool) → List ℕ
  | opened, [] => opened
  | opened, (i, true) :: edges => openedBy (i :: opened) edges
  | opened, (_, false) :: edges => openedBy opened.tail edges

/-- The second part of a row closes what the first left open. -/
theorem closings_append (opened : List ℕ) (edges edges' : List (ℕ × Bool)) :
    closings opened (edges ++ edges') =
      closings opened edges ++ closings (openedBy opened edges) edges' := by
  induction edges generalizing opened with
  | nil => rfl
  | cons edge edges ih =>
      obtain ⟨i, b⟩ := edge
      cases b with
      | true => exact ih (i :: opened)
      | false =>
          cases opened with
          | nil => exact ih []
          | cons j opened => exact congrArg ((j, i) :: ·) (ih opened)

/-- What is open after both parts. -/
theorem openedBy_append (opened : List ℕ) (edges edges' : List (ℕ × Bool)) :
    openedBy opened (edges ++ edges') = openedBy (openedBy opened edges) edges' := by
  induction edges generalizing opened with
  | nil => rfl
  | cons edge edges ih =>
      obtain ⟨i, b⟩ := edge
      cases b with
      | true => exact ih (i :: opened)
      | false => exact ih opened.tail

/-- What is closed was open before or is begun meanwhile. -/
theorem closings_subperm (opened : List ℕ) (edges : List (ℕ × Bool)) :
    ((closings opened edges).map Prod.fst).Subperm (opened ++ edges.map Prod.fst) := by
  induction edges generalizing opened with
  | nil => exact List.nil_subperm
  | cons edge edges ih =>
      obtain ⟨i, b⟩ := edge
      cases b with
      | true => exact (ih (i :: opened)).trans (List.perm_middle.symm.subperm)
      | false =>
          have hskip : ∀ l : List ℕ, (l ++ edges.map Prod.fst).Subperm
              (l ++ i :: edges.map Prod.fst) := fun l =>
            ((List.Sublist.refl l).append (List.sublist_cons_self i _)).subperm
          cases opened with
          | nil => exact (ih []).trans (hskip [])
          | cons j opened => exact (List.subperm_cons j).mpr ((ih opened).trans (hskip opened))

/-- **No begin is closed twice**, when every position has at most one edge. -/
theorem closings_unique {edges : List (ℕ × Bool)} (h : (edges.map Prod.fst).Nodup) {j i i' : ℕ}
    (hi : (j, i) ∈ closings [] edges) (hi' : (j, i') ∈ closings [] edges) : i' = i := by
  obtain ⟨l, hperm, hsub⟩ := closings_subperm [] edges
  have hnodup : ((closings [] edges).map Prod.fst).Nodup := hperm.nodup_iff.mp (h.sublist hsub)
  exact (Prod.mk.inj (List.inj_on_of_nodup_map hnodup hi' hi rfl)).2

/-! ### The marks of a thread id -/

/-- The mark that the event at position `i` makes on the row of a thread id. -/
def markAt (events : List UnifiedEvent) (tid : UInt32) (i : ℕ) : Option SwitchMark :=
  events[i]?.bind (UnifiedEvent.mark? tid)

/-- The start of the span that is open on a thread id before round `i`. -/
def openAt (events : List UnifiedEvent) (tid : UInt32) (i : ℕ) : UInt64 :=
  openSince ((events.take i).filterMap (UnifiedEvent.mark? tid))

variable {env : StackEnv} {events : List UnifiedEvent} {tid : UInt32} {i j : ℕ}
  {cpu : CpuSchedEvent}

/-- A mark is made by a switch-in or a switch-out. -/
theorem of_markAt_eq_some {mark : SwitchMark} (h : markAt events tid i = some mark) :
    (∃ cpu, SwitchesIn events tid i cpu ∧ mark = ⟨true, cpu.timestamp⟩) ∨
      ∃ cpu, SwitchesOut events tid i cpu ∧ mark = ⟨false, cpu.timestamp⟩ := by
  obtain ⟨e, he, hmark⟩ := Option.bind_eq_some_iff.mp h
  cases e with
  | gpu gpu => exact absurd hmark (by simp [UnifiedEvent.mark?])
  | cpu cpu =>
      rw [UnifiedEvent.mark?, CpuSchedEvent.mark?] at hmark
      split_ifs at hmark with htid hon hoff
      · exact .inl ⟨cpu, ⟨he, hon, not_not.mp htid⟩, (Option.some.inj hmark).symm⟩
      · exact .inr ⟨cpu, ⟨he, hoff, not_not.mp htid⟩, (Option.some.inj hmark).symm⟩

/-- A round that switches the thread in is a mark. -/
theorem SwitchesIn.markAt_eq (h : SwitchesIn events tid i cpu) :
    markAt events tid i = some ⟨true, cpu.timestamp⟩ := by
  obtain ⟨he, hon, rfl⟩ := h
  rw [markAt, he]
  exact CpuSchedEvent.mark?_on hon

/-- A round that switches the thread out is a mark. -/
theorem SwitchesOut.markAt_eq (h : SwitchesOut events tid i cpu) :
    markAt events tid i = some ⟨false, cpu.timestamp⟩ := by
  obtain ⟨he, hoff, rfl⟩ := h
  rw [markAt, he]
  exact CpuSchedEvent.mark?_off hoff

/-- What a round does to the open span. -/
theorem openAt_succ (events : List UnifiedEvent) (tid : UInt32) (i : ℕ) :
    openAt events tid (i + 1) = (markAt events tid i).elim (openAt events tid i) fun mark =>
      if mark.on then mark.time else 0 := by
  rw [openAt, List.take_add_one, List.filterMap_append, markAt, openAt]
  cases events[i]? with
  | none => rw [Option.toList_none, List.filterMap_nil, List.append_nil]; rfl
  | some e =>
      rw [Option.toList_some, Option.bind_some]
      cases hmark : e.mark? tid with
      | none => rw [List.filterMap_cons_none hmark, List.filterMap_nil, List.append_nil]; rfl
      | some mark =>
          rw [List.filterMap_cons_some hmark, List.filterMap_nil, openSince_concat]
          rfl

/-! ### What a round writes -/

/-- The round of a CPU event. -/
theorem roundRecords_cpu (he : events[i]? = some (.cpu cpu)) (htid : cpu.tid < cpuOnTimeLen) :
    roundRecords env events i =
      rowNames (emitEvents env (minTimestamp events) 0 .init (events.take i)).2 (.cpu cpu) ++
        (cpuRecord? env (minTimestamp events) i (openAt events cpu.tid i) cpu).toList := by
  rw [roundRecords, he]
  dsimp only
  rw [fileRecords_emitEvent, ownRecord?, cpuOnTime_emitEvents htid, openAt]

/-- The records of the file are those of the rounds, in order. -/
theorem fileRecords_traceFile_eq_rounds (env : StackEnv) (events : List UnifiedEvent) :
    fileRecords (traceFile env events) =
      (List.range events.length).flatMap (roundRecords env events) := by
  have hrounds : ∀ n ≤ events.length,
      fileRecords (emitEvents env (minTimestamp events) 0 .init (events.take n)).1 =
        (List.range n).flatMap (roundRecords env events) := by
    intro n hn
    induction n with
    | zero => rfl
    | succ n ih =>
        have hround : events[n]? = some events[n] := List.getElem?_eq_getElem hn
        rw [List.take_add_one, hround, Option.toList_some, emitEvents_append]
        dsimp only
        rw [fileRecords_append, ih (by omega), List.range_succ, List.flatMap_append,
          List.flatMap_singleton, roundRecords, hround, List.length_take,
          Nat.min_eq_left (by omega), Nat.zero_add, emitEvents]
        dsimp only
        rw [emitEvents, List.append_nil]
  rw [fileRecords_traceFile, ← hrounds _ (Nat.le_refl _), List.take_length]

/-- The sorted events of a run: switch-ins have a time, and the CPU events carry the thread id
twice, as the scheduler tracer writes them. -/
structure SchedEvents (events : List UnifiedEvent) : Prop where
  sorted : events.Pairwise fun a b => a.timestamp ≤ b.timestamp
  on_ne_zero : ∀ cpu, .cpu cpu ∈ events → cpu.eventType = cpuSchedOn → cpu.timestamp ≠ 0
  tid_lt : ∀ cpu, .cpu cpu ∈ events → cpu.tid < cpuOnTimeLen
  pid_eq : ∀ cpu, .cpu cpu ∈ events → cpu.pid = cpu.tid

/-- A record of a CPU event's round that does not name a row is the event's own. -/
theorem mem_roundRecords_cpu_iff (h : SchedEvents events) (he : events[i]? = some (.cpu cpu))
    {r : Record} (hr : r.IsName = false) :
    r ∈ roundRecords env events i ↔
      cpuRecord? env (minTimestamp events) i (openAt events cpu.tid i) cpu = some r := by
  rw [roundRecords_cpu he (h.tid_lt cpu (List.mem_of_getElem? he)), List.mem_append,
    Option.mem_toList]
  refine or_iff_right fun hname => ?_
  exact absurd (hr.symm.trans (isName_of_mem_rowNames hname)) (by decide)

/-- The record of a switch-in. -/
theorem cpuRecord?_on (m start : UInt64) (hon : cpu.eventType = cpuSchedOn) :
    cpuRecord? env m i start cpu =
      some (.begin (cpu.timestamp - m) cpu.pid cpu.tid cpu.cpu cpu.comm
        (stackOf env i cpu.stackId cpu.pid)) :=
  if_pos hon

/-- The record of a switch-out. -/
theorem cpuRecord?_off (m start : UInt64) (hoff : cpu.eventType = cpuSchedOff)
    (htid : cpu.tid < cpuOnTimeLen) :
    cpuRecord? env m i start cpu =
      if start ≠ 0 then
        some (.finish (cpu.timestamp - m) cpu.pid cpu.tid (cpu.timestamp - start) cpu.prevState)
      else none := by
  rw [cpuRecord?, if_neg (by rw [hoff]; decide), if_pos hoff]
  exact if_congr (and_iff_right htid) rfl rfl

/-- **Which switch-outs get an end record**: those with a span open. -/
theorem yieldsEnd_iff (h : SchedEvents events) (hout : SwitchesOut events tid i cpu) :
    YieldsEnd env events i ↔ openAt events tid i ≠ 0 := by
  obtain ⟨he, hoff, rfl⟩ := hout
  have hrecord := @cpuRecord?_off env i cpu (minTimestamp events) (openAt events cpu.tid i) hoff
    (h.tid_lt cpu (List.mem_of_getElem? he))
  constructor
  · rintro ⟨ts, pid, tid, dur, state, hr⟩ hzero
    rw [mem_roundRecords_cpu_iff h he rfl, hrecord, if_neg (not_not.mpr hzero)] at hr
    exact absurd hr (by simp)
  · intro hopen
    rw [if_pos hopen] at hrecord
    exact ⟨_, _, _, _, _, (mem_roundRecords_cpu_iff h he rfl).mpr hrecord⟩

/-- The begin or end that a round adds to the row of a thread id. -/
theorem filterMap_edge?_roundRecords (h : SchedEvents events) (env : StackEnv) (tid : UInt32)
    (i : ℕ) :
    (roundRecords env events i).filterMap (Record.edge? (tid, tid)) =
      (markAt events tid i).elim [] fun mark =>
        if mark.on then [true] else if openAt events tid i ≠ 0 then [false] else [] := by
  cases he : events[i]? with
  | none => rw [roundRecords, markAt, he]; rfl
  | some e =>
      cases e with
      | gpu gpu =>
          rw [roundRecords, markAt, he]
          dsimp only
          rw [fileRecords_emitEvent]
          rfl
      | cpu cpu =>
          have hmem : .cpu cpu ∈ events := List.mem_of_getElem? he
          have hpid := h.pid_eq cpu hmem
          have htid := h.tid_lt cpu hmem
          have hnames : ∀ st, (rowNames st (.cpu cpu)).filterMap (Record.edge? (tid, tid)) =
              [] := by
            intro st
            rw [rowNames]
            split <;> rfl
          rw [roundRecords_cpu he htid, List.filterMap_append, hnames, List.nil_append, markAt,
            he, Option.bind_some, UnifiedEvent.mark?]
          generalize hm : minTimestamp events = m
          generalize hstart : openAt events cpu.tid i = start
          rcases eq_or_ne cpu.tid tid with rfl | hne
          · rw [hstart]
            rcases em (cpu.eventType = cpuSchedOn) with hon | hon
            · rw [CpuSchedEvent.mark?_on hon, cpuRecord?_on m start hon]
              simp [Record.edge?, hpid]
            · rcases em (cpu.eventType = cpuSchedOff) with hoff | hoff
              · rw [CpuSchedEvent.mark?_off hoff, cpuRecord?_off m start hoff htid]
                rcases eq_or_ne start 0 with hzero | hopen
                · simp [hzero]
                · simp [Record.edge?, hpid, hopen]
              · rw [CpuSchedEvent.mark?_other hon hoff]
                cases hr : cpuRecord? env m i start cpu with
                | none => rfl
                | some r =>
                    obtain ⟨hon', -⟩ | ⟨hoff', -⟩ | ⟨-, rfl⟩ := of_cpuRecord?_eq_some hr
                    · exact absurd hon' hon
                    · exact absurd hoff' hoff
                    · rfl
          · rw [CpuSchedEvent.mark?_of_ne hne]
            cases hr : cpuRecord? env m i start cpu with
            | none => rfl
            | some r =>
                obtain ⟨-, rfl⟩ | ⟨-, rfl⟩ | ⟨-, rfl⟩ := of_cpuRecord?_eq_some hr
                · simp [Record.edge?, hne]
                · simp [Record.edge?, hne]
                · rfl

/-! ### The last mark -/

/-- A round adds the edges of its records. -/
theorem rowEdges_succ (row : UInt32 × UInt32) (n : ℕ) :
    rowEdges env events row (n + 1) = rowEdges env events row n ++
      ((roundRecords env events n).filterMap (Record.edge? row)).map (Prod.mk n) := by
  rw [rowEdges, List.range_succ, List.flatMap_append, List.flatMap_singleton, rowEdges]

/-- **The open span** is that of the last mark, a switch-in, and its begin is the last one that
is open on the row. -/
theorem exists_latest (h : SchedEvents events) (env : StackEnv) (hopen : openAt events tid i ≠ 0) :
    ∃ j < i, ∃ cpu, SwitchesIn events tid j cpu ∧ openAt events tid i = cpu.timestamp ∧
      (∀ k, j < k → k < i → markAt events tid k = none) ∧
      ∃ opened, openedBy [] (rowEdges env events (tid, tid) i) = j :: opened := by
  induction i with
  | zero => exact absurd rfl hopen
  | succ i ih =>
      rw [openAt_succ] at hopen ⊢
      rw [rowEdges_succ, openedBy_append, filterMap_edge?_roundRecords h]
      cases hmark : markAt events tid i with
      | none =>
          rw [hmark] at hopen
          obtain ⟨j, hj, cpu, hin, htime, hnone, hopened⟩ := ih hopen
          refine ⟨j, by omega, cpu, hin, htime, fun k hk hki => ?_, hopened⟩
          rcases Nat.lt_or_ge k i with hlt | hge
          · exact hnone k hk hlt
          · obtain rfl : k = i := by omega
            exact hmark
      | some mark =>
          rw [hmark] at hopen
          rcases of_markAt_eq_some hmark with ⟨cpu, hin, rfl⟩ | ⟨cpu, -, rfl⟩
          · refine ⟨i, Nat.lt_succ_self i, cpu, hin, rfl, fun k hk hki => ?_, _, rfl⟩
            exact absurd hki (by omega)
          · exact absurd rfl hopen

/-- After a switch-in its span stays open until a switch-out yields an end. -/
theorem open_or_ended (h : SchedEvents events) (env : StackEnv)
    (hin : SwitchesIn events tid j cpu) (hlt : j < i) :
    openAt events tid i ≠ 0 ∨
      ∃ k off, j < k ∧ k < i ∧ SwitchesOut events tid k off ∧ YieldsEnd env events k := by
  have hcpu : ∀ k e, SwitchesIn events tid k e → e.timestamp ≠ 0 := fun k e hk =>
    h.on_ne_zero e (List.mem_of_getElem? hk.1) hk.2.1
  induction i, hlt using Nat.le_induction with
  | base =>
      rw [openAt_succ, hin.markAt_eq]
      exact .inl (hcpu j cpu hin)
  | succ i hi ih =>
      rcases ih with hopen | ⟨k, off, hjk, hki, hout, hend⟩
      · rw [openAt_succ]
        cases hmark : markAt events tid i with
        | none => exact .inl hopen
        | some mark =>
            rcases of_markAt_eq_some hmark with ⟨e, hin', rfl⟩ | ⟨e, hout, rfl⟩
            · exact .inl (hcpu i e hin')
            · exact .inr ⟨i, e, hi, Nat.lt_succ_self i, hout, (yieldsEnd_iff h hout).mpr hopen⟩
      · exact .inr ⟨k, off, hjk, by omega, hout, hend⟩

/-! ### Begins and ends -/

/-- The end record of the switch-out at position `i` closes the begin record of the switch-in
at position `j`. -/
structure ClosesSpan (env : StackEnv) (events : List UnifiedEvent) (j i : ℕ)
    (on off : CpuSchedEvent) : Prop where
  before : j < i
  switchesIn : SwitchesIn events off.tid j on
  /-- It is the latest switch-in. -/
  latest : ∀ k cpu, j < k → k < i → ¬ SwitchesIn events off.tid k cpu
  /-- The record of the switch-out. -/
  finish_mem : .finish (off.timestamp - minTimestamp events) off.pid off.tid
    (off.timestamp - on.timestamp) off.prevState ∈ roundRecords env events i
  /-- The duration does not wrap around. -/
  duration : (off.timestamp - on.timestamp).toNat + on.timestamp.toNat = off.timestamp.toNat
  /-- The record of the switch-in, on the same row. -/
  begin_mem : ∃ stack, .begin (on.timestamp - minTimestamp events) off.pid off.tid on.cpu on.comm
    stack ∈ roundRecords env events j
  /-- It is the most recent begin of the row. -/
  last_begin : ∀ k, j < k → k < i → ∀ r ∈ roundRecords env events k,
    r.edge? (off.pid, off.tid) ≠ some true
  /-- The end closes it. -/
  closes : (j, i) ∈ closings [] (rowEdges env events (off.pid, off.tid) events.length)
  /-- No other end does. -/
  only : ∀ i', (j, i') ∈ closings [] (rowEdges env events (off.pid, off.tid) events.length) →
    i' = i

/-- Each round has at most one edge of the row, and its own position. -/
theorem nodup_rowEdges (h : SchedEvents events) (env : StackEnv) (tid : UInt32) (n : ℕ) :
    (∀ edge ∈ rowEdges env events (tid, tid) n, edge.1 < n) ∧
      ((rowEdges env events (tid, tid) n).map Prod.fst).Nodup := by
  induction n with
  | zero => exact ⟨fun _ h => absurd h List.not_mem_nil, List.nodup_nil⟩
  | succ n ih =>
      obtain ⟨hlt, hnodup⟩ := ih
      rw [rowEdges_succ, filterMap_edge?_roundRecords h]
      generalize hround : (markAt events tid n).elim [] _ = round
      have hone : round = [] ∨ ∃ b, round = [b] := by
        rw [← hround]
        cases markAt events tid n with
        | none => exact .inl rfl
        | some mark =>
            rw [Option.elim_some]
            split_ifs
            · exact .inr ⟨true, rfl⟩
            · exact .inr ⟨false, rfl⟩
            · exact .inl rfl
      rcases hone with rfl | ⟨b, rfl⟩
      · rw [List.map_nil, List.append_nil]
        exact ⟨fun edge hedge => Nat.lt_succ_of_lt (hlt edge hedge), hnodup⟩
      · rw [List.map_singleton, List.map_append, List.map_singleton]
        refine ⟨List.forall_mem_append.mpr ⟨fun edge hedge => Nat.lt_succ_of_lt (hlt edge hedge),
          List.forall_mem_singleton.mpr (Nat.lt_succ_self n)⟩, ?_⟩
        refine List.nodup_append.mpr ⟨hnodup, List.nodup_singleton n, fun a ha b hb => ?_⟩
        obtain ⟨edge, hedge, rfl⟩ := List.mem_map.mp ha
        rw [List.mem_singleton.mp hb]
        exact (hlt edge hedge).ne

/-- Later rounds only append to a row. -/
theorem rowEdges_prefix (env : StackEnv) (events : List UnifiedEvent) (row : UInt32 × UInt32)
    {m n : ℕ} (h : m ≤ n) : rowEdges env events row m <+: rowEdges env events row n := by
  induction n, h using Nat.le_induction with
  | base => exact List.prefix_rfl
  | succ n _ ih =>
      rw [rowEdges_succ]
      exact ih.trans (List.prefix_append ..)

/-- **What an end record closes**: the begin record of the latest switch-in of its thread. -/
theorem YieldsEnd.closesSpan (h : SchedEvents events) {off : CpuSchedEvent}
    (hout : SwitchesOut events off.tid i off) (hend : YieldsEnd env events i) :
    ∃ j on, ClosesSpan env events j i on off := by
  have hopen := (yieldsEnd_iff h hout).mp hend
  obtain ⟨j, hj, on, hin, htime, hnone, opened, hopened⟩ := exists_latest h env hopen
  obtain ⟨he, hoff, -⟩ := hout
  have hoffmem : .cpu off ∈ events := List.mem_of_getElem? he
  have honmem : .cpu on ∈ events := List.mem_of_getElem? hin.1
  have hpid : off.pid = off.tid := h.pid_eq off hoffmem
  have honpid : on.pid = off.tid := (h.pid_eq on honmem).trans hin.2.2
  have hlen : i < events.length := (List.getElem?_eq_some_iff.mp he).1
  -- the list is sorted
  have hle : on.timestamp ≤ off.timestamp := by
    have hsorted := List.pairwise_iff_getElem.mp h.sorted j i (hj.trans hlen) hlen hj
    rwa [(List.getElem?_eq_some_iff.mp hin.1).2, (List.getElem?_eq_some_iff.mp he).2] at hsorted
  have hround : (roundRecords env events i).filterMap (Record.edge? (off.tid, off.tid)) =
      [false] := by
    rw [filterMap_edge?_roundRecords h, SwitchesOut.markAt_eq ⟨he, hoff, rfl⟩]
    exact if_pos hopen
  have hedges : rowEdges env events (off.tid, off.tid) (i + 1) =
      rowEdges env events (off.tid, off.tid) i ++ [(i, false)] := by
    rw [rowEdges_succ, hround]
    rfl
  have hcloses : (j, i) ∈ closings [] (rowEdges env events (off.pid, off.tid) events.length) := by
    obtain ⟨rest, hrest⟩ := rowEdges_prefix env events (off.tid, off.tid)
      (Nat.succ_le_of_lt hlen)
    rw [hpid, ← hrest, Nat.succ_eq_add_one, hedges, closings_append, closings_append, hopened]
    exact List.mem_append_left _ (List.mem_append_right _ List.mem_cons_self)
  refine ⟨j, on, hj, hin, fun k cpu hk hki hcpu => ?_, ?_, ?_, ?_, fun k hk hki r hr hedge => ?_,
    hcloses, fun i' hi' => ?_⟩
  · have hmark := hnone k hk hki
    rw [hcpu.markAt_eq] at hmark
    exact absurd hmark (by simp)
  · rw [mem_roundRecords_cpu_iff h he rfl,
      cpuRecord?_off _ _ hoff (h.tid_lt off hoffmem), if_pos hopen, htime]
  · rw [UInt64.toNat_sub_of_le _ _ hle]
    exact Nat.sub_add_cancel (UInt64.le_iff_toNat_le.mp hle)
  · refine ⟨stackOf env j on.stackId on.pid, (mem_roundRecords_cpu_iff h hin.1 rfl).mpr ?_⟩
    rw [cpuRecord?_on _ _ hin.2.1, honpid, hin.2.2, hpid]
  · -- a begin on the row would be a mark
    have hmem : true ∈ (roundRecords env events k).filterMap
        (Record.edge? (off.tid, off.tid)) :=
      List.mem_filterMap.mpr ⟨r, hr, hpid ▸ hedge⟩
    rw [filterMap_edge?_roundRecords h, hnone k hk hki] at hmem
    exact absurd hmem List.not_mem_nil
  · rw [hpid] at hcloses hi'
    exact closings_unique (nodup_rowEdges h env off.tid _).2 hcloses hi'

/-- **Every end closes the right begin.** In a sorted list of events a switch-out yields an end
record exactly when a switch-in of its thread comes after the last switch-out of the thread
that yielded one; the record then closes the begin of the latest switch-in, on its row and
with the time between the two as duration. -/
theorem ends_close_latest_begins (h : SchedEvents events) (env : StackEnv) {off : CpuSchedEvent}
    (hout : SwitchesOut events off.tid i off) :
    (YieldsEnd env events i ↔
      ∃ j on, j < i ∧ SwitchesIn events off.tid j on ∧
        ∀ k off', k < i → SwitchesOut events off.tid k off' → YieldsEnd env events k → k < j) ∧
    (YieldsEnd env events i → ∃ j on, ClosesSpan env events j i on off) := by
  refine ⟨⟨fun hend => ?_, ?_⟩, fun hend => hend.closesSpan h hout⟩
  · obtain ⟨j, hj, on, hin, -, hnone, -⟩ := exists_latest h env ((yieldsEnd_iff h hout).mp hend)
    refine ⟨j, on, hj, hin, fun k off' hk hout' _ => ?_⟩
    rcases Nat.lt_trichotomy k j with hlt | rfl | hgt
    · exact hlt
    · have hmark := hin.markAt_eq.symm.trans hout'.markAt_eq
      exact absurd (Option.some.inj hmark) (by simp)
    · have hmark := hnone k hgt hk
      rw [hout'.markAt_eq] at hmark
      exact absurd hmark (by simp)
  · rintro ⟨j, on, hj, hin, hlast⟩
    rw [yieldsEnd_iff h hout]
    rcases open_or_ended h env hin hj with hopen | ⟨k, off', hjk, hki, hout', hend⟩
    · exact hopen
    · have := hlast k off' hki hout' hend
      omega

/-- An event of thread `7`. -/
def CpuSchedEvent.ofSeven (eventType : UInt32) (now : UInt64) : CpuSchedEvent :=
  { CpuSchedEvent.wakeupAt 7 now with eventType }

/-- Thread `7` goes on the CPU twice and off once. -/
def twiceOnOnceOff : List UnifiedEvent :=
  [.cpu (.ofSeven cpuSchedOn 10), .cpu (.ofSeven cpuSchedOn 20), .cpu (.ofSeven cpuSchedOff 50)]

/-- The end closes the second begin. -/
theorem ends_close_latest_begins_twice_on :
    ∃ j on, ClosesSpan .noStacks twiceOnOnceOff j 2 on (.ofSeven cpuSchedOff 50) := by
  have hcpu : ∀ cpu, UnifiedEvent.cpu cpu ∈ twiceOnOnceOff →
      (cpu.eventType = cpuSchedOn → cpu.timestamp ≠ 0) ∧ cpu.tid < cpuOnTimeLen ∧
        cpu.pid = cpu.tid := by
    intro cpu hmem
    simp only [twiceOnOnceOff, List.mem_cons, UnifiedEvent.cpu.injEq, List.not_mem_nil,
      or_false] at hmem
    rcases hmem with rfl | rfl | rfl
    · decide
    · decide
    · decide
  have hevents : SchedEvents twiceOnOnceOff :=
    ⟨by decide, fun cpu h => (hcpu cpu h).1, fun cpu h => (hcpu cpu h).2.1,
      fun cpu h => (hcpu cpu h).2.2⟩
  exact (ends_close_latest_begins hevents .noStacks (i := 2) ⟨rfl, rfl, rfl⟩).2
    ⟨40, 7, 7, 30, 0, List.mem_singleton.mpr rfl⟩

end UnifiedTrace
