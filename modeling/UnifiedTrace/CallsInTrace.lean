import UnifiedTrace.Attribution
import UnifiedTrace.Merge
import UnifiedTrace.NestedCalls
import UnifiedTrace.ValidateTrace

/-!
# From Calls to the Entries of the Trace

The whole way of a CUDA call: its probes, the ring, the array `events`, the sort, the file, and
the JSON value that a viewer reads. In an undisturbed run the `X` entries of the trace are the
completed calls of traced processes that made no traced call themselves, once each, under their
own function, process, thread, start and duration.

## Main results

* `filter_complete_dueRecords`: the CUDA records of a file are those of the CUDA events, in order.
* `ReportsCall.of_undisturbed`: what the event of a completed call says.
* `calls_in_trace`: the `X` entries of the trace are the completed calls.
-/

namespace UnifiedTrace

open Json

/-! ### The entries of a phase -/

/-- The CUDA event, if it is one. -/
def UnifiedEvent.gpu? : UnifiedEvent → Option CudaEvent
  | cpu _ => none
  | gpu e => some e

/-- The `ph` of an entry is this string. -/
def hasPhase (ph : String) : Value → Bool
  | .obj ms =>
      match lastMember (pyStr "ph") ms with
      | some v => isStrOf (pyStr ph) v
      | none => false
  | _ => false

/-- The entries of a phase in a trace. -/
def traceEntries (ph : String) : Value → List Value
  | .obj ms =>
      match lastMember (pyStr "traceEvents") ms with
      | some (.arr es) => es.filter (hasPhase ph)
      | _ => []
  | _ => []

/-- A record has the phase it is written with. -/
theorem hasPhase_value (r : Record) : hasPhase "X" r.value = decide (r.phase = .x) := by
  cases r <;> rfl

/-- **The CUDA records of a file** are those of the CUDA events, in order. -/
theorem filter_complete_dueRecords {env : StackEnv} (henv : env.Steady)
    (events : List UnifiedEvent) :
    (dueRecords env events).filter (fun r => r.phase = .x) =
      (events.filterMap UnifiedEvent.gpu?).map fun e =>
        .complete (completeRecord env (minTimestamp events) 0 e) := by
  have hevents : ∀ (m : UInt64) (l : List UnifiedEvent),
      (l.filterMap (fixedRecord? env m)).filter (fun r => r.phase = .x) =
        (l.filterMap UnifiedEvent.gpu?).map fun e => .complete (completeRecord env m 0 e) := by
    intro m l
    induction l with
    | nil => rfl
    | cons e l ih =>
        cases e with
        | gpu gpu =>
            have hrecord : fixedRecord? env m (.gpu gpu) =
                some (.complete (completeRecord env m 0 gpu)) := rfl
            have hgpu : UnifiedEvent.gpu? (.gpu gpu) = some gpu := rfl
            rw [List.filterMap_cons_some hrecord, List.filterMap_cons_some hgpu,
              List.filter_cons_of_pos (by rfl), ih, List.map_cons]
        | cpu cpu =>
            rw [List.filterMap_cons_none (f := UnifiedEvent.gpu?) rfl, ← ih]
            cases hfixed : fixedRecord? env m (.cpu cpu) with
            | none => rw [List.filterMap_cons_none hfixed]
            | some r =>
                rw [List.filterMap_cons_some hfixed, List.filter_cons_of_neg]
                rw [fixedRecord?] at hfixed
                split at hfixed
                · exact absurd hfixed (by simp)
                · obtain ⟨-, rfl⟩ | ⟨-, rfl⟩ | ⟨-, rfl⟩ := of_cpuRecord?_eq_some hfixed
                  · exact Bool.false_ne_true
                  · exact Bool.false_ne_true
                  · exact Bool.false_ne_true
  rw [← hevents, ← fixedRecords_traceFile henv, fileRecords_traceFile_eq, fixedRecords,
    List.filter_filter]
  refine List.filter_congr fun r _ => ?_
  cases r <;> rfl

/-- The `X` entries of the value that a trace file denotes. -/
theorem traceEntries_traceValue {env : StackEnv} (henv : env.Steady)
    (events : List UnifiedEvent) :
    traceEntries "X" (traceValue env events) =
      (events.filterMap UnifiedEvent.gpu?).map fun e =>
        (Record.complete (completeRecord env (minTimestamp events) 0 e)).value := by
  have hentries : traceEntries "X" (traceValue env events) =
      ((dueRecords env events).map Record.value).filter (hasPhase "X") := rfl
  have hphase : (hasPhase "X" ∘ Record.value) = fun r : Record => decide (r.phase = .x) :=
    funext hasPhase_value
  rw [hentries, List.filter_map, hphase, filter_complete_dueRecords henv, List.map_map]
  rfl

/-! ### The events of completed calls -/

/-- The event reports this call: its function, process and thread, the time of its entry, the time
from there to its return, its result, and all that its entry stored. -/
structure ReportsCall (r : Returned) (e : CudaEvent) : Prop where
  event : r.event = some e
  opType : e.opType = r.call.op.code
  pid : e.pid = pidOf r.key
  tid : e.tid = tidOf r.key
  timestamp : e.timestamp = r.call.env.now
  duration : e.durationNs.toNat = r.now.toNat - r.call.env.now.toNat
  retVal : e.retVal = r.rc.toUInt32.toInt32
  owns : r.Owns e

/-- The own event of a call reports it. -/
theorem Returned.Owns.reportsCall {r : Returned} {e : CudaEvent} (h : r.Owns e)
    (he : r.event = some e) : ReportsCall r e := by
  obtain ⟨info, -, hstored, hreports⟩ := h.entry
  refine ⟨he, hreports.opType.trans hstored.opType, ?_, h.tid,
    hreports.timestamp.trans hstored.time, ?_, hreports.retVal, h⟩
  · rw [hreports.pid, hstored.pid, h.thread]
  · rw [hreports.duration, hstored.time]

namespace CallWorld

/-- The call is one of a traced process and made no traced call itself. -/
def Reported (cfg : CudaTracerCfg) (r : Returned) : Bool := cfg.Passes r.key ∧ r.inner = 0

/-- The completed calls of traced processes that made no traced call themselves. -/
def completed (cfg : CudaTracerCfg) (w : CallWorld) : List Returned :=
  w.returned.filter (Reported cfg)

end CallWorld

/-- An undisturbed run has all probes attached. -/
theorem CallAct.Undisturbed.firesAs {act : CallAct} (h : act.Undisturbed) :
    act.FiresAs fun _ => true := by
  cases act with
  | spawn | exit => trivial
  | enter a => exact h
  | leave a => exact h.1

/-- **What is reported of an undisturbed run**: the completed calls, in the order in which they
returned. -/
theorem ReportsCall.of_undisturbed {cfg : CudaTracerCfg} {acts : List CallAct} {w : CallWorld}
    {K : Finset UInt64} (hact : ∀ act ∈ acts, act.Undisturbed) (hk : ∀ act ∈ acts, act.key ∈ K)
    (hcard : K.card ≤ cudaCallsMaxEntries) (hrun : CallWorld.runs cfg acts = some w) :
    List.Forall₂ ReportsCall (w.completed cfg) w.cudaEvents := by
  have hslot := CallWorld.SlotOk.of_run (fun act hmem => (hact act hmem).firesAs) hrun
  have htraced := CallWorld.EntryShaped.of_run hrun
  have hcounted := (CallWorld.InnermostOk.of_run hact hk hcard hrun).counted
  have hreports : ∀ r ∈ w.returned, ∀ e, r.event = some e → ReportsCall r e :=
    fun r hr e he => (hslot.reports r hr e he).reportsCall he
  have hcompleted : ∀ r ∈ w.returned, (r.event.isSome ↔ CallWorld.Reported cfg r = true) := by
    intro r hr
    rw [CallWorld.Reported, decide_eq_true_eq]
    constructor
    · intro hsome
      obtain ⟨e, he⟩ := Option.isSome_iff_exists.mp hsome
      have hp := (htraced.event r hr e he).1
      exact ⟨hp, (hcounted r hr hp).mp hsome⟩
    · exact fun h => (hcounted r hr h.1).mpr h.2
  rw [CallWorld.completed, CallWorld.cudaEvents]
  -- one return after the other
  generalize w.returned = rs at hreports hcompleted
  induction rs with
  | nil => exact .nil
  | cons r rs ih =>
      obtain ⟨hr, hrs⟩ := List.forall_mem_cons.mp hreports
      obtain ⟨hc, hcs⟩ := List.forall_mem_cons.mp hcompleted
      cases he : r.event with
      | none =>
          rw [he] at hc
          rw [List.filterMap_cons_none he, List.filter_cons_of_neg fun h => by simpa using hc.mpr h]
          exact ih hrs hcs
      | some e =>
          rw [List.filterMap_cons_some he, List.filter_cons_of_pos (hc.mp (by rw [he]; rfl))]
          exact .cons (hr e he) (ih hrs hcs)

/-- **From calls to the trace.** Take an undisturbed run of at most `10240` thread identities whose
CUDA events all arrive, in any order and mixed with any scheduling events, while the array has
room, and any sort of them. Whatever JSON value the written file denotes, its `X` entries are
those of the completed calls of traced processes that made no traced call themselves: one for
each, and none besides. -/
theorem calls_in_trace {cfg : CudaTracerCfg} {acts : List CallAct} {w : CallWorld}
    {K : Finset UInt64} (hact : ∀ act ∈ acts, act.Undisturbed) (hk : ∀ act ∈ acts, act.key ∈ K)
    (hcard : K.card ≤ cudaCallsMaxEntries) (hrun : CallWorld.runs cfg acts = some w)
    {arrivals sorted : List UnifiedEvent}
    (harrive : (arrivals.filterMap UnifiedEvent.gpu?).Perm w.cudaEvents)
    (hlen : arrivals.length ≤ maxEvents) (hsort : IsSortOf sorted (collect arrivals).events)
    {env : StackEnv} (hsteady : env.Steady) (hread : ReadableTrace env sorted) :
    ∃ es, List.Forall₂ ReportsCall (w.completed cfg) es ∧
      ∀ v, IsDocument (fileText (traceFile env sorted)) v →
        (traceEntries "X" v).Perm (es.map fun e =>
          (Record.complete (completeRecord env (minTimestamp sorted) 0 e)).value) := by
  refine ⟨w.cudaEvents, ReportsCall.of_undisturbed hact hk hcard hrun, fun v hv => ?_⟩
  rw [events_collect_of_length_le hlen] at hsort
  rw [hv.unique hread.isDocument, traceEntries_traceValue hsteady]
  exact ((hsort.1.filterMap _).trans harrive).map _

/-- The events of a run, latest first. -/
def latestFirst (w : CallWorld) : List UnifiedEvent := (w.cudaEvents.map .gpu).reverse

/-- The enclosing call of `nestedRun` has no entry, the two others have one each. -/
theorem calls_in_trace_nested :
    ∃ w, CallWorld.runs CudaTracerCfg.default nestedRun = some w ∧
      (w.completed CudaTracerCfg.default).map Returned.name = [(1, 2), (2, 1)] ∧
      ∃ es, List.Forall₂ ReportsCall (w.completed CudaTracerCfg.default) es ∧
        ∀ v, IsDocument (fileText (traceFile .noStacks (latestFirst w))) v →
          (traceEntries "X" v).Perm (es.map fun e => (Record.complete
            (completeRecord .noStacks (minTimestamp (latestFirst w)) 0 e)).value) := by
  have hmap : (CallWorld.runs CudaTracerCfg.default nestedRun).map (fun w =>
      ((w.completed CudaTracerCfg.default).map Returned.name,
        decide ((latestFirst w).Pairwise fun a b => a.timestamp ≤ b.timestamp),
        (latestFirst w).all (fun e => e.comm = .empty), (latestFirst w).length)) =
      some ([(1, 2), (2, 1)], true, true, 2) := by decide +kernel
  obtain ⟨w, hrun, hfacts⟩ := Option.map_eq_some_iff.mp hmap
  obtain ⟨hnames, hrest⟩ := Prod.mk.inj hfacts
  obtain ⟨hordered, hrest⟩ := Prod.mk.inj hrest
  obtain ⟨hnameless, hlength⟩ := Prod.mk.inj hrest
  have hroom : (w.cudaEvents.map UnifiedEvent.gpu).length ≤ maxEvents := by
    rw [← List.length_reverse, ← latestFirst, hlength]
    decide
  have hsort : IsSortOf (latestFirst w) (collect (w.cudaEvents.map .gpu)).events := by
    rw [events_collect_of_length_le hroom]
    exact isSortOf_iff.mpr ⟨List.reverse_perm _, of_decide_eq_true hordered⟩
  have harrive : ((w.cudaEvents.map .gpu).filterMap UnifiedEvent.gpu?).Perm w.cudaEvents := by
    rw [List.filterMap_map]
    exact .of_eq (List.filterMap_some ..)
  have hread : ReadableTrace .noStacks (latestFirst w) :=
    readableTrace_of_nameless printableFrames_noStacks fun e he =>
      of_decide_eq_true (List.all_eq_true.mp hnameless e he)
  have hsteady : StackEnv.noStacks.Steady := ⟨fun _ _ => rfl, fun _ _ => rfl⟩
  exact ⟨w, hrun, hnames, calls_in_trace nestedRun_undisturbed.1 nestedRun_undisturbed.2
    (by decide) hrun harrive hroom hsort hsteady hread⟩

end UnifiedTrace
