import Mathlib.Data.Finset.Insert
import Mathlib.Data.List.Dedup
import UnifiedTrace.EventRecords
import UnifiedTrace.FrameLimit
import UnifiedTrace.RecordText

/-!
# What the Symbolizer Complains About

`bsw_resolve` reports an error of blazesym on standard error, but only the first one for each
process: it keeps a set of those it has named. The functions on the way from the output loop to
that set are repeated here with the set and the lines, and shown to return what they return
without them. `bsw_free`, which throws the set away, is called once, after the output.

## Main results

* `emitStackJsonLogged_fst`: the log does not change what is printed.
* `stderr_names_failed`: a process gets a line when a symbolization fails for it for the first
  time, and the file then shows an empty stack.
-/

namespace UnifiedTrace

/-! ### The set of processes -/

/-- `LOGGED_ERR_PIDS`. -/
abbrev LoggedErrPids := Option (Finset UInt32)

/-- `already_logged`: the answer, and the set afterwards. -/
def alreadyLogged (logged : LoggedErrPids) (pid : UInt32) : Bool × LoggedErrPids :=
  let set := logged.getD ∅
  (pid ∈ set, some (insert pid set))

/-- The set, and the processes that were named, in the order of the lines. -/
structure ErrorLog where
  logged : LoggedErrPids
  lines : List UInt32

/-- Before the first error. -/
def ErrorLog.init : ErrorLog := ⟨none, []⟩

/-- The symbolizer returns an error. -/
def ErrorLog.fail (log : ErrorLog) (pid : UInt32) : ErrorLog :=
  let (seen, logged) := alreadyLogged log.logged pid
  ⟨logged, if seen then log.lines else log.lines ++ [pid]⟩

/-! ### The functions with their log -/

/-- `bsw_resolve` with its log. -/
def bswResolveLogged (pid : UInt32) (results : Option (List Symbolized)) (addrs : List UInt64)
    (out : List BswFrame) (log : ErrorLog) : FrameBuf × ErrorLog :=
  if addrs.length = 0 ∨ out.length = 0 then
    (⟨out, 0⟩, log)
  else
    match results with
    | none => (⟨out, 0⟩, log.fail pid)
    | some results => (writeResults ⟨out, 0⟩ (addrs.zip results), log)

/-- `emit_stack_json` with the log. -/
def emitStackJsonLogged (env : StackEnv) (i : ℕ) (stackId : Int32) (pid : UInt32)
    (log : ErrorLog) : List StackFrame × ErrorLog :=
  let all := readStackAddrs env stackId perfMaxStackDepth
  if all.length = 0 then
    ([], log)
  else
    let addrs :=
      if all.length > env.maxStackFramesInJson then all.take env.maxStackFramesInJson else all
    if ¬ env.symbolizeEnabled ∨ ¬ env.symbolizer then
      (addrs.map .addr, log)
    else if ¬ env.calloc i then
      ([], log)
    else
      let frames := List.replicate (addrs.length * 4) (BswFrame.zeroed 0)
      let resolved := bswResolveLogged pid (env.symbolize i pid addrs) addrs frames log
      ((resolved.1.out.take resolved.1.written).map .resolved, resolved.2)

/-- The log over one round of the output loop. -/
def logEvent (env : StackEnv) (i : ℕ) (log : ErrorLog) : UnifiedEvent → ErrorLog
  | .cpu cpu =>
      if cpu.eventType = cpuSchedOn ∧ cpu.stackId ≥ 0 then
        (emitStackJsonLogged env i cpu.stackId cpu.pid log).2
      else log
  | .gpu gpu =>
      if gpu.stackId ≥ 0 then (emitStackJsonLogged env i gpu.stackId gpu.pid log).2 else log

/-- The log over the rounds from index `i` on. -/
def logEvents (env : StackEnv) (i : ℕ) (log : ErrorLog) : List UnifiedEvent → ErrorLog
  | [] => log
  | e :: events => logEvents env (i + 1) (logEvent env i log e) events

/-! ### When the symbolizer fails -/

instance (env : StackEnv) (i : ℕ) : Decidable (env.CallsSymbolizer i) :=
  inferInstanceAs (Decidable (_ ∧ _))

/-- The symbolizer is asked at this event, and returns an error. -/
def StackEnv.FailsAt (env : StackEnv) (i : ℕ) (stackId : Int32) (pid : UInt32) : Prop :=
  shownAddrs env stackId ≠ [] ∧ env.CallsSymbolizer i ∧
    (env.symbolize i pid (shownAddrs env stackId)).isNone = true

instance (env : StackEnv) (i : ℕ) (stackId : Int32) (pid : UInt32) :
    Decidable (env.FailsAt i stackId pid) := inferInstanceAs (Decidable (_ ∧ _))

/-- The process for which symbolization fails at an event. -/
def failedPid? (env : StackEnv) (i : ℕ) : UnifiedEvent → Option UInt32
  | .cpu cpu =>
      if (cpu.eventType = cpuSchedOn ∧ cpu.stackId ≥ 0) ∧ env.FailsAt i cpu.stackId cpu.pid then
        some cpu.pid
      else none
  | .gpu gpu =>
      if gpu.stackId ≥ 0 ∧ env.FailsAt i gpu.stackId gpu.pid then some gpu.pid else none

/-- The failures of all events, in order. -/
def failedPids (env : StackEnv) (i : ℕ) : List UnifiedEvent → List UInt32
  | [] => []
  | e :: events => (failedPid? env i e).toList ++ failedPids env (i + 1) events

/-! ### The log beside the functions -/

section Stack

variable (env : StackEnv) (i : ℕ) (stackId : Int32) (pid : UInt32) (log : ErrorLog)

/-- Logging does not change the answer. -/
theorem bswResolveLogged_fst (results : Option (List Symbolized)) (addrs : List UInt64)
    (out : List BswFrame) :
    (bswResolveLogged pid results addrs out log).1 = bswResolve results addrs out := by
  unfold bswResolveLogged bswResolve
  split
  · rfl
  · cases results <;> rfl

/-- **The log is only a log**: the same is printed. -/
theorem emitStackJsonLogged_fst :
    (emitStackJsonLogged env i stackId pid log).1 = emitStackJson env i stackId pid := by
  rw [emitStackJsonLogged, emitStackJson]
  dsimp only
  split
  · rfl
  · split
    · rfl
    · split
      · rfl
      · rw [bswResolveLogged_fst]

/-- The log of `emit_stack_json` is that of one failure, if there is one. -/
theorem emitStackJsonLogged_snd :
    (emitStackJsonLogged env i stackId pid log).2 =
      if env.FailsAt i stackId pid then log.fail pid else log := by
  rw [emitStackJsonLogged]
  dsimp only
  rw [ite_take_eq_shownAddrs]
  split
  · rename_i hnone
    refine (if_neg fun hfails => hfails.1 ?_).symm
    rw [shownAddrs, List.eq_nil_of_length_eq_zero hnone, List.take_nil]
  · split
    · rename_i hoff
      exact (if_neg fun hfails => hoff.elim (· hfails.2.1.1) (· hfails.2.1.2.1)).symm
    · rename_i hon
      obtain ⟨henabled, hsym⟩ := not_or.mp hon
      split
      · rename_i hcalloc
        exact (if_neg fun hfails => hcalloc hfails.2.1.2.2).symm
      · rename_i hcalloc
        have hcalls : env.CallsSymbolizer i :=
          ⟨not_not.mp henabled, not_not.mp hsym, not_not.mp hcalloc⟩
        unfold bswResolveLogged
        split
        · rename_i hempty
          refine (if_neg fun hfails => hfails.1 ?_).symm
          rw [List.length_replicate] at hempty
          exact List.eq_nil_of_length_eq_zero (by omega)
        · rename_i hsome
          have hne : shownAddrs env stackId ≠ [] := fun hnil =>
            hsome (.inl (by rw [hnil]; rfl))
          cases hresults : env.symbolize i pid (shownAddrs env stackId) with
          | none => exact (if_pos ⟨hne, hcalls, by rw [hresults]; rfl⟩).symm
          | some results =>
              refine (if_neg fun hfails => ?_).symm
              have hnone := hfails.2.2
              rw [hresults] at hnone
              cases hnone

end Stack

/-- What a round of the loop adds to the log. -/
theorem logEvent_eq (env : StackEnv) (i : ℕ) (log : ErrorLog) (e : UnifiedEvent) :
    logEvent env i log e = (failedPid? env i e).elim log log.fail := by
  cases e with
  | cpu cpu =>
      rw [logEvent, failedPid?]
      by_cases hasks : cpu.eventType = cpuSchedOn ∧ cpu.stackId ≥ 0
      · rw [if_pos hasks, emitStackJsonLogged_snd]
        by_cases hfails : env.FailsAt i cpu.stackId cpu.pid
        · rw [if_pos hfails, if_pos ⟨hasks, hfails⟩]
          rfl
        · rw [if_neg hfails, if_neg fun h => hfails h.2]
          rfl
      · rw [if_neg hasks, if_neg fun h => hasks h.1]
        rfl
  | gpu gpu =>
      rw [logEvent, failedPid?]
      by_cases hasks : gpu.stackId ≥ 0
      · rw [if_pos hasks, emitStackJsonLogged_snd]
        by_cases hfails : env.FailsAt i gpu.stackId gpu.pid
        · rw [if_pos hfails, if_pos ⟨hasks, hfails⟩]
          rfl
        · rw [if_neg hfails, if_neg fun h => hfails h.2]
          rfl
      · rw [if_neg hasks, if_neg fun h => hasks h.1]
        rfl

/-! ### Each process once -/

/-- The log after these failures: the set has them, and the lines name each of them once, where it
failed first. -/
structure ErrorLog.After (log : ErrorLog) (failed : List UInt32) : Prop where
  mem : ∀ p, p ∈ log.logged.getD ∅ ↔ p ∈ failed
  lines : log.lines = failed.reverse.dedup.reverse

/-- One more failure. -/
theorem ErrorLog.After.fail {log : ErrorLog} {failed : List UInt32} (h : log.After failed)
    (pid : UInt32) : (log.fail pid).After (failed ++ [pid]) where
  mem := by
    intro p
    rw [ErrorLog.fail, alreadyLogged]
    change p ∈ insert pid (log.logged.getD ∅) ↔ _
    rw [Finset.mem_insert, h.mem, List.mem_append, List.mem_singleton, or_comm]
  lines := by
    rw [List.reverse_append, List.reverse_singleton, List.singleton_append, ErrorLog.fail,
      alreadyLogged]
    dsimp only
    by_cases hseen : pid ∈ failed
    · rw [if_pos (decide_eq_true ((h.mem pid).mpr hseen)),
        List.dedup_cons_of_mem (List.mem_reverse.mpr hseen), h.lines]
    · rw [if_neg (by simpa [h.mem] using hseen),
        List.dedup_cons_of_notMem (by simpa using hseen), List.reverse_cons, h.lines]

/-- The whole loop. -/
theorem ErrorLog.After.logEvents {env : StackEnv} {i : ℕ} {log : ErrorLog}
    {failed : List UInt32} (h : log.After failed) (events : List UnifiedEvent) :
    (logEvents env i log events).After (failed ++ failedPids env i events) := by
  induction events generalizing i log failed with
  | nil => rwa [failedPids, List.append_nil]
  | cons e events ih =>
      rw [UnifiedTrace.logEvents, failedPids, ← List.append_assoc, logEvent_eq]
      cases failedPid? env i e with
      | none => exact ih (by rwa [Option.toList_none, List.append_nil])
      | some pid => exact ih (h.fail pid)

/-! ### What the file shows then -/

/-- A failure belongs to an event. -/
theorem mem_failedPids_iff {env : StackEnv} {i : ℕ} {events : List UnifiedEvent} {p : UInt32} :
    p ∈ failedPids env i events ↔
      ∃ pre e post, events = pre ++ e :: post ∧ failedPid? env (i + pre.length) e = some p := by
  induction events generalizing i with
  | nil => simp [failedPids]
  | cons a events ih =>
      rw [failedPids, List.mem_append, ih, Option.mem_toList]
      constructor
      · rintro (ha | ⟨pre, e, post, rfl, he⟩)
        · exact ⟨[], a, events, rfl, ha⟩
        · refine ⟨a :: pre, e, post, rfl, ?_⟩
          rwa [List.length_cons, ← Nat.add_assoc, Nat.add_right_comm]
      · rintro ⟨pre, e, post, heq, he⟩
        cases pre with
        | nil =>
            obtain ⟨rfl, rfl⟩ := List.cons.inj heq
            exact .inl he
        | cons b pre =>
            obtain ⟨rfl, rfl⟩ := List.cons.inj heq
            rw [List.length_cons, ← Nat.add_assoc, Nat.add_right_comm] at he
            exact .inr ⟨pre, e, post, rfl, he⟩

/-- Where the symbolizer fails, nothing is printed of the stack. -/
theorem emitStackJson_of_failsAt {env : StackEnv} {i : ℕ} {stackId : Int32} {pid : UInt32}
    (h : env.FailsAt i stackId pid) : emitStackJson env i stackId pid = [] := by
  obtain ⟨-, ⟨hon, hsym, -⟩, hnone⟩ := h
  rcases emitStackJson_cases env i stackId pid with ⟨hoff, -⟩ | ⟨-, ⟨-, hnil⟩ | ⟨-, hframes⟩⟩
  · exact absurd hoff (not_disabled hon hsym)
  · exact hnil
  · rw [hframes, filled_resolvedBuf, Option.isNone_iff_eq_none.mp hnone, Option.getD_none,
      expansion, List.zip_nil_right, List.flatMap_nil, List.take_nil, List.map_nil]

/-- The record of an event at which the symbolizer fails. -/
theorem ownRecord?_of_failedPid? {env : StackEnv} {i : ℕ} {e : UnifiedEvent} {p : UInt32}
    (h : failedPid? env i e = some p) (m : UInt64) (onTime : UInt32 → UInt64) :
    ∃ r, ownRecord? env m i onTime e = some r ∧ r.pid = p ∧ r.stack? = some [] := by
  cases e with
  | cpu cpu =>
      obtain ⟨⟨⟨hon, hid⟩, hfails⟩, hp⟩ := Option.ite_none_right_eq_some.mp h
      refine ⟨_, if_pos hon, Option.some.inj hp, ?_⟩
      change stackOf env i cpu.stackId cpu.pid = some []
      rw [stackOf, if_pos hid, emitStackJson_of_failsAt hfails]
  | gpu gpu =>
      obtain ⟨⟨hid, hfails⟩, hp⟩ := Option.ite_none_right_eq_some.mp h
      refine ⟨_, rfl, Option.some.inj hp, ?_⟩
      change stackOf env i gpu.stackId gpu.pid = some []
      rw [stackOf, if_pos hid, emitStackJson_of_failsAt hfails]

/-- **The complaints.** Over a whole output, standard error names exactly the processes for which
a symbolization failed, each once and in the order in which they failed first; and for each of
them the file has a record that shows an empty stack. -/
theorem stderr_names_failed (env : StackEnv) (events : List UnifiedEvent) :
    (logEvents env 0 .init events).lines = (failedPids env 0 events).reverse.dedup.reverse ∧
      (logEvents env 0 .init events).lines.Nodup ∧
      ∀ p ∈ (logEvents env 0 .init events).lines,
        ∃ r ∈ fileRecords (traceFile env events), r.pid = p ∧ r.stack? = some [] := by
  have hinit : ErrorLog.init.After [] :=
    ⟨fun p => iff_of_false (Finset.notMem_empty p) List.not_mem_nil, rfl⟩
  have hlines := (@ErrorLog.After.logEvents env 0 .init [] hinit events).lines
  rw [List.nil_append] at hlines
  refine ⟨hlines, hlines ▸ List.nodup_reverse.mpr (List.nodup_dedup _), fun p hp => ?_⟩
  rw [hlines, List.mem_reverse, List.mem_dedup, List.mem_reverse, mem_failedPids_iff] at hp
  obtain ⟨pre, e, post, rfl, he⟩ := hp
  obtain ⟨r, hr, hpid, hstack⟩ := ownRecord?_of_failedPid? he
    (minTimestamp (pre ++ e :: post))
    (emitEvents env (minTimestamp (pre ++ e :: post)) 0 .init pre).2.cpuOnTime
  refine ⟨r, ?_, hpid, hstack⟩
  have hmem : (e, r) ∈ fileEventRecords env (pre ++ e :: post) :=
    (mem_eventRecords_iff ..).mpr ⟨pre, post, rfl, hr⟩
  have hfilter : r ∈ (fileRecords (traceFile env (pre ++ e :: post))).filter
      fun r => !r.IsName := by
    rw [filter_fileRecords_traceFile]
    exact List.mem_map_of_mem hmem
  exact (List.mem_filter.mp hfilter).1

end UnifiedTrace
