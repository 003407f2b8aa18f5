import UnifiedTrace.ValidateTrace

/-!
# The Report on the Synthetic Agent

`tests/e2e/synthetic_agent/validate.py` collects statistics over a trace file and turns them into
assertions, phase by phase. Those of the first phase must pass; the others are pending until the
tracer has probes for network, processes and disk. The script reads the file as
`validate_trace.py` does, and the model shares its Python values.

What is only printed is left out: the details of the assertions, and the sum of the durations.
Adding up the durations and estimating the invisible time can raise exceptions, which stay. The
option `--write-report` is not given.

## Main results

* `parseTrace_of_agentEvents`: the statistics count what they name.
* `agentReport_traceFile`: the status of the script for a trace file, told from the records.
-/

namespace UnifiedTrace

open Json

/-! ### The statistics -/

/-- `State`: what is collected over a trace. -/
structure AgentState where
  eventsTotal : ℕ
  eventsReal : ℕ
  categories : Finset PyStr
  /-- The keys of `pids`, once for each event that is counted under them. -/
  pids : List Value
  gpuEventCount : ℕ
  cpuEventCount : ℕ
  stackPresentCount : ℕ
  stackNonemptyCount : ℕ

section Parse

variable (numTruthy numFits : Bytes → Bool)

/-- The category of an event: the set takes what can be hashed, and only strings have
`startswith`. -/
def AgentState.addCategory (st : AgentState) (e : Value) : Py AgentState := do
  match ← pyGet e (pyStr "cat") with
  | some c =>
      if truthy numTruthy c then
        match c with
        | .str s =>
            let st := { st with categories := insert s st.categories }
            if (pyStr "gpu").isPrefixOf s then
              return { st with gpuEventCount := st.gpuEventCount + 1 }
            else if s = pyStr "cpu" then
              return { st with cpuEventCount := st.cpuEventCount + 1 }
            else return st
        | _ => .error .exception
      else return st
  | none => return st

/-- The process of an event: lists and dictionaries cannot be keys. -/
def AgentState.addPid (st : AgentState) (e : Value) : Py AgentState := do
  match ← pyGet e (pyStr "pid") with
  | some v =>
      if truthy numTruthy v then
        match v with
        | .arr _ => .error .exception
        | .obj _ => .error .exception
        | v => return { st with pids := st.pids ++ [v] }
      else return st
  | none => return st

/-- The stack of an event; `in` also works on lists and strings, but then `args["stack"]` does
not. -/
def AgentState.addStack (st : AgentState) (e : Value) : Py AgentState := do
  if ← hasStackKey numTruthy e then
    let st := { st with stackPresentCount := st.stackPresentCount + 1 }
    match ← argsOf numTruthy e with
    | .obj ms =>
        match lastMember (pyStr "stack") ms with
        | some (.arr (_ :: _)) =>
            return { st with stackNonemptyCount := st.stackNonemptyCount + 1 }
        | _ => return st
    | _ => .error .exception
  else return st

/-- The duration of a complete event must be a number that a float can take up. -/
def addDuration (e : Value) : Py Unit := do
  match ← pyGet e (pyStr "ph") with
  | some ph =>
      if isStrOf (pyStr "X") ph then
        match ← pyGet e (pyStr "dur") with
        | some d =>
            if truthy numTruthy d then
              match d with
              | .num text => if numFits text then return () else .error .exception
              | .bool _ => return ()
              | _ => .error .exception
            else return ()
        | none => return ()
      else return ()
  | none => return ()

/-- One round of the loop over the events. -/
def AgentState.addEvent (st : AgentState) (e : Value) : Py AgentState := do
  let st ← st.addCategory numTruthy e
  let st ← st.addPid numTruthy e
  let st ← st.addStack numTruthy e
  addDuration numTruthy numFits e
  return st

/-- `_parse_trace` after the file was read. -/
def parseTrace (doc : Value) : Py AgentState := do
  let events ← eventsOf doc
  let real ← selectM isReal events
  real.foldlM (AgentState.addEvent numTruthy numFits)
    ⟨events.length, real.length, ∅, [], 0, 0, 0, 0⟩

end Parse

/-! ### The assertions -/

/-- The status of an assertion. -/
inductive AssertStatus
  | pass
  | fail
  | pend
  deriving DecidableEq

/-- `Result`, without its detail. -/
structure AssertResult where
  name : String
  status : AssertStatus
  phase : ℕ

/-- `"PASS" if c else otherwise`. -/
def passIf (c : Prop) [Decidable c] (otherwise : AssertStatus) : AssertStatus :=
  if c then .pass else otherwise

/-- `phase_0_assertions`. -/
def phase0Assertions (st : AgentState) : List AssertResult :=
  [⟨"trace contains events", passIf (0 < st.eventsReal) .fail, 0⟩,
    ⟨"trace has GPU compute category", passIf (pyStr "gpu_compute" ∈ st.categories) .fail, 0⟩,
    ⟨"trace has at least 20 GPU events", passIf (20 ≤ st.gpuEventCount) .fail, 0⟩,
    ⟨"trace has stack arrays", passIf (0 < st.stackPresentCount) .fail, 0⟩,
    ⟨"stack arrays are non-empty (blazesym resolved frames)",
      passIf (0 < st.stackNonemptyCount) .fail, 0⟩]

/-- There is a category that starts with `net`. -/
def AgentState.HasNet (st : AgentState) : Prop :=
  pyStr "net" ∈ st.categories ∨ ∃ c ∈ st.categories, (pyStr "net").isPrefixOf c = true

instance (st : AgentState) : Decidable st.HasNet := inferInstanceAs (Decidable (_ ∨ _))

/-- `phase_1_assertions`. -/
def phase1Assertions (st : AgentState) : List AssertResult :=
  [⟨"trace has 'net' category events", passIf st.HasNet .pend, 1⟩,
    ⟨"search_tool() calls captured as network events", passIf st.HasNet .pend, 1⟩,
    ⟨"network event stacks include synthetic_agent.py", passIf st.HasNet .pend, 1⟩]

/-- `phase_2_assertions`. -/
def phase2Assertions (st : AgentState) : List AssertResult :=
  [⟨"trace has 'subprocess' category events",
      passIf (pyStr "subprocess" ∈ st.categories) .pend, 2⟩,
    ⟨"run_code_tool() spawns captured as fork/exec events",
      passIf (pyStr "subprocess" ∈ st.categories) .pend, 2⟩,
    ⟨"subprocess events include wait4 duration",
      passIf (pyStr "subprocess" ∈ st.categories) .pend, 2⟩]

/-- `phase_3_assertions`. -/
def phase3Assertions (st : AgentState) : List AssertResult :=
  [⟨"trace has 'disk' category events", passIf (pyStr "disk" ∈ st.categories) .pend, 3⟩,
    ⟨"read_documents() reads captured with path attribution",
      passIf (pyStr "disk" ∈ st.categories) .pend, 3⟩]

/-- `phase_results`. -/
def phaseResults (st : AgentState) : List AssertResult :=
  phase0Assertions st ++ phase1Assertions st ++ phase2Assertions st ++ phase3Assertions st

/-- The number of assertions with a status. -/
def AgentState.tally (st : AgentState) (status : AssertStatus) : ℕ :=
  (phaseResults st).countP fun r => r.status = status

/-! ### The script -/

/-- `_print_state_report` fails: the process ids do not sort, the number of iterations is too
large for a float, or the total estimate is zero, by which it divides. The largest float is
`2 ^ 1024 - 2 ^ 971`, and three times the number of iterations is the largest number that is made
a float. -/
def reportRaises (st : AgentState) (iters : ℤ) : Bool :=
  pySorted st.pids matches .error _ ||
    ((1 <<< 1024) - (1 <<< 970) ≤ (3 * iters).natAbs) || iters = 0

/-- The exit status of the script, by the bytes of the file if there is one. -/
def agentReport (loads : Bytes → Except LoadError Value) (numTruthy numFits : Bytes → Bool)
    (iters : ℤ) (file : Option Bytes) : ℕ :=
  match file with
  | none => 2
  | some text =>
      match loads text with
      | .error .jsonDecodeError => 2
      | .error .other => 1
      | .ok doc =>
          match parseTrace numTruthy numFits doc with
          | .error .notAList => 2
          | .error _ => 1
          | .ok st =>
              if reportRaises st iters then 1
              else if ∃ r ∈ phase0Assertions st, r.status = .fail then 1
              else 0

/-! ### One event -/

/-- An event as the tracer writes it: a category and arguments as for the other script, a number
for the process, and a duration that is a decimal fraction. -/
structure AgentEvent (e : Value) (cat : PyStr) (frames : Option (List Value)) (pid : Bytes) :
    Prop where
  plain : PlainEvent e cat frames
  getPid : pyGet e (pyStr "pid") = .ok (some (.num pid))
  getPh : ∃ ph, pyGet e (pyStr "ph") = .ok ph
  getDur : pyGet e (pyStr "dur") = .ok none ∨
    ∃ text, pyGet e (pyStr "dur") = .ok (some (.num text)) ∧ 0x2E ∈ text

/-- What such an event does to the statistics. -/
def AgentState.counted (numTruthy : Bytes → Bool) (st : AgentState) (cat : PyStr)
    (frames : Option (List Value)) (pid : Bytes) : AgentState where
  eventsTotal := st.eventsTotal
  eventsReal := st.eventsReal
  categories := insert cat st.categories
  pids := st.pids ++ if numTruthy pid then [.num pid] else []
  gpuEventCount := st.gpuEventCount + if (pyStr "gpu").isPrefixOf cat then 1 else 0
  cpuEventCount := st.cpuEventCount + if cat = pyStr "cpu" then 1 else 0
  stackPresentCount := st.stackPresentCount + if frames.isSome then 1 else 0
  stackNonemptyCount :=
    st.stackNonemptyCount + if frames.elim false fun fs => !fs.isEmpty then 1 else 0

section OneEvent

variable {numTruthy numFits : Bytes → Bool} {e : Value} {cat : PyStr}
  {frames : Option (List Value)} {pid : Bytes}

/-- The category of a plain event is added. -/
theorem PlainEvent.addCategory (h : PlainEvent e cat frames) (st : AgentState) :
    st.addCategory numTruthy e = .ok { st with
      categories := insert cat st.categories
      gpuEventCount := st.gpuEventCount + if (pyStr "gpu").isPrefixOf cat then 1 else 0
      cpuEventCount := st.cpuEventCount + if cat = pyStr "cpu" then 1 else 0 } := by
  rw [AgentState.addCategory, h.getCat]
  change (if truthy numTruthy (.str cat) = true then _ else _) = _
  rw [if_pos (truthy_str h.cat_ne)]
  by_cases hgpu : (pyStr "gpu").isPrefixOf cat = true
  · have hcpu : cat ≠ pyStr "cpu" := by
      rintro rfl
      exact absurd hgpu (by decide)
    simp only [if_pos hgpu, if_neg hcpu]
    rfl
  · simp only [if_neg hgpu]
    split <;> rfl

/-- A number that is not zero is added to the pids. -/
theorem addPid_of_num (h : pyGet e (pyStr "pid") = .ok (some (.num pid))) (st : AgentState) :
    st.addPid numTruthy e = .ok { st with
      pids := st.pids ++ if numTruthy pid then [.num pid] else [] } := by
  rw [AgentState.addPid, h]
  change (if numTruthy pid = true then _ else _) = _
  split
  · rfl
  · rw [List.append_nil]
    rfl

/-- The stack of a plain event is counted. -/
theorem PlainEvent.addStack (h : PlainEvent e cat frames) (st : AgentState) :
    st.addStack numTruthy e = .ok { st with
      stackPresentCount := st.stackPresentCount + if frames.isSome then 1 else 0
      stackNonemptyCount :=
        st.stackNonemptyCount + if frames.elim false fun fs => !fs.isEmpty then 1 else 0 } := by
  obtain ⟨ms, hargs, hstack⟩ := h.argsOf numTruthy
  rw [AgentState.addStack, h.hasStackKey, hargs]
  cases frames with
  | none => rfl
  | some fs =>
      change (match lastMember (pyStr "stack") ms with
        | some (.arr (_ :: _)) => _
        | _ => _) = _
      rw [hstack]
      cases fs <;> rfl

/-- A duration is a number, so it can be added. -/
theorem AgentEvent.addDuration (h : AgentEvent e cat frames pid)
    (hfits : ∀ text : Bytes, 0x2E ∈ text → numFits text = true) :
    addDuration numTruthy numFits e = .ok () := by
  obtain ⟨ph, hph⟩ := h.getPh
  rw [UnifiedTrace.addDuration, hph]
  cases ph with
  | none => rfl
  | some ph =>
      change (if isStrOf (pyStr "X") ph = true then _ else _) = _
      split
      · rcases h.getDur with hdur | ⟨text, hdur, hdot⟩
        · rw [hdur]
          rfl
        · rw [hdur]
          change (if numTruthy text = true then
            if numFits text = true then _ else _ else _) = _
          rw [if_pos (hfits text hdot), ite_self]
          rfl
      · rfl

/-- **One round of the loop.** -/
theorem AgentEvent.addEvent (h : AgentEvent e cat frames pid)
    (hfits : ∀ text : Bytes, 0x2E ∈ text → numFits text = true) (st : AgentState) :
    st.addEvent numTruthy numFits e = .ok (st.counted numTruthy cat frames pid) := by
  rw [AgentState.addEvent, h.plain.addCategory]
  change (do
    let st ← AgentState.addPid numTruthy _ e
    let st ← st.addStack numTruthy e
    UnifiedTrace.addDuration numTruthy numFits e
    return st) = _
  rw [addPid_of_num h.getPid]
  change (do
    let st ← AgentState.addStack numTruthy _ e
    UnifiedTrace.addDuration numTruthy numFits e
    return st) = _
  rw [h.plain.addStack]
  change (do
    UnifiedTrace.addDuration numTruthy numFits e
    return _) = _
  rw [h.addDuration hfits]
  rfl

end OneEvent

/-! ### The whole trace -/

section Trace

variable {numTruthy numFits : Bytes → Bool} {ι : Type} {val : ι → Value} {xs : List ι}
  {cat : ι → PyStr} {frames : ι → Option (List Value)} {pid : ι → Bytes}

/-- The loop over the events counts each of them and does not raise. -/
theorem foldlM_addEvent (h : ∀ x ∈ xs, AgentEvent (val x) (cat x) (frames x) (pid x))
    (hfits : ∀ text : Bytes, 0x2E ∈ text → numFits text = true) (st : AgentState) :
    (xs.map val).foldlM (AgentState.addEvent numTruthy numFits) st =
      .ok (xs.foldl (fun st x => st.counted numTruthy (cat x) (frames x) (pid x)) st) := by
  induction xs generalizing st with
  | nil => rfl
  | cons x xs ih =>
      obtain ⟨hx, hxs⟩ := List.forall_mem_cons.mp h
      rw [List.map_cons, List.foldlM_cons, hx.addEvent hfits, List.foldl_cons]
      exact ih hxs _

/-- The loop counts what the fields name. -/
theorem foldl_counted (st : AgentState) :
    xs.foldl (fun st x => st.counted numTruthy (cat x) (frames x) (pid x)) st =
      { st with
        categories := st.categories ∪ (xs.map cat).toFinset
        pids := st.pids ++ ((xs.map pid).filter (numTruthy ·)).map .num
        gpuEventCount := st.gpuEventCount + xs.countP fun x => (pyStr "gpu").isPrefixOf (cat x)
        cpuEventCount := st.cpuEventCount + xs.countP fun x => cat x = pyStr "cpu"
        stackPresentCount := st.stackPresentCount + xs.countP fun x => (frames x).isSome
        stackNonemptyCount := st.stackNonemptyCount +
          xs.countP fun x => (frames x).elim false fun fs => !fs.isEmpty } := by
  induction xs generalizing st with
  | nil => simp
  | cons x xs ih =>
      rw [List.foldl_cons, ih]
      simp only [AgentState.counted, List.map_cons, List.toFinset_cons, List.countP_cons,
        Finset.insert_union, Finset.union_insert, List.append_assoc, AgentState.mk.injEq, true_and,
        decide_eq_true_eq]
      refine ⟨?_, by omega, by omega, by omega, by omega⟩
      cases htruthy : numTruthy (pid x) with
      | true => rw [List.filter_cons_of_pos htruthy]; rfl
      | false => rw [List.filter_cons_of_neg (by simp [htruthy])]; rfl

/-- **The statistics** of a document whose events are as the tracer writes them. -/
theorem parseTrace_of_agentEvents {doc : Value} {real : ι → Bool}
    (hdoc : pyGet doc (pyStr "traceEvents") = .ok (some (.arr (xs.map val))))
    (hreal : ∀ x ∈ xs, isReal (val x) = .ok (real x))
    (h : ∀ x ∈ xs.filter real, AgentEvent (val x) (cat x) (frames x) (pid x))
    (hfits : ∀ text : Bytes, 0x2E ∈ text → numFits text = true) :
    parseTrace numTruthy numFits doc = .ok
      { eventsTotal := xs.length
        eventsReal := (xs.filter real).length
        categories := ((xs.filter real).map cat).toFinset
        pids := (((xs.filter real).map pid).filter (numTruthy ·)).map .num
        gpuEventCount := (xs.filter real).countP fun x => (pyStr "gpu").isPrefixOf (cat x)
        cpuEventCount := (xs.filter real).countP fun x => cat x = pyStr "cpu"
        stackPresentCount := (xs.filter real).countP fun x => (frames x).isSome
        stackNonemptyCount :=
          (xs.filter real).countP fun x => (frames x).elim false fun fs => !fs.isEmpty } := by
  have hevents : eventsOf doc = .ok (xs.map val) := by
    rw [eventsOf, hdoc]
    rfl
  rw [parseTrace, hevents]
  change (selectM isReal (xs.map val) >>= fun real => real.foldlM _ _) = _
  rw [selectM_of_ok hreal]
  change ((xs.filter real).map val).foldlM _ _ = _
  rw [foldlM_addEvent h hfits, foldl_counted]
  simp

end Trace

/-! ### The tracer's files -/

/-- The record is of a CUDA event. -/
def Record.IsGpu : Record → Bool
  | complete _ => true
  | _ => false

/-- The record has a stack with elements. -/
def Record.HasFrames (r : Record) : Bool := !(r.stack?.getD []).isEmpty

/-- What the first phase asks of the records. -/
structure Foundation (rs : List Record) : Prop where
  gpu : 20 ≤ rs.countP Record.IsGpu
  compute : ∃ r ∈ rs, units r.category = pyStr "gpu_compute"
  resolved : ∃ r ∈ rs, r.HasFrames = true

/-- The report can be printed for this number of iterations. -/
def EstimateDefined (iters : ℤ) : Prop :=
  iters ≠ 0 ∧ (3 * iters).natAbs < (1 <<< 1024) - (1 <<< 970)

/-- The records of a trace file are events as this script expects them. -/
theorem agentEvent_value {env : StackEnv} {events : List UnifiedEvent} {r : Record}
    (h : r ∈ realRecords env events) :
    AgentEvent r.value (units r.category) (r.stack?.map fun fs => fs.map StackFrame.value)
      (u32 r.pid) where
  plain := plainEvent_value h
  getPid := by cases r <;> rfl
  getPh := by cases r <;> exact ⟨_, rfl⟩
  getDur := by
    cases r with
    | complete r => exact .inr ⟨_, rfl, point_mem_microseconds r.dur⟩
    | _ => exact .inl rfl

/-- A record of the scheduler or of a CUDA call. -/
theorem category_cases {env : StackEnv} {events : List UnifiedEvent} {r : Record}
    (h : r ∈ realRecords env events) :
    r.IsGpu = true ∧ pyStr "gpu" <+: units r.category ∨
      r.IsGpu = false ∧ units r.category = pyStr "cpu" := by
  have hgpu := gpu_prefix_category_iff h
  obtain ⟨-, hname⟩ := List.mem_filter.mp h
  cases r with
  | cpuThreadName | gpuThreadName => exact absurd hname (by simp [Record.IsName])
  | begin | finish | instant => exact .inr ⟨rfl, rfl⟩
  | complete r => exact .inl ⟨rfl, hgpu.mpr ⟨r, rfl⟩⟩

/-- The statistics of a trace with these records, and so many records in all. -/
def AgentState.ofRecords (numTruthy : Bytes → Bool) (total : ℕ) (rs : List Record) :
    AgentState where
  eventsTotal := total
  eventsReal := rs.length
  categories := (rs.map fun r => units r.category).toFinset
  pids := ((rs.map fun r => u32 r.pid).filter (numTruthy ·)).map .num
  gpuEventCount := rs.countP Record.IsGpu
  cpuEventCount := rs.countP fun r => !r.IsGpu
  stackPresentCount := rs.countP fun r => r.stack?.isSome
  stackNonemptyCount := rs.countP Record.HasFrames

/-- The statistics of a trace file. -/
theorem parseTrace_traceValue {env : StackEnv} {events : List UnifiedEvent}
    {numTruthy numFits : Bytes → Bool}
    (hfits : ∀ text : Bytes, 0x2E ∈ text → numFits text = true) :
    parseTrace numTruthy numFits (traceValue env events) =
      .ok (.ofRecords numTruthy (dueRecords env events).length (realRecords env events)) := by
  have hstats := @parseTrace_of_agentEvents numTruthy numFits Record Record.value
    (dueRecords env events) (fun r => units r.category)
    (fun r => r.stack?.map fun fs => fs.map StackFrame.value) (fun r => u32 r.pid)
    (traceValue env events) _ rfl (fun r _ => isReal_value r) (fun r hr => agentEvent_value hr)
    hfits
  have hgpu : (realRecords env events).countP (fun r => (pyStr "gpu").isPrefixOf
      (units r.category)) = (realRecords env events).countP Record.IsGpu := by
    refine List.countP_congr fun r hr => ?_
    rw [List.isPrefixOf_iff_prefix]
    rcases category_cases hr with ⟨hgpu, hprefix⟩ | ⟨hgpu, heq⟩
    · exact iff_of_true hprefix hgpu
    · rw [heq, hgpu]
      exact iff_of_false (by decide) Bool.false_ne_true
  have hcpu : (realRecords env events).countP (fun r => units r.category = pyStr "cpu") =
      (realRecords env events).countP fun r => !r.IsGpu := by
    refine List.countP_congr fun r hr => ?_
    rw [decide_eq_true_eq]
    rcases category_cases hr with ⟨hgpu, hprefix⟩ | ⟨hgpu, heq⟩
    · rw [hgpu]
      refine iff_of_false (fun heq => ?_) (by simp)
      rw [heq] at hprefix
      exact absurd hprefix (by decide)
    · exact iff_of_true heq (by rw [hgpu]; rfl)
  have hpresent : (realRecords env events).countP (fun r =>
      (r.stack?.map fun fs => fs.map StackFrame.value).isSome) =
        (realRecords env events).countP fun r => r.stack?.isSome :=
    List.countP_congr fun r _ => by rw [Option.isSome_map]
  have hnonempty : (realRecords env events).countP (fun r =>
      (r.stack?.map fun fs => fs.map StackFrame.value).elim false fun fs => !fs.isEmpty) =
        (realRecords env events).countP Record.HasFrames := by
    refine List.countP_congr fun r _ => ?_
    rw [Record.HasFrames]
    cases r.stack? with
    | none => rfl
    | some fs => cases fs <;> rfl
  rw [hstats]
  rw [show (dueRecords env events).filter _ = realRecords env events from rfl, hgpu, hcpu,
    hpresent, hnonempty]
  rfl

/-- The categories of the later phases do not occur: they start with other letters. -/
theorem notMem_ofRecords_categories {env : StackEnv} {events : List UnifiedEvent}
    (numTruthy : Bytes → Bool) (total : ℕ) {s t : PyStr}
    (ht : t ∈ (AgentState.ofRecords numTruthy total (realRecords env events)).categories)
    (hst : s <+: t) (hlen : s.length = 3) (hgpu : ¬ s <+: pyStr "gpu")
    (hcpu : ¬ s <+: pyStr "cpu") : False := by
  obtain ⟨r, hr, rfl⟩ := List.mem_map.mp (List.mem_toFinset.mp ht)
  rcases category_cases hr with ⟨-, hprefix⟩ | ⟨-, heq⟩
  · exact hgpu (List.prefix_of_prefix_length_le hst hprefix hlen.le)
  · rw [heq] at hst
    exact hcpu hst

/-- Numbers sort; what remains is the estimate. -/
theorem reportRaises_ofRecords_iff (numTruthy : Bytes → Bool) (total : ℕ) (rs : List Record)
    (iters : ℤ) :
    reportRaises (.ofRecords numTruthy total rs) iters = true ↔ ¬ EstimateDefined iters := by
  have hsorted : pySorted (AgentState.ofRecords numTruthy total rs).pids = .ok () := by
    rw [pySorted, if_neg]
    rintro ⟨hstr, -⟩
    obtain ⟨v, hv, hstr⟩ := List.any_eq_true.mp hstr
    obtain ⟨text, -, rfl⟩ := List.mem_map.mp hv
    cases hstr
  rw [reportRaises, hsorted, EstimateDefined, not_and_or, not_ne_iff, Nat.not_lt, or_comm]
  simp

/-- What the first phase looks for in the statistics, told from the records. -/
theorem ofRecords_foundation (numTruthy : Bytes → Bool) (total : ℕ) (rs : List Record) :
    (0 < (AgentState.ofRecords numTruthy total rs).eventsReal ∧
      pyStr "gpu_compute" ∈ (AgentState.ofRecords numTruthy total rs).categories ∧
      20 ≤ (AgentState.ofRecords numTruthy total rs).gpuEventCount ∧
      0 < (AgentState.ofRecords numTruthy total rs).stackPresentCount ∧
      0 < (AgentState.ofRecords numTruthy total rs).stackNonemptyCount) ↔ Foundation rs := by
  have hcompute : pyStr "gpu_compute" ∈ (AgentState.ofRecords numTruthy total rs).categories ↔
      ∃ r ∈ rs, units r.category = pyStr "gpu_compute" :=
    List.mem_toFinset.trans List.mem_map
  have hresolved : 0 < (AgentState.ofRecords numTruthy total rs).stackNonemptyCount ↔
      ∃ r ∈ rs, r.HasFrames = true := List.countP_pos_iff
  rw [hcompute, hresolved]
  constructor
  · rintro ⟨-, hcompute, hgpu, -, hresolved⟩
    exact ⟨hgpu, hcompute, hresolved⟩
  · rintro ⟨hgpu, hcompute, r, hr, hframes⟩
    refine ⟨List.length_pos_of_mem hr, hcompute, hgpu, List.countP_pos_iff.mpr ⟨r, hr, ?_⟩,
      r, hr, hframes⟩
    rw [Record.HasFrames] at hframes
    cases hstack : r.stack? with
    | none => rw [hstack] at hframes; cases hframes
    | some fs => rfl

/-- The first phase has a failure unless everything is there that it asks for. -/
theorem exists_fail_iff (st : AgentState) :
    (∃ r ∈ phase0Assertions st, r.status = .fail) ↔
      ¬ (0 < st.eventsReal ∧ pyStr "gpu_compute" ∈ st.categories ∧ 20 ≤ st.gpuEventCount ∧
        0 < st.stackPresentCount ∧ 0 < st.stackNonemptyCount) := by
  have hfail : ∀ (c : Prop) [Decidable c], passIf c .fail = .fail ↔ ¬ c := by
    intro c _
    rw [passIf]
    split
    · exact iff_of_false (by simp) (not_not.mpr ‹_›)
    · exact iff_of_true rfl ‹_›
  simp only [phase0Assertions, List.mem_cons, List.not_mem_nil, or_false, exists_eq_or_imp,
    exists_eq_left, hfail]
  tauto

/-- Assertions that are not pending pass or fail. -/
theorem countP_status {rs : List AssertResult} (h : ∀ r ∈ rs, r.status ≠ .pend) :
    rs.countP (fun r => r.status = .pass) + rs.countP (fun r => r.status = .fail) =
      rs.length ∧ rs.countP (fun r => r.status = .pend) = 0 := by
  induction rs with
  | nil => exact ⟨rfl, rfl⟩
  | cons r rs ih =>
      obtain ⟨hr, hrs⟩ := List.forall_mem_cons.mp h
      obtain ⟨hdone, hpend⟩ := ih hrs
      simp only [List.countP_cons, List.length_cons, decide_eq_true_eq]
      cases hstatus : r.status with
      | pass => exact ⟨by simp; omega, by simpa using hpend⟩
      | fail => exact ⟨by simp; omega, by simpa using hpend⟩
      | pend => exact absurd hstatus hr

/-- Without the categories of the later phases their eight assertions are pending, and the other
five pass or fail. -/
theorem tally_of_no_later {st : AgentState} (hnet : ¬ st.HasNet)
    (hsubprocess : pyStr "subprocess" ∉ st.categories) (hdisk : pyStr "disk" ∉ st.categories) :
    st.tally .pend = 8 ∧ st.tally .pass + st.tally .fail = 5 := by
  have hfirst : ∀ r ∈ phase0Assertions st, r.status ≠ .pend := by
    have hstatus : ∀ (c : Prop) [Decidable c], passIf c .fail ≠ .pend := by
      intro c _
      rw [passIf]
      split
      · exact nofun
      · exact nofun
    simp only [phase0Assertions, List.forall_mem_cons]
    exact ⟨hstatus _, hstatus _, hstatus _, hstatus _, hstatus _, nofun⟩
  obtain ⟨hdone, hpend⟩ := countP_status hfirst
  have hlen : (phase0Assertions st).length = 5 := rfl
  simp only [AgentState.tally, phaseResults, List.countP_append, phase1Assertions,
    phase2Assertions, phase3Assertions, passIf, if_neg hnet, if_neg hsubprocess, if_neg hdisk,
    List.countP_cons, List.countP_nil]
  exact ⟨by rw [hpend]; rfl, hdone⟩

/-- **The report agrees with the tracer.** On every readable trace file the script never ends with
status `2`. It counts all records, those that are no names of rows, those of the CUDA calls and of
the scheduler, and those with a stack and with a resolved one; the eight assertions of the later
phases are pending, whatever was traced; and the status is `0` exactly if twenty CUDA calls were
recorded, one of them a launch, and a stack was resolved, for any number of iterations for which
there is an estimate. -/
theorem agentReport_traceFile {env : StackEnv} {events : List UnifiedEvent}
    (h : ReadableTrace env events) {loads : Bytes → Except LoadError Value}
    (hloads : LoadsDocument loads (fileText (traceFile env events)))
    (numTruthy : Bytes → Bool) {numFits : Bytes → Bool}
    (hfits : ∀ text : Bytes, 0x2E ∈ text → numFits text = true) (iters : ℤ) :
    (agentReport loads numTruthy numFits iters (some (fileText (traceFile env events))) = 0 ↔
        EstimateDefined iters ∧ Foundation (realRecords env events)) ∧
      agentReport loads numTruthy numFits iters (some (fileText (traceFile env events))) ≠ 2 ∧
      ∃ st, parseTrace numTruthy numFits (traceValue env events) = .ok st ∧
        st.eventsTotal = (dueRecords env events).length ∧
        st.eventsReal = (realRecords env events).length ∧
        st.gpuEventCount = (realRecords env events).countP Record.IsGpu ∧
        st.cpuEventCount = (realRecords env events).countP (fun r => !r.IsGpu) ∧
        st.stackPresentCount = (realRecords env events).countP (fun r => r.stack?.isSome) ∧
        st.stackNonemptyCount = (realRecords env events).countP Record.HasFrames ∧
        st.tally .pend = 8 ∧ st.tally .pass + st.tally .fail = 5 := by
  have hparse := @parseTrace_traceValue env events numTruthy numFits hfits
  have hreport : agentReport loads numTruthy numFits iters
      (some (fileText (traceFile env events))) =
        if reportRaises (.ofRecords numTruthy (dueRecords env events).length
          (realRecords env events)) iters = true then 1
        else if ∃ r ∈ phase0Assertions (.ofRecords numTruthy (dueRecords env events).length
          (realRecords env events)), r.status = .fail then 1
        else 0 := by
    simp only [agentReport, hloads _ h.isDocument, hparse]
  have hraises := reportRaises_ofRecords_iff numTruthy (dueRecords env events).length
    (realRecords env events) iters
  have hfails := (exists_fail_iff (.ofRecords numTruthy (dueRecords env events).length
    (realRecords env events))).trans (not_congr (ofRecords_foundation ..))
  rw [hreport]
  refine ⟨?_, ?_, _, hparse, rfl, rfl, rfl, rfl, rfl, rfl, tally_of_no_later ?_ ?_ ?_⟩
  · by_cases hestimate : EstimateDefined iters
    · rw [if_neg (mt hraises.mp (not_not.mpr hestimate))]
      by_cases hfound : Foundation (realRecords env events)
      · rw [if_neg (mt hfails.mp (not_not.mpr hfound))]
        exact iff_of_true rfl ⟨hestimate, hfound⟩
      · rw [if_pos (hfails.mpr hfound)]
        exact iff_of_false Nat.one_ne_zero fun hall => hfound hall.2
    · rw [if_pos (hraises.mpr hestimate)]
      exact iff_of_false Nat.one_ne_zero fun hall => hestimate hall.1
  · split_ifs <;> omega
  · rintro (hnet | ⟨c, hc, hnet⟩)
    · exact notMem_ofRecords_categories _ _ hnet (List.prefix_refl _) rfl (by decide) (by decide)
    · exact notMem_ofRecords_categories _ _ hc (List.isPrefixOf_iff_prefix.mp hnet) rfl
        (by decide) (by decide)
  · exact fun hmem => notMem_ofRecords_categories (s := pyStr "sub") _ _ hmem
      ⟨pyStr "process", rfl⟩ rfl (by decide) (by decide)
  · exact fun hmem => notMem_ofRecords_categories (s := pyStr "dis") _ _ hmem
      ⟨pyStr "k", rfl⟩ rfl (by decide) (by decide)

/-- Stacks of one address, without a symbolizer. -/
def rawStacks : StackEnv :=
  { StackEnv.noStacks with stackMap := some fun _ => some fun k => if k.val = 0 then 0x1000 else 0 }

/-- Twenty launches of a kernel with a stack. -/
def twentyLaunches : List UnifiedEvent :=
  List.replicate 20 (.gpu { CudaEvent.streamSyncAt 7 7 5 0x10 with
    opType := CudaOp.launchKernel.code, stackId := 3 })

/-- Twenty launches with a stack are a success. -/
theorem agentReport_traceFile_twenty_launches :
    agentReport (loadsTrace rawStacks twentyLaunches) (fun _ => true) (0x2E ∈ ·) 10
        (some (fileText (traceFile rawStacks twentyLaunches))) = 0 ∧
      ∃ st, parseTrace (fun _ => true) (0x2E ∈ ·) (traceValue rawStacks twentyLaunches) = .ok st ∧
        st.eventsTotal = 20 ∧ st.gpuEventCount = 20 ∧ st.cpuEventCount = 0 ∧
        st.stackNonemptyCount = 20 := by
  have hread : ReadableTrace rawStacks twentyLaunches := by
    refine readableTrace_of_nameless (printableFrames_of_names fun _ _ _ _ hrs => ?_) (by decide)
    exact absurd hrs (by simp [rawStacks, StackEnv.noStacks])
  have hfound : Foundation (realRecords rawStacks twentyLaunches) :=
    ⟨by decide, by decide, by decide⟩
  obtain ⟨hstatus, -, st, hparse, htotal, -, hgpu, hcpu, -, hframes, -⟩ :=
    agentReport_traceFile hread hread.loadsDocument (fun _ => true)
      (fun _ hdot => decide_eq_true hdot) 10
  refine ⟨hstatus.mpr ⟨⟨by decide, by decide⟩, hfound⟩, st, hparse, htotal.trans (by decide),
    hgpu.trans (by decide), hcpu.trans (by decide), hframes.trans (by decide)⟩

end UnifiedTrace
