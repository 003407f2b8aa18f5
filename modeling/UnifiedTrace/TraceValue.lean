import UnifiedTrace.NameText
import UnifiedTrace.WellFormed

/-!
# What the Trace File Says

The contents of the trace file as a JSON value, told from the collected events alone: which
records are due for an event depends on the events before it, and each record has its members.
The file of `output_chrome_tracing_json` parses as this value.

## Main results

* `startTime_add_sinceStart`: times in the trace do not wrap around.
* `fileRecords_traceFile_eq`: the loop emits the records that are due, at their times since the
  start of the trace.
* `Record.reads_value`: the text of a record reads as its value.
* `parsesAs_traceValue_iff`: the file parses as it should exactly when the task names that are
  printed are UTF-8.
-/

namespace UnifiedTrace

open Binary64 Json Printf Utf8

/-! ### Records as values -/

/-- A member whose value is an ASCII string. -/
def strMember (key text : Bytes) : List UInt16 × Json.Value := (units key, .str (units text))

/-- A member whose value is a number. -/
def numMember (key text : Bytes) : List UInt16 × Json.Value := (units key, .num text)

/-- The times that are shown to the nanosecond: up to `2 ^ 43` microseconds, a hundred days. -/
def exactTimes : ℕ := 2 ^ 43 * 1000

/-- A number of nanoseconds in microseconds. Longer times are shown as their nearest double is. -/
def microseconds (ns : UInt64) : Bytes :=
  if ns.toNat ≤ exactTimes then point 3 ns.toNat else fixed 3 (.ofNat ns.toNat / .ofNat 1000)

/-- A member whose value is a time. -/
def timeMember (key : Bytes) (ns : UInt64) : List UInt16 × Json.Value :=
  numMember key (microseconds ns)

/-- The value of an element of a stack: its strings as they are. -/
def StackFrame.value : StackFrame → Json.Value
  | addr a => .obj [strMember (ascii "addr") (ascii "0x" ++ hex a.toNat)]
  | resolved frame =>
      frame.value (units frame.shownSym) (units (cString frame.file)) (units (cString frame.lib))

/-- The value of a stack: its elements in order. -/
def stackValue (stack : Option (List StackFrame)) : Option Json.Value :=
  stack.map fun frames => .arr (frames.map StackFrame.value)

/-- The value of a record. -/
def Record.value : Record → Json.Value
  | cpuThreadName pid tid comm =>
      .obj [strMember (ascii "name") (ascii "thread_name"), strMember (ascii "ph") (ascii "M"),
        numMember (ascii "pid") (u32 pid), numMember (ascii "tid") (u32 tid),
        (units (ascii "args"), .obj [(units (ascii "name"), .str
          (units (ascii "CPU [") ++ (textUnits comm.bytes ++ units (ascii "]"))))])]
  | gpuThreadName pid tid =>
      .obj [strMember (ascii "name") (ascii "thread_name"), strMember (ascii "ph") (ascii "M"),
        numMember (ascii "pid") (u32 pid), numMember (ascii "tid") (u32 tid),
        (units (ascii "args"), .obj [strMember (ascii "name") (ascii "GPU (CUDA)")])]
  | begin ts pid tid cpu comm stack =>
      .obj [strMember (ascii "name") (ascii "On-CPU"), strMember (ascii "cat") (ascii "cpu"),
        strMember (ascii "ph") (ascii "B"), timeMember (ascii "ts") ts,
        numMember (ascii "pid") (u32 pid), numMember (ascii "tid") (u32 tid),
        (units (ascii "args"), .obj (numMember (ascii "cpu") (u32 cpu) ::
          (units (ascii "comm"), .str (textUnits comm.bytes)) ::
            stackMembers (stackValue stack)))]
  | finish ts pid tid duration state =>
      .obj [strMember (ascii "name") (ascii "On-CPU"), strMember (ascii "cat") (ascii "cpu"),
        strMember (ascii "ph") (ascii "E"), timeMember (ascii "ts") ts,
        numMember (ascii "pid") (u32 pid), numMember (ascii "tid") (u32 tid),
        (units (ascii "args"), .obj [timeMember (ascii "duration_us") duration,
          numMember (ascii "state") (u64 state)])]
  | instant ts pid tid =>
      .obj [strMember (ascii "name") (ascii "Wakeup"), strMember (ascii "cat") (ascii "cpu"),
        strMember (ascii "ph") (ascii "i"), timeMember (ascii "ts") ts,
        numMember (ascii "pid") (u32 pid), numMember (ascii "tid") (u32 tid),
        strMember (ascii "s") (ascii "t")]
  | complete r =>
      .obj [strMember (ascii "name") r.name, strMember (ascii "cat") r.cat,
        strMember (ascii "ph") (ascii "X"), timeMember (ascii "ts") r.ts,
        timeMember (ascii "dur") r.dur, numMember (ascii "pid") (u32 r.pid),
        numMember (ascii "tid") (u32 r.tid),
        (units (ascii "args"), .obj (numMember (ascii "ret") (signed r.ret.toInt) ::
          (units (ascii "comm"), .str (textUnits r.comm.bytes)) ::
            cudaMembers r (stackValue r.stack)))]

/-! ### The records that are due -/

/-- The earliest time of the events. -/
def startTime (events : List UnifiedEvent) : ℕ :=
  (events.map fun e => e.timestamp.toNat).min?.getD 0

/-- The time since the start of the trace. -/
def sinceStart (start : ℕ) (timestamp : UInt64) : UInt64 := .ofNat (timestamp.toNat - start)

/-- The record shown at a time. -/
def Record.atTime (ts : UInt64) : Record → Record
  | begin _ pid tid cpu comm stack => .begin ts pid tid cpu comm stack
  | finish _ pid tid duration state => .finish ts pid tid duration state
  | instant _ pid tid => .instant ts pid tid
  | complete r => .complete { r with ts }
  | r => r

/-- The names of the rows, which the first CPU event gives. -/
def dueNames (pre : List UnifiedEvent) : UnifiedEvent → List Record
  | .cpu cpu =>
      if pre.any fun e => e.cpu?.isSome then []
      else [.cpuThreadName cpu.pid cpu.tid cpu.comm, .gpuThreadName cpu.pid (cpu.tid + 1000000)]
  | .gpu _ => []

/-- When the span that the events leave open on a thread id began; `0` when none is open. -/
def openAfter (pre : List UnifiedEvent) (tid : UInt32) : UInt64 :=
  openSince (pre.filterMap (UnifiedEvent.mark? tid))

/-- The record of an event, other than the names of the rows, at its time since the start. -/
def dueOwn (env : StackEnv) (start : ℕ) (pre : List UnifiedEvent) (e : UnifiedEvent) :
    Option Record :=
  (ownRecord? env 0 pre.length (openAfter pre) e).map
    (Record.atTime (sinceStart start e.timestamp))

/-- The records that are due for events after the events before them. -/
def dueFrom (env : StackEnv) (start : ℕ) (pre : List UnifiedEvent) :
    List UnifiedEvent → List Record
  | [] => []
  | e :: events =>
      dueNames pre e ++ (dueOwn env start pre e).toList ++ dueFrom env start (pre ++ [e]) events

/-- The records that are due. -/
def dueRecords (env : StackEnv) (events : List UnifiedEvent) : List Record :=
  dueFrom env (startTime events) [] events

/-- What the file should say. -/
def traceValue (env : StackEnv) (events : List UnifiedEvent) : Json.Value :=
  .obj [(units (ascii "traceEvents"), .arr ((dueRecords env events).map Record.value)),
    strMember (ascii "displayTimeUnit") (ascii "ms"),
    (units (ascii "metadata"), .obj [numMember (ascii "event_count") (decimal events.length),
      strMember (ascii "tool") (ascii "ebpf-unified-trace")])]

/-! ### Times -/

/-- The loop that finds `min_timestamp` finds the earliest time. -/
theorem toNat_minTimestamp {events : List UnifiedEvent} (h : events ≠ []) :
    (minTimestamp events).toNat = startTime events := by
  have hmin : ∀ t m : UInt64, (if t < m then t else m).toNat = min m.toNat t.toNat := by
    intro t m
    split
    · rename_i hlt
      exact (Nat.min_eq_right (Nat.le_of_lt hlt)).symm
    · rename_i hle
      exact (Nat.min_eq_left (Nat.le_of_not_lt hle)).symm
  have hfold : ∀ (l : List UnifiedEvent) (m : UInt64),
      (l.foldl (fun m e => if e.timestamp < m then e.timestamp else m) m).toNat =
        (l.map fun e => e.timestamp.toNat).foldl min m.toNat := by
    intro l
    induction l with
    | nil => exact fun m => rfl
    | cons e l ih =>
        intro m
        rw [List.foldl_cons, ih, hmin, List.map_cons, List.foldl_cons]
  obtain ⟨e, events, rfl⟩ := List.exists_cons_of_ne_nil h
  have hle : e.timestamp.toNat ≤ (0xFFFFFFFFFFFFFFFF : UInt64).toNat :=
    Nat.le_of_lt_succ (UInt64.toNat_lt_size e.timestamp)
  rw [minTimestamp, hfold, startTime, List.map_cons, List.foldl_cons, Nat.min_eq_right hle,
    List.min?_cons', Option.getD_some]

/-- Differences to a lower bound do not wrap around. -/
theorem sub_eq_sinceStart {m t : UInt64} (h : m ≤ t) : t - m = sinceStart m.toNat t := by
  have hlt : t.toNat - m.toNat < UInt64.size :=
    Nat.lt_of_le_of_lt (Nat.sub_le ..) t.toNat_lt_size
  rw [← UInt64.toNat_inj, UInt64.toNat_sub_of_le _ _ h, sinceStart,
    UInt64.toNat_ofNat_of_lt' hlt]

/-- **Times in the trace are exact**: added to the earliest time they give the event's own. -/
theorem startTime_add_sinceStart {events : List UnifiedEvent} {e : UnifiedEvent}
    (he : e ∈ events) :
    startTime events + (sinceStart (startTime events) e.timestamp).toNat = e.timestamp.toNat := by
  have hle : minTimestamp events ≤ e.timestamp := minTimestamp_le he
  rw [← toNat_minTimestamp (List.ne_nil_of_mem he), ← sub_eq_sinceStart hle,
    UInt64.toNat_sub_of_le _ _ hle]
  exact Nat.add_sub_cancel' (UInt64.le_iff_toNat_le.mp hle)

/-- The time of a record is all that depends on the start of the trace. -/
theorem ownRecord?_eq_map (env : StackEnv) (m : UInt64) (i : ℕ) (onTime : UInt32 → UInt64)
    (e : UnifiedEvent) :
    ownRecord? env m i onTime e =
      (ownRecord? env 0 i onTime e).map (Record.atTime (e.timestamp - m)) := by
  cases e with
  | gpu gpu => rfl
  | cpu cpu =>
      rw [ownRecord?, ownRecord?, cpuRecord?, cpuRecord?]
      split
      · rfl
      · split
        · split
          · rfl
          · rfl
        · split
          · rfl
          · rfl

/-! ### The loop emits what is due -/

/-- The row names are written with the first CPU event. -/
theorem threadNameWritten_emitEvents (env : StackEnv) (m : UInt64) (i : ℕ) (st : EmitState)
    (events : List UnifiedEvent) :
    (emitEvents env m i st events).2.threadNameWritten =
      (st.threadNameWritten || events.any fun e => e.cpu?.isSome) := by
  induction events generalizing i st with
  | nil => exact (Bool.or_false _).symm
  | cons e events ih =>
      rw [emitEvents, ih, threadNameWritten_emitEvent, List.any_cons, Bool.or_assoc]

/-- The loop writes the names that are due. -/
theorem rowNames_eq_dueNames {st : EmitState} {pre : List UnifiedEvent}
    (h : st.threadNameWritten = pre.any fun e => e.cpu?.isSome) (e : UnifiedEvent) :
    rowNames st e = dueNames pre e := by
  cases e with
  | gpu gpu => rfl
  | cpu cpu => rw [rowNames, dueNames, h]

/-- Only the open span of the event's own thread id matters, and only if it is tracked. -/
theorem ownRecord?_congr {onTime onTime' : UInt32 → UInt64}
    (h : ∀ tid < cpuOnTimeLen, onTime tid = onTime' tid) (env : StackEnv) (m : UInt64) (i : ℕ)
    (e : UnifiedEvent) : ownRecord? env m i onTime e = ownRecord? env m i onTime' e := by
  cases e with
  | gpu gpu => rfl
  | cpu cpu =>
      rw [ownRecord?, ownRecord?, cpuRecord?, cpuRecord?]
      rcases em (cpu.tid < cpuOnTimeLen) with htid | htid
      · rw [h cpu.tid htid]
      · simp only [htid, false_and, if_false]

/-- One round emits the records that are due for its event. -/
theorem fileRecords_emitEvent_eq (env : StackEnv) (m : UInt64) (pre : List UnifiedEvent)
    {e : UnifiedEvent} (h : m ≤ e.timestamp) :
    fileRecords (emitEvent env m pre.length (emitEvents env m 0 .init pre).2 e).1 =
      dueNames pre e ++ (dueOwn env m.toNat pre e).toList := by
  have hopen : ∀ tid < cpuOnTimeLen,
      (emitEvents env m 0 .init pre).2.cpuOnTime tid = openAfter pre tid :=
    fun tid htid => cpuOnTime_emitEvents htid env m pre
  rw [fileRecords_emitEvent, rowNames_eq_dueNames (threadNameWritten_emitEvents ..), dueOwn,
    ← sub_eq_sinceStart h, ← ownRecord?_eq_map, ownRecord?_congr hopen]

/-- The rounds after some events emit the records that are due after them. -/
theorem fileRecords_emitEvents_eq (env : StackEnv) (m : UInt64) (pre : List UnifiedEvent)
    {events : List UnifiedEvent} (h : ∀ e ∈ events, m ≤ e.timestamp) :
    fileRecords (emitEvents env m pre.length (emitEvents env m 0 .init pre).2 events).1 =
      dueFrom env m.toNat pre events := by
  induction events generalizing pre with
  | nil => rfl
  | cons e events ih =>
      obtain ⟨he, hevents⟩ := List.forall_mem_cons.mp h
      have hstate : (emitEvents env m 0 .init (pre ++ [e])).2 =
          (emitEvent env m pre.length (emitEvents env m 0 .init pre).2 e).2 := by
        rw [emitEvents_append, Nat.zero_add]
        rfl
      have hrest := ih (pre ++ [e]) hevents
      rw [List.length_append, List.length_singleton, hstate] at hrest
      rw [emitEvents, fileRecords_append, fileRecords_emitEvent_eq env m pre he, hrest, dueFrom]

/-- **The loop emits the records that are due.** -/
theorem fileRecords_traceFile_eq (env : StackEnv) (events : List UnifiedEvent) :
    fileRecords (traceFile env events) = dueRecords env events := by
  rw [fileRecords_traceFile, dueRecords]
  rcases eq_or_ne events [] with rfl | hne
  · rfl
  · rw [← toNat_minTimestamp hne]
    exact fileRecords_emitEvents_eq env (minTimestamp events) [] fun e he => minTimestamp_le he

/-! ### Reading records -/

/-- The strings of an element are ASCII without control bytes. -/
def StackFrame.IsPrintable : StackFrame → Prop
  | addr _ => True
  | resolved frame => ∀ s ∈ [cString frame.sym, cString frame.file, cString frame.lib],
      UnifiedTrace.IsPrintable s

/-- The strings of all frames are ASCII without control bytes. -/
def StackEnv.PrintableFrames (env : StackEnv) : Prop :=
  ∀ i stackId pid, ∀ frame ∈ emitStackJson env i stackId pid, frame.IsPrintable

/-- The strings of an element leave room for the NUL byte. -/
def StackFrame.Fits : StackFrame → Prop
  | addr _ => True
  | resolved frame => ∀ s ∈ [cString frame.sym, cString frame.file, cString frame.lib],
      s.length < bswStrMax

/-- What a printed element is made from: an address, or the names of a frame in an answer of the
symbolizer. -/
theorem of_mem_emitStackJson {env : StackEnv} {i : ℕ} {stackId : Int32} {pid : UInt32}
    {frame : StackFrame} (h : frame ∈ emitStackJson env i stackId pid) :
    (∃ a, frame = .addr a) ∨ ∃ f names, frame = .resolved f ∧ f.Holds names ∧
      ∃ rs ∈ env.symbolize i pid (shownAddrs env stackId), ∃ res ∈ rs,
        names ∈ res.frameNames := by
  rcases em (env.symbolizeEnabled ∧ env.symbolizer ∧ env.calloc i) with hon | hoff
  · rw [emitStackJson_eq hon.1 hon.2.1 hon.2.2, filled_bswResolve] at h
    obtain ⟨f, hf, rfl⟩ := List.mem_map.mp h
    obtain ⟨pair, hpair, hframe⟩ := List.mem_flatMap.mp (List.mem_of_mem_take hf)
    obtain ⟨names, hnames, hholds⟩ := (holds_framesOf pair).exists_of_mem hframe
    refine .inr ⟨f, names, rfl, hholds, ?_⟩
    have hres := (List.of_mem_zip (a := pair.1) (b := pair.2) hpair).2
    cases hrs : env.symbolize i pid (shownAddrs env stackId) with
    | none => exact absurd (hrs ▸ hres) List.not_mem_nil
    | some rs => exact ⟨rs, rfl, pair.2, by rwa [hrs] at hres, hnames⟩
  · exact .inl (exists_addr_of_mem_emitStackJson hoff h)

/-- A string that went through `copy_str` is a part of the name that fits. -/
theorem mem_of_mem_cString_copyStr {name : Bytes} {b : UInt8}
    (h : b ∈ cString (copyStr (List.replicate bswStrMax 0) name)) : b ∈ name := by
  rw [take_cString_copyStr] at h
  exact List.mem_of_mem_take ((List.takeWhile_sublist _).subset h)

/-- A name that was copied is shorter than its field. -/
theorem length_cString_copyStr (name : Bytes) :
    (cString (copyStr (List.replicate bswStrMax 0) name)).length < bswStrMax := by
  have hprefix := (List.takeWhile_prefix (· ≠ 0) (l := name.take (bswStrMax - 1))).length_le
  have hpos : 0 < bswStrMax := by decide
  rw [List.length_take] at hprefix
  rw [take_cString_copyStr]
  omega

/-- The strings of printed elements fit into their arrays. -/
theorem fits_of_mem_emitStackJson {env : StackEnv} {i : ℕ} {stackId : Int32} {pid : UInt32}
    {frame : StackFrame} (h : frame ∈ emitStackJson env i stackId pid) : frame.Fits := by
  rcases of_mem_emitStackJson h with ⟨a, rfl⟩ | ⟨f, names, rfl, hholds, -⟩
  · exact trivial
  · intro s hs
    rw [hholds] at hs
    obtain ⟨name, -, rfl⟩ := List.mem_map.mp hs
    exact length_cString_copyStr name

/-- The strings are printable where the names of the symbolizer are. -/
theorem printableFrames_of_names {env : StackEnv}
    (h : ∀ i pid addrs, ∀ rs ∈ env.symbolize i pid addrs, ∀ res ∈ rs,
      ∀ names ∈ res.frameNames, ∀ s ∈ names.texts, IsPrintable s) : env.PrintableFrames := by
  intro i stackId pid frame hframe
  rcases of_mem_emitStackJson hframe with
    ⟨a, rfl⟩ | ⟨f, names, rfl, hholds, rs, hrs, res, hres, hnames⟩
  · exact trivial
  · intro s hs
    rw [hholds] at hs
    obtain ⟨name, hname, rfl⟩ := List.mem_map.mp hs
    exact fun b hb => h i pid _ rs hrs res hres names hnames name hname b
      (mem_of_mem_cString_copyStr hb)

/-- An element reads as its value. -/
theorem StackFrame.reads_value {frame : StackFrame} (hprint : frame.IsPrintable)
    (hfits : frame.Fits) : Reads frame.text frame.value := by
  cases frame with
  | addr a => exact reads_addr a
  | resolved frame =>
      have hdenotes : ∀ s ∈ [cString frame.sym, cString frame.file, cString frame.lib],
          Denotes (escapedField s) (units s) := fun s hs =>
        denotes_escapedField_of_isPrintable (hprint s hs) (hfits s hs)
      refine reads_resolved ?_ (hdenotes _ (by simp)) (hdenotes _ (by simp))
      rw [BswFrame.shownSym]
      split
      · exact hdenotes _ (by simp)
      · exact denotes_escapedField_of_isPrintable (by decide) (by decide)

/-- A printed stack reads as its elements in order. -/
theorem reads_emitStackJson {env : StackEnv} (henv : env.PrintableFrames) (i : ℕ)
    (stackId : Int32) (pid : UInt32) : Reads (stackText (emitStackJson env i stackId pid))
      (.arr ((emitStackJson env i stackId pid).map StackFrame.value)) := by
  refine reads_stackText (List.forall₂_map_right_iff.mpr (List.forall₂_same.mpr ?_))
  exact fun frame hframe => frame.reads_value (henv i stackId pid frame hframe)
    (fits_of_mem_emitStackJson hframe)

/-- **Times are printed to the nanosecond** as long as they are below a hundred days. -/
theorem micros_eq (ns : UInt64) : micros ns = microseconds ns := by
  rw [microseconds]
  split
  · rename_i hexact
    exact fixed_ofNat_div_pow (k := 43) (by decide) hexact
      (Nat.lt_of_le_of_lt hexact (by decide)) (by decide)
  · rfl

/-- One nanosecond later the last digit is wrong. -/
example : micros (.ofNat (exactTimes + 1)) ≠ point 3 (exactTimes + 1) := by decide +kernel

/-- A time has a decimal point. -/
theorem point_mem_microseconds (ns : UInt64) : 0x2E ∈ microseconds ns := by
  rw [← micros_eq]
  exact List.mem_append_right _ List.mem_cons_self

/-- **The text of a record reads as its value**, if its task name is UTF-8 and contains nothing
to escape. -/
theorem Record.reads_value {r : Record} (hnames : r.NamesPlain)
    (hstack : ReadsStack r.stack? (stackValue r.stack?))
    (hcomm : ∀ comm ∈ r.comm?, IsUtf8 comm.bytes ∧ NoEscape comm.bytes) :
    Reads r.body r.value := by
  have hdenotes : ∀ comm ∈ r.comm?, Denotes comm.bytes (textUnits comm.bytes) :=
    fun comm hmem => .of_isUtf8 (hcomm comm hmem).1 (hcomm comm hmem).2
  cases r with
  | cpuThreadName pid tid comm =>
      have hname : Denotes (ascii "CPU [" ++ (comm.bytes ++ ascii "]"))
          (units (ascii "CPU [") ++ (textUnits comm.bytes ++ units (ascii "]"))) :=
        (Denotes.of_isPlain (by decide)).append
          ((hdenotes comm rfl).append (.of_isPlain (by decide)))
      exact (showsBetween_cpuThreadName pid tid comm).reads (by decide) hname
  | gpuThreadName pid tid =>
      exact (showsBetween_gpuThreadName pid tid).reads (by decide) (.of_isPlain (by decide))
  | begin ts pid tid cpu comm stack =>
      have hreads := (showsBetween_begin ts pid tid cpu comm hstack).reads (by decide)
        (hdenotes comm rfl)
      rw [value, timeMember, ← micros_eq]
      exact hreads
  | finish ts pid tid duration state =>
      rw [value, timeMember, timeMember, ← micros_eq, ← micros_eq]
      exact reads_finish ts pid tid duration state
  | instant ts pid tid =>
      rw [value, timeMember, ← micros_eq]
      exact reads_instant ts pid tid
  | complete r =>
      have hreads := (showsBetween_complete hnames.1 hnames.2 hstack).reads (by decide)
        (hdenotes r.comm rfl)
      rw [value, timeMember, timeMember, ← micros_eq, ← micros_eq]
      exact hreads

/-- The names of the record need no escape and its stack reads as its value. -/
def Record.Readable (r : Record) : Prop :=
  r.NamesPlain ∧ ReadsStack r.stack? (stackValue r.stack?)

/-- The records that are due are readable. -/
theorem readable_of_mem_dueRecords {env : StackEnv} (henv : env.PrintableFrames)
    {events : List UnifiedEvent} {r : Record} (h : r ∈ dueRecords env events) : r.Readable := by
  rw [← fileRecords_traceFile_eq, fileRecords_traceFile] at h
  obtain ⟨hnames, hstack⟩ := made_of_mem_emitEvents h
  refine ⟨hnames, ?_⟩
  cases hshown : r.stack? with
  | none => exact .none
  | some frames =>
      obtain ⟨i, stackId, pid, rfl⟩ := hstack frames hshown
      exact .some (reads_emitStackJson henv i stackId pid)

/-! ### Reading the file -/

/-- The file reads as what it should say, if its records read as their values. -/
theorem isDocument_traceValue {env : StackEnv} {events : List UnifiedEvent}
    (h : ∀ r ∈ dueRecords env events, Reads r.body r.value) :
    IsDocument (fileText (traceFile env events)) (traceValue env events) := by
  have hrecords : List.Forall₂ (fun r v => Reads r.body v) (dueRecords env events)
      ((dueRecords env events).map Record.value) :=
    List.forall₂_map_right_iff.mpr (List.forall₂_same.mpr h)
  rw [← fileRecords_traceFile_eq] at hrecords
  rw [traceValue, ← fileRecords_traceFile_eq]
  exact isDocument_traceFile (reads_recordsText hrecords)

/-! ### Task names and encoding -/

/-- The string that shows the task name of a record is UTF-8 only if the name is. -/
theorem exists_named_of_comm {r : Record} {comm : Comm} (h : comm ∈ r.comm?) :
    ∃ key text, r.named = some (key, text) ∧ (IsUtf8 text → IsUtf8 comm.bytes) := by
  cases r with
  | cpuThreadName pid tid comm =>
      obtain rfl := Option.some.inj h
      refine ⟨_, _, rfl, fun htext => ?_⟩
      rw [isUtf8_append_iff_of_lt (show IsAscii (ascii "CPU [") by decide)] at htext
      exact ((isUtf8_append_cons_iff (by decide : (0x5D : UInt8) < 0x80)).mp htext).1
  | begin | complete =>
      obtain rfl := Option.some.inj h
      exact ⟨_, _, rfl, id⟩
  | gpuThreadName | finish | instant => exact absurd h (by simp [Record.comm?])

/-- The task names in the records of a UTF-8 file are UTF-8. -/
theorem isUtf8_of_mem_fileRecords {file : List Piece} (h : IsUtf8 (fileText file)) {r : Record}
    (hr : r ∈ fileRecords file) (hmade : r.Readable) : ∀ comm ∈ r.comm?, IsUtf8 comm.bytes := by
  intro comm hcomm
  obtain ⟨piece, hpiece, hrecord⟩ := List.mem_filterMap.mp hr
  obtain rfl : piece = .record r := by
    cases piece with
    | lit text => exact absurd hrecord (by simp [Piece.record?])
    | record r' => rw [Option.some.inj hrecord]
  obtain ⟨pre, post, rfl⟩ := List.append_of_mem hpiece
  have htext : fileText (pre ++ .record r :: post) =
      fileText pre ++ (indent ++ (r.body ++ fileText post)) := by
    rw [fileText_append, ← List.append_assoc indent, ← r.text_eq]
    rfl
  rw [htext, isUtf8_append_append_iff (show IsAscii indent by decide) (by decide)] at h
  obtain ⟨key, text, hnamed, hname⟩ := exists_named_of_comm hcomm
  exact hname ((r.shows hmade.1 hmade.2 hnamed).isUtf8 h.2)

/-- Every task name that is printed is UTF-8. -/
def CommsUtf8 (events : List UnifiedEvent) : Prop :=
  (∀ cpu ∈ (events.filterMap UnifiedEvent.cpu?).head?, IsUtf8 cpu.comm.bytes) ∧
    ∀ e ∈ events, ∀ comm ∈ e.ownComm?, IsUtf8 comm.bytes

/-- The task names in the records are those of the events. -/
theorem forall_comm_dueRecords_iff (env : StackEnv) (events : List UnifiedEvent)
    (P : Comm → Prop) : (∀ r ∈ dueRecords env events, ∀ comm ∈ r.comm?, P comm) ↔
      (∀ cpu ∈ (events.filterMap UnifiedEvent.cpu?).head?, P cpu.comm) ∧
        ∀ e ∈ events, ∀ comm ∈ e.ownComm?, P comm := by
  rw [← fileRecords_traceFile_eq, fileRecords_traceFile, forall_comm_emitEvents]
  exact and_congr_left' (forall_prop_of_true rfl)

/-- The task names that a UTF-8 file shows are UTF-8. -/
theorem commsUtf8_of_isUtf8 {env : StackEnv} {events : List UnifiedEvent}
    (henv : env.PrintableFrames) (h : IsUtf8 (fileText (traceFile env events))) :
    CommsUtf8 events := by
  refine (forall_comm_dueRecords_iff env events fun comm => IsUtf8 comm.bytes).mp fun r hr => ?_
  refine isUtf8_of_mem_fileRecords h ?_ (readable_of_mem_dueRecords henv hr)
  rwa [fileRecords_traceFile_eq]

/-- **What the trace file says.** When no task name contains a byte to escape and the strings of
stack frames are printable, the file parses as the records that are due, field by field, if and
only if the task names that are printed are UTF-8. -/
theorem parsesAs_traceValue_iff {fopen calloc : Bool} {env : StackEnv}
    {events : List UnifiedEvent} {file : List Piece}
    (h : outputChromeTracingJson fopen calloc env events = .written file)
    (hcomms : ∀ e ∈ events, NoEscape e.comm.bytes) (henv : env.PrintableFrames) :
    ParsesAs (fileText file) (traceValue env events) ↔ CommsUtf8 events := by
  rw [traceFile_of_written h, parsesAs_iff]
  refine ⟨fun hdoc => commsUtf8_of_isUtf8 henv hdoc.isUtf8, fun hutf8 => ?_⟩
  have hencoded := (forall_comm_dueRecords_iff env events fun comm => IsUtf8 comm.bytes).mpr hutf8
  have hescape := (forall_comm_dueRecords_iff env events fun comm => NoEscape comm.bytes).mpr
    (forall_comm_of_forall_events (fun comm => NoEscape comm.bytes) hcomms)
  refine isDocument_traceValue fun r hr => ?_
  have hreadable := readable_of_mem_dueRecords henv hr
  exact r.reads_value hreadable.1 hreadable.2 fun comm hcomm =>
    ⟨hencoded r hr comm hcomm, hescape r hr comm hcomm⟩

/-- The switch-out of a span that began before the trace, a CUDA call, and a switch-in of a thread
with a stack and a name of one accented letter. -/
def threeEvents : List UnifiedEvent :=
  [.cpu { timestamp := 5, eventType := cpuSchedOff, pid := 7, tid := 7, cpu := 0, prevState := 1,
          stackId := -1, comm := .empty },
    .gpu (.streamSyncAt 7 7 6 0x10), switchInOf ⟨[0xC3, 0xA9], by decide, by decide⟩]

/-- Three events, one of them with quotes in a symbol of its stack. -/
theorem parsesAs_traceValue_iff_three_events :
    ParsesAs (fileText (traceFile quotesInSymbol threeEvents))
      (traceValue quotesInSymbol threeEvents) := by
  have hletter : IsUtf8 [0xC3, 0xA9] := isUtf8_iff.mpr ⟨[eAcute], by decide⟩
  have henv : quotesInSymbol.PrintableFrames := by
    refine printableFrames_of_names ?_
    intro i pid addrs rs hrs res hres names hnames
    obtain rfl := Option.some.inj hrs
    obtain rfl := List.mem_singleton.mp hres
    obtain rfl := List.mem_singleton.mp hnames
    decide
  refine (@parsesAs_traceValue_iff true true _ _ _ rfl (by decide) henv).mpr ⟨?_, ?_⟩
  · intro cpu hcpu
    obtain rfl := Option.some.inj hcpu
    exact isUtf8_encode []
  · intro e he comm hcomm
    rcases List.mem_cons.mp he with rfl | he
    · exact absurd hcomm (by simp [UnifiedEvent.ownComm?, cpuSchedOff, cpuSchedOn])
    · rcases List.mem_cons.mp he with rfl | he
      · obtain rfl := Option.some.inj hcomm
        exact isUtf8_encode []
      · obtain rfl := List.mem_singleton.mp he
        obtain rfl := Option.some.inj hcomm
        exact hletter

/-- A name of fourteen letters and an accented one, cut to the fifteen bytes that the kernel
keeps. -/
def cutComm : Comm := ⟨List.replicate 14 0x61 ++ [0xC3], by decide, by decide⟩

/-- A task name that the kernel cuts inside a character makes the file unreadable. -/
theorem cut_comm_breaks_file :
    outputChromeTracingJson true true .noStacks [switchInOf cutComm] =
        .written (traceFile .noStacks [switchInOf cutComm]) ∧
      (∀ e ∈ [switchInOf cutComm], NoEscape e.comm.bytes) ∧ StackEnv.noStacks.PrintableFrames ∧
      ∀ v, ¬ IsDocument (fileText (traceFile .noStacks [switchInOf cutComm])) v := by
  have henv : StackEnv.noStacks.PrintableFrames :=
    printableFrames_of_names fun _ _ _ _ hrs => absurd hrs (by simp [StackEnv.noStacks])
  refine ⟨rfl, by decide, henv, fun v hdoc => ?_⟩
  have hcut : IsUtf8 (List.replicate 14 0x61 ++ [0xC3]) :=
    (commsUtf8_of_isUtf8 henv hdoc.isUtf8).1 _ rfl
  rw [isUtf8_append_iff_of_lt fun b hb => List.eq_of_mem_replicate hb ▸ by decide] at hcut
  exact @not_isUtf8_take eAcute 1 (by decide) (by decide) hcut

end UnifiedTrace
