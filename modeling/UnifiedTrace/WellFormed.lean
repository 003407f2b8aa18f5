import UnifiedTrace.EventRecords
import UnifiedTrace.RecordText

/-!
# The Trace File is JSON

The success path of `output_chrome_tracing_json` writes one JSON document in which every task
name decodes to itself, if and only if no task name it prints contains a quotation mark, a
backslash or a control byte: symbol, file and library names are escaped on their way into the
file, task names are not. All names are taken to be ASCII.

## Main results

* `fileText_traceFile`: the file is an object with the records in the array `traceEvents`.
* `traceDecodes_iff`: when the file is a document that gives the task names back.
* `quote_in_comm_breaks_file`: a quotation mark in a task name makes the file unreadable.
-/

namespace UnifiedTrace

open Json Printf

/-! ### What the file should say -/

/-- The file is one document whose `traceEvents` are the records, each giving back the task
name it shows. -/
def TraceDecodes (file : List Piece) : Prop :=
  ∃ doc elems, IsDocument (fileText file) doc ∧
    doc.HasMember (ascii "traceEvents") (.arr elems) ∧
    List.Forall₂ Record.Decodes (fileRecords file) elems

/-- The task name printed in the event's own record. -/
def UnifiedEvent.ownComm? : UnifiedEvent → Option Comm
  | cpu e => if e.eventType = cpuSchedOn then some e.comm else none
  | gpu e => some e.comm

/-- No task name that is printed contains a quotation mark, a backslash or a control byte. The
first CPU event gives its row a name; after that, names come from switch-ins and CUDA events. -/
def CommsPlain (events : List UnifiedEvent) : Prop :=
  (∀ cpu ∈ (events.filterMap UnifiedEvent.cpu?).head?, IsPlain cpu.comm.bytes) ∧
    ∀ e ∈ events, ∀ comm ∈ e.ownComm?, IsPlain comm.bytes

/-- The task name of an event. -/
def UnifiedEvent.comm : UnifiedEvent → Comm
  | cpu e => e.comm
  | gpu e => e.comm

/-! ### Records separated by commas -/

/-- Records as the loop separates them; `started` says that there are records before. -/
def separated (started : Bool) : List Record → Bytes
  | [] => []
  | r :: rs => (if started then ascii ",\n" else []) ++ r.text ++ separated true rs

/-- The first record of the second group has a comma when the first group is not empty or the file
has begun. -/
theorem separated_append (started : Bool) (rs rs' : List Record) :
    separated started (rs ++ rs') =
      separated started rs ++ separated (started || !rs.isEmpty) rs' := by
  induction rs generalizing started with
  | nil => simp [separated]
  | cons r rs ih => simp [separated, ih, List.append_assoc]

/-- The pieces continue the file: their records are separated from what is there and from
each other, and counted. -/
def Continues (st : EmitState) (out : List Piece × EmitState) : Prop :=
  fileText out.1 = separated (0 < st.outputCount) (fileRecords out.1) ∧
    out.2.outputCount = st.outputCount + (fileRecords out.1).length

/-- Writing nothing continues the file. -/
theorem Continues.nil (st : EmitState) : Continues st ([], st) := ⟨rfl, rfl⟩

/-- One record with its separator. -/
theorem Continues.record {st st' : EmitState} (r : Record)
    (h : st'.outputCount = st.outputCount + 1) :
    Continues st (st.separator ++ [.record r], st') := by
  rw [Continues, EmitState.separator]
  split_ifs with hstarted
  · refine ⟨?_, h⟩
    show ascii ",\n" ++ (r.text ++ []) = separated (decide (0 < st.outputCount)) [r]
    rw [separated, separated, decide_eq_true hstarted, List.append_nil, List.append_nil]
    rfl
  · refine ⟨?_, h⟩
    show r.text ++ [] = separated (decide (0 < st.outputCount)) [r]
    rw [separated, separated, decide_eq_false hstarted, List.append_nil, List.append_nil]
    rfl

/-- Pieces after pieces. -/
theorem Continues.append {st st' st'' : EmitState} {ps ps' : List Piece}
    (h : Continues st (ps, st')) (h' : Continues st' (ps', st'')) :
    Continues st (ps ++ ps', st'') := by
  obtain ⟨htext, hcount⟩ := h
  obtain ⟨htext', hcount'⟩ := h'
  refine ⟨?_, ?_⟩
  · have hstarted : decide (0 < st'.outputCount) =
        (decide (0 < st.outputCount) || !(fileRecords ps).isEmpty) := by
      rw [hcount]
      cases fileRecords ps with
      | nil => simp
      | cons r rs =>
          have hpos : 0 < st.outputCount + (r :: rs).length := Nat.succ_pos _
          rw [decide_eq_true hpos]
          simp
    rw [fileRecords_append, separated_append, ← hstarted, ← htext, ← htext']
    exact List.flatMap_append
  · rw [fileRecords_append, List.length_append, hcount', hcount, Nat.add_assoc]

/-- The two names of a thread continue the file. -/
theorem continues_emitThreadNames (st : EmitState) (cpu : CpuSchedEvent) :
    Continues st (emitThreadNames st cpu) := by
  have hfirst : Continues st (st.separator ++
      [.record (.cpuThreadName cpu.pid cpu.tid cpu.comm)], st.count) := .record _ rfl
  have hsecond : Continues st.count (st.count.separator ++
      [.record (.gpuThreadName cpu.pid (cpu.tid + 1000000))],
      { st.count.count with threadNameWritten := true }) := .record _ rfl
  have hpos : st.count.outputCount > 0 := Nat.succ_pos _
  rw [EmitState.separator, if_pos hpos] at hsecond
  have hboth := hfirst.append hsecond
  rwa [List.append_assoc] at hboth

/-- The branch for CPU events continues the file. -/
theorem continues_emitCpuEvent (env : StackEnv) (m : UInt64) (i : ℕ) (st : EmitState)
    (cpu : CpuSchedEvent) : Continues st (emitCpuEvent env m i st cpu) := by
  rw [emitCpuEvent]
  split_ifs
  all_goals first | exact .nil st | exact .record _ rfl

/-- One round of the output loop continues the file. -/
theorem continues_emitEvent (env : StackEnv) (m : UInt64) (i : ℕ) (st : EmitState)
    (e : UnifiedEvent) : Continues st (emitEvent env m i st e) := by
  cases e with
  | cpu cpu =>
      rw [emitEvent]
      split_ifs
      · exact (Continues.nil st).append (continues_emitCpuEvent ..)
      · exact (continues_emitThreadNames st cpu).append (continues_emitCpuEvent ..)
  | gpu gpu => exact .record _ rfl

/-- The loop separates the records. -/
theorem continues_emitEvents (env : StackEnv) (m : UInt64) (i : ℕ) (st : EmitState)
    (events : List UnifiedEvent) : Continues st (emitEvents env m i st events) := by
  induction events generalizing i st with
  | nil => exact .nil st
  | cons e events ih => exact (continues_emitEvent env m i st e).append (ih _ _)

/-! ### The records of the loop -/

/-- The task name a record shows. -/
def Record.comm? : Record → Option Comm
  | cpuThreadName _ _ comm => some comm
  | begin _ _ _ _ comm _ => some comm
  | complete r => some r.comm
  | _ => none

/-- The name of a row needs no escape when the name of its thread needs none. -/
theorem isPlain_bracket {name : Bytes} :
    IsPlain (ascii "CPU [" ++ (name ++ ascii "]")) ↔ IsPlain name := by
  refine ⟨fun h b hb => h b (by simp [hb]), fun h => ?_⟩
  exact isPlain_append (by decide) (isPlain_append h (by decide))

/-- A record needs no escape if its task name does not. -/
theorem Record.isPlain_iff (r : Record) :
    r.IsPlain ↔ ∀ comm ∈ r.comm?, Json.IsPlain comm.bytes := by
  cases r with
  | cpuThreadName pid tid comm => simp [IsPlain, named, comm?, isPlain_bracket]
  | begin | complete => simp [IsPlain, named, comm?]
  | gpuThreadName | finish | instant => simp [IsPlain, named, comm?]

/-- Neither of two texts without escapes has one. -/
theorem isPlain_ite {c : Prop} [Decidable c] {s t : Bytes} (hs : IsPlain s) (ht : IsPlain t) :
    IsPlain (if c then s else t) := by
  split
  · exact hs
  · exact ht

/-- The names of the operations need no escape. -/
theorem isPlain_cudaOpName (opType : UInt32) : IsPlain (cudaOpName opType) := by
  rw [cudaOpName]
  repeat' apply isPlain_ite
  all_goals decide

/-- The categories of the operations need no escape. -/
theorem isPlain_cudaOpCategory (opType : UInt32) : IsPlain (cudaOpCategory opType) := by
  rw [cudaOpCategory]
  repeat' apply isPlain_ite
  all_goals decide

/-- The task name in an event's own record. -/
theorem bind_comm?_ownRecord? (env : StackEnv) (m : UInt64) (i : ℕ) (onTime : UInt32 → UInt64)
    (e : UnifiedEvent) : (ownRecord? env m i onTime e).bind Record.comm? = e.ownComm? := by
  cases e with
  | gpu gpu => rfl
  | cpu cpu =>
      rw [ownRecord?, cpuRecord?, UnifiedEvent.ownComm?]
      split
      · rfl
      · split
        · split <;> rfl
        · split <;> rfl

/-- What else an event's own record is made from: names of the program, and a printed stack. -/
theorem made_of_ownRecord? {env : StackEnv} {m : UInt64} {i : ℕ} {onTime : UInt32 → UInt64}
    {e : UnifiedEvent} {r : Record} (h : ownRecord? env m i onTime e = some r) :
    r.NamesPlain ∧ ∀ frames ∈ r.stack?, ∃ j stackId pid,
      frames = emitStackJson env j stackId pid := by
  have hnone : ∀ frames ∈ (none : Option (List StackFrame)), ∃ j stackId pid,
      frames = emitStackJson env j stackId pid := fun _ h => absurd h (by simp)
  have hstack : ∀ stackId pid, ∀ frames ∈ stackOf env i stackId pid, ∃ j stackId pid,
      frames = emitStackJson env j stackId pid := by
    intro stackId pid frames hframes
    rw [stackOf] at hframes
    split at hframes
    · exact ⟨i, stackId, pid, (Option.some.inj hframes).symm⟩
    · exact hnone frames hframes
  cases e with
  | gpu gpu =>
      obtain rfl := Option.some.inj h
      exact ⟨⟨isPlain_cudaOpName _, isPlain_cudaOpCategory _⟩, hstack _ _⟩
  | cpu cpu =>
      obtain ⟨-, rfl⟩ | ⟨-, rfl⟩ | ⟨-, rfl⟩ := of_cpuRecord?_eq_some h
      · exact ⟨trivial, hstack _ _⟩
      · exact ⟨trivial, hnone⟩
      · exact ⟨trivial, hnone⟩

section Loop

variable (env : StackEnv) (m : UInt64) (i : ℕ) (st : EmitState)

/-- The task names shown in the records of an event. -/
theorem forall_comm_emitEvent (e : UnifiedEvent) (P : Comm → Prop) :
    (∀ r ∈ fileRecords (emitEvent env m i st e).1, ∀ comm ∈ r.comm?, P comm) ↔
      (st.threadNameWritten = false → ∀ cpu ∈ e.cpu?, P cpu.comm) ∧
        ∀ comm ∈ e.ownComm?, P comm := by
  have hnames : (∀ r ∈ rowNames st e, ∀ comm ∈ r.comm?, P comm) ↔
      (st.threadNameWritten = false → ∀ cpu ∈ e.cpu?, P cpu.comm) := by
    cases e with
    | gpu gpu => simp [rowNames, UnifiedEvent.cpu?]
    | cpu cpu =>
        rw [rowNames]
        cases st.threadNameWritten with
        | true => simp
        | false => simp [Record.comm?, UnifiedEvent.cpu?]
  have hown : (∀ r ∈ (ownRecord? env m i st.cpuOnTime e).toList, ∀ comm ∈ r.comm?, P comm) ↔
      ∀ comm ∈ e.ownComm?, P comm := by
    rw [← bind_comm?_ownRecord? env m i st.cpuOnTime e]
    cases ownRecord? env m i st.cpuOnTime e with
    | none => simp
    | some r => simp
  rw [fileRecords_emitEvent, List.forall_mem_append, hnames, hown]

/-- **The task names shown in the records of the loop**: the one of the first CPU event, if the
rows have no names yet, and those of switch-ins and CUDA events. -/
theorem forall_comm_emitEvents (events : List UnifiedEvent) (P : Comm → Prop) :
    (∀ r ∈ fileRecords (emitEvents env m i st events).1, ∀ comm ∈ r.comm?, P comm) ↔
      (st.threadNameWritten = false →
        ∀ cpu ∈ (events.filterMap UnifiedEvent.cpu?).head?, P cpu.comm) ∧
        ∀ e ∈ events, ∀ comm ∈ e.ownComm?, P comm := by
  induction events generalizing i st with
  | nil => simp [emitEvents, fileRecords]
  | cons e events ih =>
      -- the rows get their names from this event or from a later one
      have hfirst : ((st.threadNameWritten = false → ∀ cpu ∈ e.cpu?, P cpu.comm) ∧
          ((st.threadNameWritten || e.cpu?.isSome) = false →
            ∀ cpu ∈ (events.filterMap UnifiedEvent.cpu?).head?, P cpu.comm)) ↔
          (st.threadNameWritten = false →
            ∀ cpu ∈ ((e :: events).filterMap UnifiedEvent.cpu?).head?, P cpu.comm) := by
        cases e with
        | cpu cpu => simp [UnifiedEvent.cpu?]
        | gpu gpu => simp [UnifiedEvent.cpu?, List.filterMap_cons]
      rw [emitEvents, fileRecords_append, List.forall_mem_append, forall_comm_emitEvent, ih,
        threadNameWritten_emitEvent, List.forall_mem_cons, and_and_and_comm, hfirst]

/-- The task name of the first CPU event and those in records of their own are task names of
events. -/
theorem forall_comm_of_forall_events (P : Comm → Prop) {events : List UnifiedEvent}
    (h : ∀ e ∈ events, P e.comm) :
    (∀ cpu ∈ (events.filterMap UnifiedEvent.cpu?).head?, P cpu.comm) ∧
      ∀ e ∈ events, ∀ comm ∈ e.ownComm?, P comm := by
  constructor
  · intro cpu hcpu
    obtain ⟨e, he, hcpu⟩ := List.mem_filterMap.mp (List.mem_of_mem_head? hcpu)
    cases e with
    | cpu e =>
        obtain rfl := Option.some.inj hcpu
        exact h _ he
    | gpu e => exact absurd hcpu (by simp [UnifiedEvent.cpu?])
  · intro e he comm hcomm
    cases e with
    | cpu cpu =>
        rw [UnifiedEvent.ownComm?] at hcomm
        split at hcomm
        · obtain rfl := Option.some.inj hcomm
          exact h _ he
        · exact absurd hcomm (by simp)
    | gpu gpu =>
        obtain rfl := Option.some.inj hcomm
        exact h _ he

/-- A record of the loop names a row or is the own record of an event. -/
theorem mem_fileRecords_emitEvents {env : StackEnv} {m : UInt64} {i : ℕ} {st : EmitState}
    {events : List UnifiedEvent} {r : Record}
    (h : r ∈ fileRecords (emitEvents env m i st events).1) :
    r.IsName = true ∨ ∃ j onTime, ∃ e ∈ events, ownRecord? env m j onTime e = some r := by
  induction events generalizing i st with
  | nil => exact absurd h List.not_mem_nil
  | cons e events ih =>
      rw [emitEvents, fileRecords_append, fileRecords_emitEvent, List.append_assoc,
        List.mem_append, List.mem_append] at h
      rcases h with hname | hown | hrest
      · exact .inl (isName_of_mem_rowNames hname)
      · exact .inr ⟨i, st.cpuOnTime, e, List.mem_cons_self, Option.mem_toList.mp hown⟩
      · rcases ih hrest with hname | ⟨j, onTime, e', he', hown⟩
        · exact .inl hname
        · exact .inr ⟨j, onTime, e', List.mem_cons_of_mem e he', hown⟩

/-- What the records of the loop are made from besides task names. -/
theorem made_of_mem_emitEvents {env : StackEnv} {m : UInt64} {i : ℕ} {st : EmitState}
    {events : List UnifiedEvent} {r : Record}
    (h : r ∈ fileRecords (emitEvents env m i st events).1) :
    r.NamesPlain ∧ ∀ frames ∈ r.stack?, ∃ j stackId pid,
      frames = emitStackJson env j stackId pid := by
  rcases mem_fileRecords_emitEvents h with hname | ⟨j, onTime, e, -, hown⟩
  · cases r with
    | cpuThreadName | gpuThreadName =>
        exact ⟨trivial, fun _ hframes => absurd hframes (by simp [Record.stack?])⟩
    | begin | finish | instant | complete => exact absurd hname Bool.false_ne_true
  · exact made_of_ownRecord? hown

/-- A record is made from ASCII names if its task name and its stack are. -/
theorem Record.wellMade_of_made {r : Record} (hnames : r.NamesPlain)
    (hcomm : ∀ comm ∈ r.comm?, IsAscii comm.bytes)
    (hstack : ∀ frames ∈ r.stack?, ∀ frame ∈ frames, frame.IsAscii) : r.WellMade := by
  cases r with
  | cpuThreadName => exact hcomm _ rfl
  | begin => exact ⟨hcomm _ rfl, hstack⟩
  | complete r => exact ⟨hnames.1, hnames.2, hcomm _ rfl, hstack⟩
  | gpuThreadName | finish | instant => trivial

/-- The records of the loop are made from ASCII names. -/
theorem wellMade_emitEvents {env : StackEnv} (henv : env.AsciiNames) {events : List UnifiedEvent}
    (h : ∀ e ∈ events, IsAscii e.comm.bytes) :
    ∀ r ∈ fileRecords (emitEvents env m i st events).1, r.WellMade := by
  intro r hr
  obtain ⟨hnames, hstack⟩ := made_of_mem_emitEvents hr
  obtain ⟨hfirst, hown⟩ := forall_comm_of_forall_events (fun comm => IsAscii comm.bytes) h
  have hcomms := (forall_comm_emitEvents env m i st events fun comm => IsAscii comm.bytes).mpr
    ⟨fun _ => hfirst, hown⟩
  refine r.wellMade_of_made hnames (hcomms r hr) fun frames hframes => ?_
  obtain ⟨j, stackId, pid, rfl⟩ := hstack frames hframes
  exact isAscii_emitStackJson henv j stackId pid

end Loop

/-! ### The array of records -/

/-- The line before a record, after the comma. -/
def recordLine : Bytes := 0x0A :: indent

/-- The line break and blanks before a record are white space. -/
theorem isWs_recordLine : ∀ b ∈ recordLine, IsWs b := by decide

/-- The line before the closing bracket. -/
def closingLine : Bytes := ascii "\n  "

/-- The line break before the last bracket is white space. -/
theorem isWs_closingLine : ∀ b ∈ closingLine, IsWs b := by decide

/-- The array of records. -/
def recordsText (rs : List Record) : Bytes :=
  0x5B :: 0x0A :: (separated false rs ++ (closingLine ++ [0x5D]))

/-- The records after the first. -/
theorem separated_true (rs : List Record) :
    separated true rs = elementsText (rs.map fun r => recordLine ++ r.body) := by
  induction rs with
  | nil => rfl
  | cons r rs ih =>
      rw [separated, ih, List.map_cons, elementsText_cons, r.text_eq]
      simp only [recordLine, List.append_assoc, List.cons_append]
      rfl

/-- An array of records. -/
theorem recordsText_cons (r : Record) (rs : List Record) (rest : Bytes) :
    recordsText (r :: rs) ++ rest = 0x5B :: (recordLine ++ (r.body ++
      (elementsText (rs.map fun x => recordLine ++ x.body) ++ (closingLine ++ 0x5D :: rest)))) := by
  rw [recordsText, separated, separated_true, r.text_eq]
  simp [recordLine, List.append_assoc]

/-- An array of records reads as what they read as. -/
theorem reads_recordsText {rs : List Record} {vs : List Json.Value}
    (h : List.Forall₂ (fun r v => Reads r.body v) rs vs) : Reads (recordsText rs) (.arr vs) := by
  intro rest hrest
  cases h with
  | nil => exact .emptyArr (.of_append (w := ascii "\n\n  ") (by decide) _)
  | @cons r v rs vs hv hvs =>
      have hpadded : List.Forall₂ ReadsPadded (rs.map fun x => recordLine ++ x.body) vs := by
        rw [List.forall₂_map_left_iff]
        exact hvs.imp fun _ _ h => h.padded isWs_recordLine
      have helems := readsElements_padded (hv.padded isWs_recordLine) hpadded
        isWs_closingLine rest
      rw [recordsText_cons]
      rw [List.append_assoc] at helems
      exact .arr helems

/-- Records whose task names need no escape read as an array that gives the names back. -/
theorem exists_reads_recordsText {rs : List Record} (hmade : ∀ r ∈ rs, r.WellMade)
    (hplain : ∀ r ∈ rs, r.IsPlain) :
    ∃ vs, Reads (recordsText rs) (.arr vs) ∧ List.Forall₂ Record.Decodes rs vs := by
  have hvalues : ∃ vs, List.Forall₂ (fun r v => Reads r.body v ∧ r.Decodes v) rs vs := by
    induction rs with
    | nil => exact ⟨[], .nil⟩
    | cons r rs ih =>
        obtain ⟨hr, hrs⟩ := List.forall_mem_cons.mp hmade
        obtain ⟨hr', hrs'⟩ := List.forall_mem_cons.mp hplain
        obtain ⟨v, hv⟩ := r.exists_reads hr hr'
        obtain ⟨vs, hvs⟩ := ih hrs hrs'
        exact ⟨v :: vs, .cons hv hvs⟩
  obtain ⟨vs, hvs⟩ := hvalues
  exact ⟨vs, reads_recordsText (hvs.imp fun _ _ h => h.1), hvs.imp fun _ _ h => h.2⟩

/-- Records that read as an array giving the task names back have names that need no escape. -/
theorem isPlain_of_reads_recordsText {rs : List Record} (hmade : ∀ r ∈ rs, r.WellMade)
    {rest s : Bytes} {vs : List Json.Value}
    (hread : ReadsValue (recordsText rs ++ rest) (.arr vs) s)
    (hdecodes : List.Forall₂ Record.Decodes rs vs) : ∀ r ∈ rs, r.IsPlain := by
  cases rs with
  | nil => exact fun r hr => absurd hr List.not_mem_nil
  | cons r rs =>
      have hright : List.Forall₂ (fun r v => r.WellMade ∧ r.Decodes v) (r :: rs) vs :=
        (List.forall₂_and_left _ _).mpr ⟨hmade, hdecodes⟩
      obtain ⟨vs', hvs', helems⟩ := (recordsText_cons r rs rest ▸ hread).arr_inv
      obtain rfl := Json.Value.arr.inj hvs'
      have helems := helems.resolve_left fun hnil => by
        rw [hnil] at hdecodes
        exact absurd hdecodes (by simp)
      have hwalk := helems.walk isWs_recordLine isWs_recordLine isWs_closingLine
        Record.startsToken_body (fun r rest v s hv hr => ?_) hright
      · intro x hx
        obtain ⟨_, v, _, hv, hx, hdecodes⟩ := hwalk x hx
        exact x.isPlain_of_reads hx hv hdecodes
      · obtain ⟨v', hv', -⟩ := r.exists_reads hr.1 (r.isPlain_of_reads hr.1 hv hr.2)
        exact ⟨v', hv'⟩

/-! ### The document -/

/-- Line ends with the indentation of the outer object and of the `metadata` object. -/
theorem isWs_lines : (∀ b ∈ ascii "\n", IsWs b) ∧ ∀ b ∈ ascii "\n    ", IsWs b := by
  decide

/-- The layout of the outer object. -/
def fileLayout : Layout :=
  ⟨closingLine, [0x20], closingLine, ascii "\n", isWs_closingLine, isWs_space, isWs_closingLine,
    isWs_lines.1⟩

/-- The layout of the `metadata` object. -/
def metadataLayout : Layout :=
  ⟨ascii "\n    ", [0x20], ascii "\n    ", closingLine, isWs_lines.2, isWs_space, isWs_lines.2,
    isWs_closingLine⟩

/-- The members of the file after the records. -/
def fileFields (eventCount : ℕ) : List Field :=
  [strField (ascii "displayTimeUnit") (ascii "ms") (by decide) (by decide),
    { key := ascii "metadata"
      text := objectText metadataLayout
        [numKey (ascii "event_count") eventCount (by decide)] (ascii "tool")
        (quoted (ascii "ebpf-unified-trace")) []
      value := _
      key_plain := by decide
      reads := .object _ [] (by decide) (.str (.of_isPlain (by decide))) }]

/-- Pieces are written one after the other. -/
theorem fileText_append (file file' : List Piece) :
    fileText (file ++ file') = fileText file ++ fileText file' := List.flatMap_append

/-- **The file is an object with the records in `traceEvents`.** -/
theorem fileText_traceFile (env : StackEnv) (events : List UnifiedEvent) :
    fileText (traceFile env events) = objectText fileLayout [] (ascii "traceEvents")
      (recordsText (fileRecords (traceFile env events))) (fileFields events.length) ++
      [0x0A] := by
  have hbody := (continues_emitEvents env (minTimestamp events) 0 .init events).1
  have htrailer : fileText (fileTrailer events.length) = closingLine ++ 0x5D ::
      (moreText fileLayout (fileFields events.length) ++ (fileLayout.stop ++ [0x7D, 0x0A])) := by
    simp only [fileTrailer, fileText, List.flatMap_cons, List.flatMap_nil, Piece.text, fileFields,
      moreText_cons, Field.memberText, keyText, strField, numKey, numField, quoted, objectText,
      leadText_cons, List.append_assoc, List.cons_append]
    rfl
  rw [fileRecords_traceFile, objectText_append, recordsText, traceFile, fileText_append,
    fileText_append, hbody, htrailer]
  simp only [List.append_assoc, List.cons_append]
  rfl

/-- The file reads as an object with what its records read as. -/
theorem isDocument_traceFile {env : StackEnv} {events : List UnifiedEvent} {vs : List Json.Value}
    (h : Reads (recordsText (fileRecords (traceFile env events))) (.arr vs)) :
    IsDocument (fileText (traceFile env events)) (.obj ((units (ascii "traceEvents"), .arr vs) ::
      (fileFields events.length).map Field.member)) := by
  have hdoc := Reads.object (l := fileLayout) [] (fileFields events.length)
    (by decide : IsPlain (ascii "traceEvents")) h
  refine ⟨_, [0x0A], ?_, hdoc _ (endsNumber_cons (by decide) []), [0x0A], by decide, rfl⟩
  rw [fileText_traceFile]
  exact .refl _

/-! ### Well-formedness -/

/-- The file reads as it should if and only if no task name in its records needs an escape. -/
theorem traceDecodes_traceFile_iff {env : StackEnv} {events : List UnifiedEvent}
    (hcomms : ∀ e ∈ events, IsAscii e.comm.bytes) (henv : env.AsciiNames) :
    TraceDecodes (traceFile env events) ↔
      ∀ r ∈ fileRecords (traceFile env events), r.IsPlain := by
  have hmade : ∀ r ∈ fileRecords (traceFile env events), r.WellMade := by
    rw [fileRecords_traceFile]
    exact wellMade_emitEvents _ _ _ henv hcomms
  constructor
  · rintro ⟨doc, elems, ⟨s₁, s₂, hws, hdoc, -⟩, hmember, hdecodes⟩
    rw [fileText_traceFile] at hws
    obtain rfl := hws.unique (.refl _) hdoc.startsToken (startsToken_cons (by decide) _)
    obtain ⟨s, hread⟩ := hdoc.object_inv [] _ (by decide) (startsToken_cons (by decide) _) hmember
    exact isPlain_of_reads_recordsText hmade hread hdecodes
  · intro hplain
    obtain ⟨vs, hvs, hdecodes⟩ := exists_reads_recordsText hmade hplain
    have hkeys : ascii "traceEvents" ∉ ([] ++ fileFields events.length).map Field.key := by
      show ascii "traceEvents" ∉ [ascii "displayTimeUnit", ascii "metadata"]
      decide
    exact ⟨_, vs, isDocument_traceFile hvs, hasMember_obj _ hkeys, hdecodes⟩

/-- The task names in the records are those of the events. -/
theorem forall_isPlain_traceFile_iff (env : StackEnv) (events : List UnifiedEvent) :
    (∀ r ∈ fileRecords (traceFile env events), r.IsPlain) ↔ CommsPlain events := by
  have hcomms := forall_comm_emitEvents env (minTimestamp events) 0 .init events
    fun comm => IsPlain comm.bytes
  simp only [fileRecords_traceFile, Record.isPlain_iff, hcomms, CommsPlain]
  exact and_congr_left' (forall_prop_of_true rfl)

/-- **The trace file is one JSON document that gives every task name back if and only if no
printed task name contains a quotation mark, a backslash or a control byte**, whatever the
ASCII symbol, file and library names are. -/
theorem traceDecodes_iff {fopen calloc : Bool} {env : StackEnv} {events : List UnifiedEvent}
    {file : List Piece} (h : outputChromeTracingJson fopen calloc env events = .written file)
    (hcomms : ∀ e ∈ events, IsAscii e.comm.bytes) (henv : env.AsciiNames) :
    TraceDecodes file ↔ CommsPlain events := by
  rw [traceFile_of_written h, traceDecodes_traceFile_iff hcomms henv,
    forall_isPlain_traceFile_iff]

/-- A symbolizer that answers with a C++ literal operator. -/
def quotesInSymbol : StackEnv where
  stackMap := some fun _ => some fun k => if k.val = 0 then 0x1000 else 0
  symbolizeEnabled := true
  symbolizer := true
  maxStackFramesInJson := 12
  calloc := fun _ => true
  symbolize := fun _ _ _ => some [.sym
    { name := ascii "operator\"\"s", codeInfo := none, inlined := [], module := none }]

/-- A switch-in with a stack. -/
def switchInOf (comm : Comm) : UnifiedEvent :=
  .cpu { timestamp := 1, eventType := cpuSchedOn, pid := 7, tid := 7, cpu := 0, prevState := 0,
         stackId := 3, comm := comm }

/-- Quotation marks in symbols do no harm. -/
theorem traceDecodes_iff_quotes_in_symbol :
    TraceDecodes (traceFile quotesInSymbol
      [switchInOf ⟨ascii "python3", by decide, by decide⟩]) := by
  have henv : quotesInSymbol.AsciiNames := by
    rintro i pid addrs rs hrs res hres
    obtain rfl := Option.some.inj hrs
    obtain rfl := List.mem_singleton.mp hres
    exact ⟨by decide, by simp, by simp, by simp⟩
  refine (@traceDecodes_iff true true _ _ _ rfl (by decide) henv).mpr ?_
  exact ⟨by decide, by decide⟩

/-- A thread whose name contains a quotation mark is switched in. -/
def quoteInComm : List UnifiedEvent := [switchInOf ⟨ascii "a\"b", by decide, by decide⟩]

/-- A quotation mark in a task name breaks the file. -/
theorem quote_in_comm_breaks_file :
    outputChromeTracingJson true true .noStacks quoteInComm =
        .written (traceFile .noStacks quoteInComm) ∧
      (∀ e ∈ quoteInComm, IsAscii e.comm.bytes) ∧ StackEnv.noStacks.AsciiNames ∧
      ¬ TraceDecodes (traceFile .noStacks quoteInComm) := by
  have henv : StackEnv.noStacks.AsciiNames :=
    fun _ _ _ _ hrs => absurd hrs (by simp [StackEnv.noStacks])
  refine ⟨rfl, by decide, henv, ?_⟩
  rw [traceDecodes_traceFile_iff (by decide) henv, forall_isPlain_traceFile_iff]
  rintro ⟨hfirst, -⟩
  exact absurd (hfirst _ rfl) (by decide)

end UnifiedTrace
