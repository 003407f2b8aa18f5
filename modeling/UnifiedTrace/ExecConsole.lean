import UnifiedTrace.Blazesym
import UnifiedTrace.Columns
import UnifiedTrace.EventArray

/-!
# The Console of `trace_exec`

`trace_execve` of `src/bpf/trace_exec.bpf.c` submits a record for each `execve`, and
`handle_event` of `src/user/trace_exec.c` prints a line for it. The record is assigned in part
only: of `filename` just the first byte, and the rest of the slot keeps what was in it. A name
can hold any bytes but NUL, line feeds and blanks included.

`%s` reads up to a NUL; where the record holds none, `ExecEvent.load` stops at its end. The ring
buffer yields the records in the order in which they were reserved.

## Main results

* `load_submit`: the members that are printed are those that were assigned.
* `execLine_append_inj`: a line and what follows it are determined by the text.
* `console_eq_iff`: what can be read back from the console.
-/

namespace UnifiedTrace

open ByteStores RecordLayout Printf

/-! ### The record -/

/-- `MAX_FILENAME_LEN`. -/
def maxFilenameLen : ℕ := 256

/-- `char[MAX_FILENAME_LEN]`. -/
def memberFilename : Member := ⟨maxFilenameLen, 1, Nat.one_pos⟩

/-- `struct exec_event`. -/
def execEventMembers : List Member :=
  [memberU32, memberU32, memberU32, memberComm, memberFilename]

/-- Where the compiler puts the members of an `event`. -/
theorem spans_execEventMembers :
    spans execEventMembers = [⟨0, 4⟩, ⟨4, 4⟩, ⟨8, 4⟩, ⟨12, 16⟩, ⟨28, 256⟩] := rfl

/-- The size of an `event`. -/
theorem sizeof_execEventMembers : sizeof execEventMembers = 284 := rfl

/-- What the helpers of the kernel return to `trace_execve`; after the NUL of the name the kernel
leaves the bytes `rest`. -/
structure Execve where
  pidTgid : UInt64
  uidGid : UInt64
  comm : Comm
  rest : Bytes
  filled : comm.FilledBy rest

def Execve.pid (c : Execve) : UInt32 := pidOf c.pidTgid

def Execve.uid (c : Execve) : UInt32 := (c.uidGid &&& 0xFFFFFFFF).toUInt32

/-- The assignments of `trace_execve`. -/
def Execve.assigns (c : Execve) : List Assign :=
  [⟨0, bytesOf 4 c.pid.toNat⟩, ⟨4, bytesOf 4 (0 : UInt32).toNat⟩, ⟨8, bytesOf 4 c.uid.toNat⟩,
    ⟨12, c.comm.array c.rest⟩, ⟨28, [0]⟩]

/-- `trace_execve` in a reserved slot. -/
def Execve.submit (c : Execve) (slot : RingData) : RingData where
  mem := run slot.mem (storesOf slot.data c.assigns)
  data := slot.data

/-! ### The line -/

/-- What `handle_event` reads of a record. -/
structure ExecEvent where
  pid : UInt32
  uid : UInt32
  comm : Bytes
  filename : Bytes

/-- The `struct exec_event` at an address. -/
def ExecEvent.load (mem : ℕ → UInt8) (base : ℕ) : ExecEvent where
  pid := uint32.load mem (base + 0)
  uid := uint32.load mem (base + 8)
  comm := cString (read mem (base + 12) (sizeof execEventMembers - 12))
  filename := cString (read mem (base + 28) (sizeof execEventMembers - 28))

/-- The line of `handle_event`, which prints the two unsigned members with `%d`. -/
def execLine (e : ExecEvent) : Bytes :=
  ascii "PID: " ++ leftJustify 7 (signed e.pid.toInt32.toInt) ++
    ascii " UID: " ++ leftJustify 7 (signed e.uid.toInt32.toInt) ++
    ascii " COMM: " ++ leftJustify 16 e.comm ++
    ascii " FILENAME: " ++ e.filename ++ [0x0A]

/-- `handle_event` of `trace_exec.c`. -/
def handleExecEvent (out : Bytes) (r : RingData) : Bytes :=
  out ++ execLine (ExecEvent.load r.mem r.data)

/-! ### Runs -/

/-- What happens: a process calls `execve`, for which there is a slot or not, or the poll loop
takes the next record out of the ring. -/
inductive ExecAct
  | execve (c : Execve) (slot : Option RingData)
  | consume

/-- The records in the ring, oldest first, and what was printed. -/
structure ExecConsole where
  ring : List RingData
  out : Bytes

def ExecConsole.step (s : ExecConsole) : ExecAct → ExecConsole
  | .execve _ none => s
  | .execve c (some slot) => { s with ring := s.ring ++ [c.submit slot] }
  | .consume =>
      match s.ring with
      | [] => s
      | r :: ring => ⟨ring, handleExecEvent s.out r⟩

/-- The ring and the console after a run. -/
def ExecConsole.run (acts : List ExecAct) : ExecConsole := acts.foldl step ⟨[], []⟩

/-- The calls whose records wait, and those whose records were taken out. -/
structure ExecQueue where
  waiting : List Execve
  taken : List Execve

def ExecQueue.step (q : ExecQueue) : ExecAct → ExecQueue
  | .execve _ none => q
  | .execve c (some _) => { q with waiting := q.waiting ++ [c] }
  | .consume =>
      match q.waiting with
      | [] => q
      | c :: waiting => ⟨waiting, q.taken ++ [c]⟩

/-- The same run as a queue of calls. -/
def ExecQueue.run (acts : List ExecAct) : ExecQueue := acts.foldl step ⟨[], []⟩

/-- The calls that got a slot. -/
def submittedCalls (acts : List ExecAct) : List Execve :=
  acts.filterMap fun
    | .execve c (some _) => some c
    | _ => none

/-! ### One record -/

/-- A string that stands in memory is what `%s` prints. -/
theorem cString_of_holds {mem : ℕ → UInt8} {i n : ℕ} {s rest : Bytes}
    (h : Holds mem i (s ++ 0 :: rest)) (hn : (s ++ 0 :: rest).length ≤ n) (hnul : 0 ∉ s) :
    cString (read mem i n) = s := by
  obtain ⟨k, rfl⟩ := Nat.exists_eq_add_of_le hn
  have hall : ∀ b ∈ s, decide (b ≠ 0) = true := fun b hb =>
    decide_eq_true fun hzero => hnul (hzero ▸ hb)
  rw [cString, read_add, read_of_holds h, List.append_assoc, List.cons_append,
    List.takeWhile_append_of_pos hall, List.takeWhile_cons_of_neg (by decide), List.append_nil]

/-- What is printed for a call. -/
def Execve.event (c : Execve) : ExecEvent := ⟨c.pid, c.uid, c.comm.bytes, []⟩

/-- The assignments do not overlap. -/
theorem Execve.assigns_apart (c : Execve) :
    c.assigns.Pairwise fun v w => v.span.Apart w.span := by
  have hcomm : (c.comm.array c.rest).length = 16 := c.filled
  simp [assigns, Assign.span, Span.Apart, hcomm]

/-- **A record** shows the call, whatever the slot held before and whatever stands after the
strings. -/
theorem load_submit (c : Execve) (slot : RingData) :
    ExecEvent.load (c.submit slot).mem (c.submit slot).data = c.event := by
  have hholds : ∀ (i : ℕ) {w : Assign}, c.assigns[i]? = some w →
      Holds (c.submit slot).mem (slot.data + w.offset) w.bytes := fun i w hw =>
    holds_of_apart c.assigns_apart (List.mem_of_getElem? hw) slot.mem
  have hu32 : ∀ {x : UInt32} {i : ℕ}, Holds (c.submit slot).mem i (bytesOf 4 x.toNat) →
      uint32.load (c.submit slot).mem i = x := fun h =>
    (uint32.load_of_holds (length_bytesOf 4 _) h).trans (uint32_value _)
  have hcomm : (c.comm.bytes ++ 0 :: c.rest).length = 16 := c.filled
  have hdata : (c.submit slot).data = slot.data := rfl
  rw [ExecEvent.load, Execve.event, hdata, hu32 (hholds 0 rfl), hu32 (hholds 2 rfl),
    cString_of_holds (hholds 3 rfl) (by rw [hcomm]; decide) c.comm.nul_notMem,
    cString_of_holds (s := []) (hholds 4 rfl) (by decide) List.not_mem_nil]

/-! ### One line -/

/-- What a line shows of a call: blanks at the end of the name are not seen. -/
def Execve.shown (c : Execve) : UInt32 × UInt32 × Bytes := (c.pid, c.uid, trimRight c.comm.bytes)

/-- A name fits into its column. -/
theorem Execve.length_comm_le (c : Execve) : c.comm.bytes.length ≤ 16 :=
  Nat.le_of_lt c.comm.length_lt

/-- An unsigned number printed with `%d` is still determined. -/
theorem eq_of_toInt_toInt32 {x y : UInt32} (h : x.toInt32.toInt = y.toInt32.toInt) : x = y :=
  congrArg Int32.toUInt32 (Int32.toInt_inj.mp h)

/-- **A line** and what follows it are determined by the text, although a name can hold blanks
and line feeds. -/
theorem execLine_append_inj {c d : Execve} {x y : Bytes}
    (h : execLine c.event ++ x = execLine d.event ++ y) : c.shown = d.shown ∧ x = y := by
  have hsplit : ∀ (e : Execve) (z : Bytes), execLine e.event ++ z =
      ascii "PID: " ++ (leftJustify 7 (signed e.pid.toInt32.toInt) ++ 0x20 ::
        (ascii "UID: " ++ (leftJustify 7 (signed e.uid.toInt32.toInt) ++ 0x20 ::
          (ascii "COMM: " ++ (leftJustify 16 e.comm.bytes ++
            (ascii " FILENAME: " ++ 0x0A :: z)))))) := by
    intro e z
    have huid : ascii " UID: " = 0x20 :: ascii "UID: " := rfl
    have hcomm : ascii " COMM: " = 0x20 :: ascii "COMM: " := rfl
    simp only [execLine, Execve.event, huid, hcomm, List.append_assoc, List.cons_append,
      List.nil_append]
  rw [hsplit, hsplit] at h
  obtain ⟨hpid, h⟩ := signed_column_inj (List.append_cancel_left h)
  obtain ⟨huid, h⟩ := signed_column_inj (List.append_cancel_left h)
  obtain ⟨hcomm, h⟩ := text_column_inj c.length_comm_le d.length_comm_le (List.append_cancel_left h)
  refine ⟨?_, (List.cons.inj (List.append_cancel_left h)).2⟩
  rw [Execve.shown, Execve.shown, eq_of_toInt_toInt32 hpid, eq_of_toInt_toInt32 huid, hcomm]

/-- Calls that show the same have the same line. -/
theorem execLine_of_shown {c d : Execve} (h : c.shown = d.shown) :
    execLine c.event = execLine d.event := by
  obtain ⟨hpid, hrest⟩ := Prod.mk.inj h
  obtain ⟨huid, hcomm⟩ := Prod.mk.inj hrest
  have hcolumn := (leftJustify_eq_iff c.length_comm_le d.length_comm_le).mpr hcomm
  simp only [execLine, Execve.event, hpid, huid, hcolumn]

/-- A line is not empty. -/
theorem execLine_ne_nil (e : ExecEvent) : execLine e ≠ [] := by simp [execLine]

/-- **The lines of several calls** determine what each of them shows. -/
theorem flatMap_execLine_eq_iff {cs ds : List Execve} :
    (cs.flatMap fun c => execLine c.event) = (ds.flatMap fun d => execLine d.event) ↔
      cs.map Execve.shown = ds.map Execve.shown := by
  induction cs generalizing ds with
  | nil =>
      cases ds with
      | nil => exact iff_of_true rfl rfl
      | cons d ds => simp [execLine_ne_nil]
  | cons c cs ih =>
      cases ds with
      | nil => simp [execLine_ne_nil]
      | cons d ds =>
          rw [List.flatMap_cons, List.flatMap_cons, List.map_cons, List.map_cons, List.cons.injEq,
            ← ih]
          refine ⟨execLine_append_inj, fun ⟨hshown, hrest⟩ => ?_⟩
          rw [execLine_of_shown hshown, hrest]

/-! ### Runs -/

/-- A record in the ring is that of a call. -/
def IsRecordOf (r : RingData) (c : Execve) : Prop := ∃ slot, r = c.submit slot

/-- The ring holds the records of the waiting calls, and the console the lines of the others. -/
structure ConsoleShows (s : ExecConsole) (q : ExecQueue) : Prop where
  ring : List.Forall₂ IsRecordOf s.ring q.waiting
  out : s.out = q.taken.flatMap fun c => execLine c.event

/-- **One step** of the ring and the console is a step of the queue. -/
theorem ConsoleShows.step {s : ExecConsole} {q : ExecQueue} (h : ConsoleShows s q) (a : ExecAct) :
    ConsoleShows (s.step a) (q.step a) := by
  cases a with
  | execve c slot =>
      cases slot with
      | none => exact h
      | some slot =>
          exact ⟨List.rel_append h.ring (.cons ⟨slot, rfl⟩ .nil), h.out⟩
  | consume =>
      obtain ⟨ring, out⟩ := s
      obtain ⟨waiting, taken⟩ := q
      obtain ⟨hring, hout⟩ := h
      cases hring with
      | nil => exact ⟨.nil, hout⟩
      | @cons r c ring waiting hrecord hring =>
          obtain ⟨slot, rfl⟩ := hrecord
          refine ⟨hring, ?_⟩
          change handleExecEvent out (c.submit slot) =
            (taken ++ [c]).flatMap fun c => execLine c.event
          have hlines : out = taken.flatMap fun c => execLine c.event := hout
          rw [handleExecEvent, load_submit, hlines, List.flatMap_append, List.flatMap_singleton]

/-- The ring and the console through a whole run. -/
theorem consoleShows_run (acts : List ExecAct) :
    ConsoleShows (ExecConsole.run acts) (ExecQueue.run acts) := by
  induction acts using List.reverseRecOn with
  | nil => exact ⟨.nil, rfl⟩
  | append_singleton acts a ih =>
      have hstep := ih.step a
      simpa only [ExecConsole.run, ExecQueue.run, List.foldl_append, List.foldl_cons,
        List.foldl_nil] using hstep

/-- No submitted call is lost, and none overtakes another. -/
theorem taken_append_waiting (acts : List ExecAct) :
    (ExecQueue.run acts).taken ++ (ExecQueue.run acts).waiting = submittedCalls acts := by
  induction acts using List.reverseRecOn with
  | nil => rfl
  | append_singleton acts a ih =>
      have hlast : ExecQueue.run (acts ++ [a]) = (ExecQueue.run acts).step a :=
        List.foldl_append
      rw [hlast, submittedCalls, List.filterMap_append, ← submittedCalls, ← ih]
      cases a with
      | execve c slot =>
          cases slot with
          | none => exact (List.append_nil _).symm
          | some slot => exact (List.append_assoc _ _ _).symm
      | consume =>
          rw [ExecQueue.step]
          cases hwaiting : (ExecQueue.run acts).waiting with
          | nil => simp [hwaiting]
          | cons c waiting => simp

/-- **What the console tells.** In every run the console shows the lines of the first calls that
got a slot, in order, whatever the slots held before; and two runs have the same console exactly
if the calls that were taken agree one by one in process, user and name, up to blanks at the end
of the name. So no name, whatever bytes it holds, passes for another line. -/
theorem console_eq_iff (acts acts' : List ExecAct) :
    (∃ waiting, (ExecQueue.run acts).taken ++ waiting = submittedCalls acts ∧
        waiting.length = (ExecConsole.run acts).ring.length) ∧
      (ExecConsole.run acts).out =
        ((ExecQueue.run acts).taken.flatMap fun c => execLine c.event) ∧
      ((ExecConsole.run acts).out = (ExecConsole.run acts').out ↔
        (ExecQueue.run acts).taken.map Execve.shown =
          (ExecQueue.run acts').taken.map Execve.shown) := by
  refine ⟨⟨_, taken_append_waiting acts, (consoleShows_run acts).ring.length_eq.symm⟩,
    (consoleShows_run acts).out, ?_⟩
  rw [(consoleShows_run acts).out, (consoleShows_run acts').out]
  exact flatMap_execLine_eq_iff

end UnifiedTrace
