import UnifiedTrace.ChromeTrace
import UnifiedTrace.ResourceLog

/-!
# The Table of CUDA Probes

`unified_trace.c` and `trace_cuda.c` attach the CUDA programs from the same table `cuda_funcs`
with the same loop: a program that is missing is skipped, and the link of one that cannot be
attached is overwritten by the next. Only `unified_trace.c` tests that the array of links has
room left; the table is short enough for both.

## Main results

* `mem_cudaFuncs_iff`: the table has two rows for every operation and no others.
* `eq_row_of_funcName`: the test for `"return"` attaches each program at its end of the function.
* `attachFrom_rule`: the loop attaches exactly the rows that can be attached.
-/

namespace UnifiedTrace

open ResourceLog

/-! ### The table of probes -/

/-- A row of `cuda_funcs`: the function of the CUDA runtime and the program. -/
structure ProbeRow where
  funcName : Bytes
  probeName : Bytes
  deriving DecidableEq

/-- `cuda_funcs`. -/
def cudaFuncs : List ProbeRow :=
  [⟨ascii "cudaMalloc", ascii "trace_cuda_malloc_entry"⟩,
    ⟨ascii "cudaMalloc", ascii "trace_cuda_malloc_return"⟩,
    ⟨ascii "cudaFree", ascii "trace_cuda_free_entry"⟩,
    ⟨ascii "cudaFree", ascii "trace_cuda_free_return"⟩,
    ⟨ascii "cudaMemcpy", ascii "trace_cuda_memcpy_entry"⟩,
    ⟨ascii "cudaMemcpy", ascii "trace_cuda_memcpy_return"⟩,
    ⟨ascii "cudaLaunchKernel", ascii "trace_cuda_launch_entry"⟩,
    ⟨ascii "cudaLaunchKernel", ascii "trace_cuda_launch_return"⟩,
    ⟨ascii "cudaDeviceSynchronize", ascii "trace_cuda_sync_entry"⟩,
    ⟨ascii "cudaDeviceSynchronize", ascii "trace_cuda_sync_return"⟩,
    ⟨ascii "cudaMemcpyAsync", ascii "trace_cuda_memcpy_async_entry"⟩,
    ⟨ascii "cudaMemcpyAsync", ascii "trace_cuda_memcpy_async_return"⟩,
    ⟨ascii "cudaStreamSynchronize", ascii "trace_cuda_stream_sync_entry"⟩,
    ⟨ascii "cudaStreamSynchronize", ascii "trace_cuda_stream_sync_return"⟩,
    ⟨ascii "cudaStreamCreate", ascii "trace_cuda_stream_create_entry"⟩,
    ⟨ascii "cudaStreamCreate", ascii "trace_cuda_stream_create_return"⟩,
    ⟨ascii "cudaStreamDestroy", ascii "trace_cuda_stream_destroy_entry"⟩,
    ⟨ascii "cudaStreamDestroy", ascii "trace_cuda_stream_destroy_return"⟩,
    ⟨ascii "cudaEventRecord", ascii "trace_cuda_event_record_entry"⟩,
    ⟨ascii "cudaEventRecord", ascii "trace_cuda_event_record_return"⟩,
    ⟨ascii "cudaEventSynchronize", ascii "trace_cuda_event_sync_entry"⟩,
    ⟨ascii "cudaEventSynchronize", ascii "trace_cuda_event_sync_return"⟩,
    ⟨ascii "cudaEventQuery", ascii "trace_cuda_event_query_entry"⟩,
    ⟨ascii "cudaEventQuery", ascii "trace_cuda_event_query_return"⟩,
    ⟨ascii "cudaLaunchKernelExC", ascii "trace_cuda_launch_ex_entry"⟩,
    ⟨ascii "cudaLaunchKernelExC", ascii "trace_cuda_launch_ex_return"⟩,
    ⟨ascii "cudaGraphLaunch", ascii "trace_cuda_graph_launch_entry"⟩,
    ⟨ascii "cudaGraphLaunch", ascii "trace_cuda_graph_launch_return"⟩]

/-- The size of `gpu_links` and of `links`. -/
def gpuLinksCap : ℕ := 32

/-- `is_retprobe`. -/
def ProbeRow.isRetprobe (row : ProbeRow) : Bool := decide (ascii "return" <:+: row.probeName)

/-! ### The rows of an operation -/

/-- The entry program of an operation. -/
def CudaOp.entryProgram : CudaOp → Bytes
  | malloc => ascii "trace_cuda_malloc_entry"
  | free => ascii "trace_cuda_free_entry"
  | memcpy => ascii "trace_cuda_memcpy_entry"
  | launchKernel => ascii "trace_cuda_launch_entry"
  | sync => ascii "trace_cuda_sync_entry"
  | memcpyAsync => ascii "trace_cuda_memcpy_async_entry"
  | streamSync => ascii "trace_cuda_stream_sync_entry"
  | streamCreate => ascii "trace_cuda_stream_create_entry"
  | streamDestroy => ascii "trace_cuda_stream_destroy_entry"
  | eventRecord => ascii "trace_cuda_event_record_entry"
  | eventSync => ascii "trace_cuda_event_sync_entry"
  | eventQuery => ascii "trace_cuda_event_query_entry"
  | launchKernelEx => ascii "trace_cuda_launch_ex_entry"
  | graphLaunch => ascii "trace_cuda_graph_launch_entry"

/-- The return program of an operation. -/
def CudaOp.returnProgram : CudaOp → Bytes
  | malloc => ascii "trace_cuda_malloc_return"
  | free => ascii "trace_cuda_free_return"
  | memcpy => ascii "trace_cuda_memcpy_return"
  | launchKernel => ascii "trace_cuda_launch_return"
  | sync => ascii "trace_cuda_sync_return"
  | memcpyAsync => ascii "trace_cuda_memcpy_async_return"
  | streamSync => ascii "trace_cuda_stream_sync_return"
  | streamCreate => ascii "trace_cuda_stream_create_return"
  | streamDestroy => ascii "trace_cuda_stream_destroy_return"
  | eventRecord => ascii "trace_cuda_event_record_return"
  | eventSync => ascii "trace_cuda_event_sync_return"
  | eventQuery => ascii "trace_cuda_event_query_return"
  | launchKernelEx => ascii "trace_cuda_launch_ex_return"
  | graphLaunch => ascii "trace_cuda_graph_launch_return"

/-- The row of the entry program. -/
def CudaOp.entryRow (op : CudaOp) : ProbeRow := ⟨cudaOpName op.code, op.entryProgram⟩

/-- The row of the return program. -/
def CudaOp.returnRow (op : CudaOp) : ProbeRow := ⟨cudaOpName op.code, op.returnProgram⟩

/-- The operations in the order of the table. -/
def tableOps : List CudaOp :=
  [.malloc, .free, .memcpy, .launchKernel, .sync, .memcpyAsync, .streamSync, .streamCreate,
    .streamDestroy, .eventRecord, .eventSync, .eventQuery, .launchKernelEx, .graphLaunch]

/-- The table has an entry row and a return row for each operation. -/
theorem cudaFuncs_eq : cudaFuncs = tableOps.flatMap fun op => [op.entryRow, op.returnRow] :=
  rfl

/-- No operation is missing from the table. -/
theorem mem_tableOps (op : CudaOp) : op ∈ tableOps := by
  cases op <;> decide

/-- **The table** has the two rows of every operation, under the name that the output uses. -/
theorem mem_cudaFuncs_iff {row : ProbeRow} :
    row ∈ cudaFuncs ↔ ∃ op : CudaOp, row = op.entryRow ∨ row = op.returnRow := by
  rw [cudaFuncs_eq, List.mem_flatMap]
  constructor
  · rintro ⟨op, -, hrow⟩
    exact ⟨op, by simpa using hrow⟩
  · rintro ⟨op, hrow⟩
    exact ⟨op, mem_tableOps op, by simpa using hrow⟩

/-- The names of the return programs contain `"return"`. -/
theorem isRetprobe_returnRow (op : CudaOp) : op.returnRow.isRetprobe = true := by
  cases op <;> decide

/-- Those of the entry programs do not. -/
theorem isRetprobe_entryRow (op : CudaOp) : op.entryRow.isRetprobe = false := by
  cases op <;> decide

/-- The functions have different names. -/
theorem cudaOpName_code_injective {op op' : CudaOp}
    (h : cudaOpName op.code = cudaOpName op'.code) : op = op' := by
  have hnodup : (tableOps.map fun op => cudaOpName op.code).Nodup := by decide
  exact List.inj_on_of_nodup_map hnodup (mem_tableOps op) (mem_tableOps op') h

/-- **Attached at the right end**: a program that the test for `"return"` attaches at one end of a
function is the program for that end of that function. -/
theorem eq_row_of_funcName {row : ProbeRow} (h : row ∈ cudaFuncs) {op : CudaOp}
    (hname : row.funcName = cudaOpName op.code) :
    row = if row.isRetprobe then op.returnRow else op.entryRow := by
  obtain ⟨op', rfl | rfl⟩ := mem_cudaFuncs_iff.mp h
  · obtain rfl := cudaOpName_code_injective hname
    rw [isRetprobe_entryRow]
    rfl
  · obtain rfl := cudaOpName_code_injective hname
    rw [isRetprobe_returnRow, if_pos rfl]

/-! ### The loop -/

/-- Which programs the object has, and which of them can be attached. -/
structure ProbeEnv where
  prog : Bytes → Bool
  attach : ProbeRow → Bool

/-- The row is attached as long as there is room. -/
def ProbeEnv.attaches (env : ProbeEnv) (row : ProbeRow) : Bool :=
  env.prog row.probeName && env.attach row

section Loop

variable {H ρ : Type} [DecidableEq H] (env : ProbeEnv) (obj : H) (link : Fin gpuLinksCap → H)
  (attached : ρ → List ProbeRow) (push : ProbeRow → ρ → ρ) (full : Prog (Store H ρ) Unit)

/-- One round, with the next free link. -/
def attachRow (row : ProbeRow) (i : Fin gpuLinksCap) : Prog (Store H ρ) Unit := do
  if ← call obj (env.prog row.probeName) then
    if ← assign (link i) (env.attach row) then
      setData (push row)

/-- The loop over the rows. The counter of the links is the number of attached rows; `full` is what
happens when the array of links has no room for the next. -/
def attachFrom : List ProbeRow → Prog (Store H ρ) Unit
  | [] => pure ()
  | row :: rest => do
      let s ← get
      if h : (attached s.data).length < gpuLinksCap then
        attachRow env obj link push row ⟨(attached s.data).length, h⟩
        attachFrom rest
      else
        full

variable {env obj link attached push full} {parent : H → Option H} {rank : H → ℕ} {base : ℕ}
  {must : List H} {D : List ProbeRow → ρ → Prop} {rows : List ProbeRow} {E : Store H ρ → Prop}
  (hparent : ∀ i, parent (link i) = some obj) (hrank : ∀ i, rank (link i) = base + i)
  (hmem : obj ∈ must) (hpush : ∀ rows d row, D rows d → D (rows ++ [row]) (push row d))

include hparent hrank hmem hpush

/-- **One row.** If its program is there and can be attached, it takes the next link. -/
theorem attachRow_rule (row : ProbeRow) {i : Fin gpuLinksCap} (hi : i = rows.length) :
    Triple (Holding parent rank (base + rows.length) must (D rows))
      (attachRow env obj link push row i)
      (fun _ => Holding parent rank (base + (rows ++ [row].filter env.attaches).length) must
        (D (rows ++ [row].filter env.attaches))) E := by
  have hlink : rank (link i) = base + rows.length := (hrank i).trans (congrArg (base + ·) hi)
  have hobj : ∀ p ∈ parent (link i), p ∈ must := by
    intro p hp
    rw [hparent] at hp
    exact Option.mem_some.mp hp ▸ hmem
  -- without an attachment the rows stay as they are
  have hskip : env.attaches row = false →
      Triple (Holding parent rank (base + rows.length) must (D rows)) (pure ())
        (fun _ => Holding parent rank (base + (rows ++ [row].filter env.attaches).length) must
          (D (rows ++ [row].filter env.attaches))) E := by
    intro hno
    rw [List.filter_singleton, hno, cond_false, List.append_nil]
    exact Triple.pure fun _ h => h
  refine (call_rule (env.prog row.probeName) hmem).bind fun b => Triple.of_and fun hb => ?_
  cases hprog : env.prog row.probeName with
  | false =>
      obtain rfl := hb.trans hprog
      exact hskip (by rw [ProbeEnv.attaches, hprog, Bool.false_and])
  | true =>
      obtain rfl := hb.trans hprog
      rw [if_pos rfl]
      refine (assign_rule (env.attach row) hlink.ge hobj).bind fun b' =>
        Triple.of_and fun hb' => ?_
      cases hattach : env.attach row with
      | false =>
          obtain rfl := hb'.trans hattach
          exact hskip (by rw [ProbeEnv.attaches, hattach, Bool.and_false])
      | true =>
          obtain rfl := hb'.trans hattach
          have hyes : env.attaches row = true := by
            rw [ProbeEnv.attaches, hprog, hattach, Bool.and_self]
          rw [List.filter_singleton, hyes, cond_true, List.length_append, List.length_singleton]
          simp only [if_true]
          have hset : Triple (Holding parent rank (rank (link i) + 1) (link i :: must) (D rows))
              (setData (push row))
              (fun _ => Holding parent rank (rank (link i) + 1) (link i :: must)
                (D (rows ++ [row]))) E := setData_rule fun d hd => hpush rows d row hd
          exact hset.mono (fun _ h => h) fun _ s h =>
            h.mono (by omega) (List.subset_cons_self _ _)

/-- **The loop** attaches what can be attached, if there is room for the whole table; what happens
in a full array does not matter then. -/
theorem attachFrom_rule (hattached : ∀ rows d, D rows d → attached d = rows)
    {rest : List ProbeRow} (hroom : rows.length + rest.length ≤ gpuLinksCap) :
    Triple (Holding parent rank (base + rows.length) must (D rows))
      (attachFrom env obj link attached push full rest)
      (fun _ => Holding parent rank (base + (rows ++ rest.filter env.attaches).length) must
        (D (rows ++ rest.filter env.attaches))) E := by
  induction rest generalizing rows with
  | nil =>
      rw [List.filter_nil, List.append_nil]
      exact Triple.pure fun _ h => h
  | cons row rest ih =>
      rw [List.length_cons] at hroom
      refine Triple.get fun t => ?_
      -- the counter of the source is the number of rows so far
      refine Triple.mono (P := fun s => attached t.data = rows ∧
          Holding parent rank (base + rows.length) must (D rows) s)
        (Triple.of_and fun hrows => ?_)
        (fun s h => ⟨h.2 ▸ hattached rows s.data h.1.data, h.1⟩) fun _ _ h => h
      have hlt : (attached t.data).length < gpuLinksCap := by rw [hrows]; omega
      rw [dif_pos hlt]
      have hlen : (rows ++ [row].filter env.attaches).length + rest.length ≤ gpuLinksCap := by
        have := List.length_filter_le env.attaches [row]
        rw [List.length_singleton] at this
        rw [List.length_append]
        omega
      have hrest := ih hlen
      rw [List.append_assoc, ← List.filter_append, List.singleton_append] at hrest
      exact (attachRow_rule hparent hrank hmem hpush row (congrArg List.length hrows)).bind
        fun _ => hrest

end Loop

end UnifiedTrace
