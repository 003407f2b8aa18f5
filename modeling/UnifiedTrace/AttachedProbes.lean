import UnifiedTrace.EventShape
import UnifiedTrace.Startup

/-!
# What Partial Attachment Means for the Trace

`main` goes on when some of the CUDA programs are missing or cannot be attached. A program that
is not attached never fires. An event needs both programs of its function: the entry program
because a return finds no slot of its operation otherwise, the return program because nothing
else submits.

## Main results

* `Attached.of_run`: in every run, slots and events come from attached programs.
* `traced_functions`: the functions in a trace are among those with both programs attached.
-/

namespace UnifiedTrace

/-! ### Runs with these programs -/

/-- A row is attached to the function of the operation, at its return or at its entry. -/
def AttachedTo (rows : List ProbeRow) (op : CudaOp) (retprobe : Bool) : Prop :=
  ∃ row ∈ rows, row.funcName = cudaOpName op.code ∧ row.isRetprobe = retprobe

/-- What fires is attached. -/
def CallAct.FiresIn (rows : List ProbeRow) : CallAct → Prop
  | spawn _ | exit _ => True
  | enter a => a.fires = true → AttachedTo rows a.op false
  | leave a => a.fires = true → AttachedTo rows a.op true

/-- What is attached to the entry of a function is its entry program. -/
theorem AttachedTo.entryRow_mem {rows : List ProbeRow} {op : CudaOp}
    (h : AttachedTo rows op false) (hrows : rows ⊆ cudaFuncs) : op.entryRow ∈ rows := by
  obtain ⟨row, hmem, hname, hret⟩ := h
  have hrow := eq_row_of_funcName (hrows hmem) hname
  rw [hret, if_neg Bool.false_ne_true] at hrow
  exact hrow ▸ hmem

/-- What is attached to the return of a function is its return program. -/
theorem AttachedTo.returnRow_mem {rows : List ProbeRow} {op : CudaOp}
    (h : AttachedTo rows op true) (hrows : rows ⊆ cudaFuncs) : op.returnRow ∈ rows := by
  obtain ⟨row, hmem, hname, hret⟩ := h
  have hrow := eq_row_of_funcName (hrows hmem) hname
  rw [hret, if_pos rfl] at hrow
  exact hrow ▸ hmem

namespace CallWorld

/-- Every slot was filled by an attached program, and every event comes from two. -/
structure Attached (rows : List ProbeRow) (w : CallWorld) : Prop where
  slot : ∀ k info, w.maps.cudaCalls.lookup k = some info →
    ∃ op : CudaOp, info.opType = op.code ∧ op.entryRow ∈ rows
  event : ∀ r ∈ w.returned, ∀ e, r.event = some e →
    ∃ op : CudaOp, e.opType = op.code ∧ op.entryRow ∈ rows ∧ op.returnRow ∈ rows

variable {cfg : CudaTracerCfg} {rows : List ProbeRow} {w w' : CallWorld}

/-- The map starts empty. -/
theorem Attached.init : Attached rows init where
  slot := by intro k info h; exact absurd h (by simp [CallWorld.init, CudaMaps.init])
  event := by intro r hr; exact absurd hr (by simp [CallWorld.init])

/-- Every action of attached probes keeps the entries to attached functions. -/
theorem Attached.of_step {act : CallAct} (hw : Attached rows w) (hrows : rows ⊆ cudaFuncs)
    (hact : act.FiresIn rows) (h : step cfg w act = some w') : Attached rows w' := by
  cases act with
  | spawn k =>
      obtain ⟨-, rfl⟩ := step_spawn_eq_some h
      exact ⟨hw.slot, hw.event⟩
  | exit k =>
      obtain rfl := step_exit_eq_some h
      exact ⟨hw.slot, hw.event⟩
  | enter a =>
      obtain ⟨cs, -, -, -, rfl⟩ := step_enter_eq_some h
      refine ⟨fun k info hinfo => ?_, hw.event⟩
      rcases lookup_entered_cases hinfo with ⟨rfl, hsaved⟩ | ⟨hold, -⟩
      · obtain ⟨⟨hfires, -⟩, hstored⟩ := of_savedBy_eq_some hsaved
        exact ⟨a.op, hstored.opType, (hact hfires).entryRow_mem hrows⟩
      · exact hw.slot k info hold
  | leave a =>
      obtain ⟨c, cs, -, -, -, -, rfl⟩ := step_leave_eq_some h
      refine ⟨fun k info hinfo => hw.slot k info (lookup_left_cases hinfo).1, ?_⟩
      intro r hr e he
      rcases List.mem_append.mp hr with hr | hr
      · exact hw.event r hr e he
      · obtain rfl := List.mem_singleton.mp hr
        obtain ⟨hfires, info, hinfo, hcode, -, rfl⟩ := fireReturn_eq_some_iff.mp he
        obtain ⟨op, hop, hentry⟩ := hw.slot _ info hinfo
        -- the slot is of the operation that returns
        obtain rfl := CudaOp.code_injective (hop.symm.trans hcode)
        exact ⟨a.op, rfl, hentry, (hact hfires).returnRow_mem hrows⟩

/-- Slots and events come from attached programs in every run. -/
theorem Attached.of_run {acts : List CallAct} (hrows : rows ⊆ cudaFuncs)
    (hacts : ∀ act ∈ acts, act.FiresIn rows) (h : runs cfg acts = some w) : Attached rows w :=
  ActionRun.run_invariant Attached.init
    (fun act hact _ _ hu hstep => hu.of_step hrows (hacts act hact) hstep) h

end CallWorld

/-- **What a trace can show.** Let `main` come to the output, and let nothing fire but the
programs it attached. Then the functions of the CUDA records are functions whose entry program
and return program were both found and attached; all other functions are missing from the
trace, also those with one program attached. -/
theorem traced_functions {argv : List Bytes} {access : Bytes → Bool} {env : StartEnv}
    (hcalls : (main argv access env).callsOutput = true) {cfg : CudaTracerCfg}
    {acts : List CallAct} {w : CallWorld}
    (hacts : ∀ act ∈ acts, act.FiresIn (main argv access env).attached)
    (hrun : CallWorld.runs cfg acts = some w) (stackEnv : StackEnv) {events : List UnifiedEvent}
    (hevents : ∀ e, .gpu e ∈ events → e ∈ w.cudaEvents) :
    ∀ r, .complete r ∈ fileRecords (traceFile stackEnv events) →
      ∃ op : CudaOp, r.name = cudaOpName op.code ∧ env.probes.attaches op.entryRow = true ∧
        env.probes.attaches op.returnRow = true := by
  intro r hr
  obtain ⟨gpu, i, hgpu, rfl⟩ := exists_gpu_of_complete_mem hr
  obtain ⟨returned, hreturned, hevent⟩ := CallWorld.mem_cudaEvents_iff.mp (hevents gpu hgpu)
  have hattached := attached_of_callsOutput hcalls
  have hrows : (main argv access env).attached ⊆ cudaFuncs :=
    hattached ▸ List.filter_subset_self ..
  obtain ⟨op, hop, hentry, hreturn⟩ :=
    (CallWorld.Attached.of_run hrows hacts hrun).event returned hreturned gpu hevent
  rw [hattached] at hentry hreturn
  exact ⟨op, congrArg cudaOpName hop, (List.mem_filter.mp hentry).2,
    (List.mem_filter.mp hreturn).2⟩

/-- Everything works, but the library has no `cudaGraphLaunch` to return from. -/
def withoutGraphReturn : StartEnv where
  opensCpu := true
  loadsCpu := true
  stackMap := true
  schedProg _ := true
  schedAttach _ := true
  opensGpu := true
  loadsGpu := true
  probes := ⟨fun _ => true, fun row => decide (row ≠ CudaOp.returnRow .graphLaunch)⟩
  bswNew := true
  cpuEventsMap := true
  cpuRing := true
  cudaEventsMap := true
  gpuRing := true
  rounds := 1
  interrupted := false
  fopen := true
  calloc := true

/-- An allocation, and a graph launch whose return is not seen. -/
def graphLaunchRun : List CallAct :=
  [.spawn 1, .enterAt 1 10 1 .malloc true, .leaveAt 1 12 1 .malloc true,
    .enterAt 1 13 2 .graphLaunch true, .leaveAt 1 15 2 .graphLaunch false]

/-- A launch is traced, and the graph launch without its return program is not. -/
theorem traced_functions_without_graph_return :
    ∃ w, CallWorld.runs CudaTracerCfg.default graphLaunchRun = some w ∧
      w.cudaEvents.map CudaEvent.opType = [1] ∧
      ∀ r, .complete r ∈ fileRecords (traceFile .noStacks (w.cudaEvents.map .gpu)) →
        ∃ op : CudaOp, r.name = cudaOpName op.code ∧
          withoutGraphReturn.probes.attaches op.entryRow = true ∧
          withoutGraphReturn.probes.attaches op.returnRow = true := by
  have hmap : (CallWorld.runs CudaTracerCfg.default graphLaunchRun).map
      (fun w => w.cudaEvents.map CudaEvent.opType) = some [1] := by decide +kernel
  obtain ⟨w, hrun, hops⟩ := Option.map_eq_some_iff.mp hmap
  have hcalls : (main [] (fun _ => true) withoutGraphReturn).callsOutput = true :=
    (main_of_accepted withoutGraphReturn rfl rfl).2.2.1.mpr ⟨⟨rfl, rfl⟩, ⟨rfl, rfl⟩, ⟨rfl, rfl⟩,
      rfl, rfl⟩
  refine ⟨w, hrun, hops, traced_functions hcalls ?_ hrun _ ?_⟩
  · rw [attached_of_callsOutput hcalls]
    have hrow : ∀ row ∈ cudaFuncs, row ≠ CudaOp.returnRow .graphLaunch →
        row ∈ cudaFuncs.filter withoutGraphReturn.probes.attaches := fun row hrow hne =>
      List.mem_filter.mpr ⟨hrow, decide_eq_true hne⟩
    intro act hact
    simp only [graphLaunchRun, List.mem_cons, List.not_mem_nil, or_false] at hact
    rcases hact with rfl | rfl | rfl | rfl | rfl
    · trivial
    · exact fun _ => ⟨_, hrow _ (mem_cudaFuncs_iff.mpr ⟨.malloc, .inl rfl⟩) (by decide), rfl,
        isRetprobe_entryRow _⟩
    · exact fun _ => ⟨_, hrow _ (mem_cudaFuncs_iff.mpr ⟨.malloc, .inr rfl⟩) (by decide), rfl,
        isRetprobe_returnRow _⟩
    · exact fun _ => ⟨_, hrow _ (mem_cudaFuncs_iff.mpr ⟨.graphLaunch, .inl rfl⟩) (by decide), rfl,
        isRetprobe_entryRow _⟩
    · exact fun h => absurd h Bool.false_ne_true
  · intro e he
    obtain ⟨e', he', heq⟩ := List.mem_map.mp he
    exact UnifiedEvent.gpu.inj heq ▸ he'

end UnifiedTrace
