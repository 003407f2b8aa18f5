import UnifiedTrace.Merge
import UnifiedTrace.MockWorkload
import UnifiedTrace.ValidateTrace

/-!
# The Mock Test

`tests/e2e/run_mock.sh` traces the mock workload and validates the trace it gets. It asks for
half of the events of the workload only, because the probes are armed while the workload may
already be running. This module follows the events from the calls of the workload through the
rings, the sort and the file to the exit status of the validator.

## Main results

* `complete_mem_realRecords`: every collected CUDA event has its record in the file.
* `mock_trace_validates`: the test passes in every run in which the probes were armed for at
  least half of the iterations and no event was lost after that.
-/

namespace UnifiedTrace

open Json

/-! ### Records of CUDA events -/

/-- Every CUDA event has a record in the file. -/
theorem complete_mem_realRecords {env : StackEnv} {events : List UnifiedEvent} {e : CudaEvent}
    (he : .gpu e ∈ events) :
    ∃ i, .complete (completeRecord env (minTimestamp events) i e) ∈ realRecords env events := by
  obtain ⟨pre, post, rfl⟩ := List.append_of_mem he
  refine ⟨0 + pre.length, ?_⟩
  rw [realRecords, ← fileRecords_traceFile_eq, filter_fileRecords_traceFile, fileEventRecords]
  exact List.mem_map.mpr ⟨_, (mem_eventRecords_iff ..).mpr ⟨pre, post, rfl, rfl⟩, rfl⟩

/-- The number of events whose record has the phase. -/
def eventCount (p : Phase) (events : List UnifiedEvent) : ℕ :=
  events.countP fun e => e.phase? = some p

/-- There are at least as many records as CUDA events. -/
theorem countP_gpu_le_length_realRecords (env : StackEnv) (events : List UnifiedEvent) :
    eventCount .x events ≤ (realRecords env events).length := by
  have hshown := (filter_eventRecords .x env (minTimestamp events) 0 .init events).2 (by decide)
  rw [realRecords, ← fileRecords_traceFile_eq, filter_fileRecords_traceFile, fileEventRecords,
    eventCount, List.countP_eq_length_filter, ← hshown, List.length_map, List.length_map]
  exact List.length_filter_le _ _

/-! ### The test -/

/-- What `run_mock.sh` asks the validator for. -/
def mockArgs (iters : ℕ) : ValidateArgs where
  expectEventsMin := (iters * 12 / 2 : ℕ)
  requireCategories := pyStr "gpu_compute,gpu_sync,gpu_xfer,gpu_mem"
  noRequireStacksFrom := true

/-- The four categories that `run_mock.sh` asks for. -/
theorem required_mockArgs (iters : ℕ) : (mockArgs iters).required =
    [pyStr "gpu_compute", pyStr "gpu_sync", pyStr "gpu_xfer", pyStr "gpu_mem"] := by
  rw [ValidateArgs.required]
  change List.filter _ ((pyStr "gpu_compute,gpu_sync,gpu_xfer,gpu_mem").splitOn 0x2C) = _
  decide +kernel

/-- A call that the workload makes in every iteration has an event. -/
theorem exists_event_of_runIter {events : List CudaEvent} {frames : ℕ → IterFrame}
    {stream : UInt64} {i n : ℕ} (hn : 0 < n)
    (hrows : events.map CudaEvent.row = (mockCalls frames stream i n).map MockCall.row)
    {m : MockCall} (hm : m ∈ (runIter (frames i) stream).1) :
    ∃ e ∈ events, e.opType = m.op.code := by
  obtain ⟨n, rfl⟩ := Nat.exists_eq_succ_of_ne_zero hn.ne'
  have hmem : m.row ∈ (mockCalls frames stream i (n + 1)).map MockCall.row :=
    List.mem_map_of_mem (List.mem_append_left _ hm)
  rw [← hrows] at hmem
  obtain ⟨e, he, hrow⟩ := List.mem_map.mp hmem
  exact ⟨e, he, congrArg EventRow.op hrow⟩

/-- A record of each category of the workload. -/
theorem category_mem_of_runIter {env : StackEnv} {sorted : List UnifiedEvent}
    {events : List CudaEvent} (hevents : ∀ e ∈ events, .gpu e ∈ sorted)
    {frames : ℕ → IterFrame} {stream : UInt64} {i n : ℕ} (hn : 0 < n)
    (hrows : events.map CudaEvent.row = (mockCalls frames stream i n).map MockCall.row)
    {m : MockCall} (hm : m ∈ (runIter (frames i) stream).1) :
    ∃ r ∈ realRecords env sorted, r.category = cudaOpCategory m.op.code := by
  obtain ⟨e, he, hop⟩ := exists_event_of_runIter hn hrows hm
  obtain ⟨j, hmem⟩ := @complete_mem_realRecords env _ _ (hevents e he)
  exact ⟨_, hmem, congrArg cudaOpCategory hop⟩

/-- **The mock test passes.** Take any run of at most `10240` thread identities in which a traced
thread runs the workload, with its probes armed for at least one and at least half of the
iterations and no reservation of its failing after that, and any other events beside it. If all
events of the thread arrive, in any order, and the array `events` has room for what arrives, then
the validator exits with `0` on the file that is written after any sort. -/
theorem mock_trace_validates {cfg : CudaTracerCfg} {acts : List CallAct} {w : CallWorld}
    {K : Finset UInt64} (hk : ∀ act ∈ acts, act.key ∈ K)
    (hcard : K.card ≤ cudaCallsMaxEntries) (hrun : CallWorld.runs cfg acts = some w)
    {k : UInt64} (hp : cfg.Passes k) {early late : List FlatCall}
    (hcalls : ∀ c ∈ early ++ late, c.On k) (exits : Bool)
    (hacts : (acts.filter fun act => act.key = k) =
      .spawn k :: ((early ++ late).flatMap FlatCall.acts ++ if exits then [.exit k] else []))
    (hearly : ∀ c ∈ early, c.enter.fires = false) {frames : ℕ → IterFrame} {stream : UInt64}
    {i n iters : ℕ} (hmakes : List.Forall₂ FlatCall.Makes late (mockCalls frames stream i n))
    (hn : 0 < n) (hhalf : iters ≤ 2 * n) {arrivals sorted : List UnifiedEvent}
    (harrive : ((w.threadEvents k).map UnifiedEvent.gpu).Subperm arrivals)
    (hlen : arrivals.length ≤ maxEvents) (hsort : IsSortOf sorted (collect arrivals).events)
    {env : StackEnv} (hread : ReadableTrace env sorted)
    {loads : Bytes → Except LoadError Value}
    (hloads : LoadsDocument loads (fileText (traceFile env sorted)))
    (numTruthy : Bytes → Bool) :
    validateMain loads numTruthy (mockArgs iters) (some (fileText (traceFile env sorted))) = 0 := by
  have hrows := rows_of_mockCalls hk hcard hrun hp hcalls exits hacts hearly hmakes
  rw [events_collect_of_length_le hlen] at hsort
  have hsorted : ((w.threadEvents k).map UnifiedEvent.gpu).Subperm sorted :=
    harrive.trans hsort.1.symm.subperm
  have hevents : ∀ e ∈ w.threadEvents k, .gpu e ∈ sorted :=
    fun e he => hsorted.subset (List.mem_map_of_mem he)
  have hcategory : ∀ m ∈ (runIter (frames i) stream).1,
      ∃ r ∈ realRecords env sorted, r.category = cudaOpCategory m.op.code :=
    fun m hm => category_mem_of_runIter hevents hn hrows hm
  refine (validateMain_accepts_iff hread hloads numTruthy).mpr ⟨?_, ?_, ?_, .inl rfl⟩
  · -- there are twelve records for each iteration that was seen
    have hcount : (w.threadEvents k).length ≤ eventCount .x sorted := by
      have hall : eventCount .x ((w.threadEvents k).map UnifiedEvent.gpu) =
          (w.threadEvents k).length := by
        rw [eventCount, List.countP_map]
        exact List.countP_eq_length.mpr fun e _ => by simp [UnifiedEvent.phase?]
      rw [← hall]
      exact hsorted.countP_le _
    have hlength : (w.threadEvents k).length = n * eventsPerIter := by
      have h := congrArg List.length hrows
      rwa [List.length_map, List.length_map, length_mockCalls] at h
    have hrecords := hcount.trans (countP_gpu_le_length_realRecords env sorted)
    rw [hlength, eventsPerIter] at hrecords
    have hexpect : iters * 12 / 2 ≤ (realRecords env sorted).length := by omega
    exact Int.ofNat_le.mpr hexpect
  · intro c hc
    rw [required_mockArgs] at hc
    refine .inl ?_
    simp only [List.mem_cons, List.not_mem_nil, or_false] at hc
    rcases hc with rfl | rfl | rfl | rfl
    · obtain ⟨r, hr, hcat⟩ := hcategory ⟨.launchKernel, [0x4144, 1, 1, 0, 0, stream]⟩
        (by simp [runIter])
      exact ⟨r, hr, congrArg units hcat⟩
    · obtain ⟨r, hr, hcat⟩ := hcategory ⟨.streamSync, [stream]⟩ (by simp [runIter])
      exact ⟨r, hr, congrArg units hcat⟩
    · obtain ⟨r, hr, hcat⟩ := hcategory
        ⟨.memcpyAsync, [(frames i).hostBuf, fakeDevPtr 4096, 256, 2, stream]⟩
        (by simp [runIter])
      exact ⟨r, hr, congrArg units hcat⟩
    · obtain ⟨r, hr, hcat⟩ := hcategory ⟨.malloc, [(frames i).dA, 4096]⟩ (by simp [runIter])
      exact ⟨r, hr, congrArg units hcat⟩
  · obtain ⟨e, he, -⟩ := exists_event_of_runIter hn hrows
      (show (⟨.streamSync, [stream]⟩ : MockCall) ∈ (runIter (frames i) stream).1 by
        simp [runIter])
    obtain ⟨j, hmem⟩ := @complete_mem_realRecords env _ _ (hevents e he)
    exact .inr ⟨_, hmem⟩

/-- One of two iterations is seen. -/
theorem mock_trace_validates_one_iteration :
    ∃ w, CallWorld.runs CudaTracerCfg.default oneIterationRun = some w ∧
      validateMain (loadsTrace .noStacks ((w.threadEvents 1).map .gpu)) (fun _ => true)
        (mockArgs 2)
        (some (fileText (traceFile .noStacks ((w.threadEvents 1).map .gpu)))) = 0 := by
  have hmap : (CallWorld.runs CudaTracerCfg.default oneIterationRun).map (fun w =>
      (decide (((w.threadEvents 1).map UnifiedEvent.gpu).Pairwise
          fun a b => a.timestamp ≤ b.timestamp),
        ((w.threadEvents 1).map UnifiedEvent.gpu).all fun e => e.comm = .empty,
        (w.threadEvents 1).length)) = some (true, true, 12) := by decide +kernel
  obtain ⟨w, hrun, hfacts⟩ := Option.map_eq_some_iff.mp hmap
  obtain ⟨hordered, hrest⟩ := Prod.mk.inj hfacts
  obtain ⟨hnameless, hlength⟩ := Prod.mk.inj hrest
  obtain ⟨hmakes, hcalls⟩ :=
    FlatCall.makes_ofMocks 1 0 (workloadCalls (fun _ => someFrame) 1)
  have hread : ReadableTrace .noStacks ((w.threadEvents 1).map .gpu) :=
    readableTrace_of_nameless printableFrames_noStacks fun e he =>
      of_decide_eq_true (List.all_eq_true.mp hnameless e he)
  have hroom : ((w.threadEvents 1).map UnifiedEvent.gpu).length ≤ maxEvents := by
    rw [List.length_map, hlength]
    decide
  have hsort : IsSortOf ((w.threadEvents 1).map .gpu)
      (collect ((w.threadEvents 1).map .gpu)).events := by
    rw [events_collect_of_length_le hroom]
    exact isSortOf_iff.mpr ⟨.refl _, of_decide_eq_true hordered⟩
  have hacts : (oneIterationRun.filter fun act => act.key = 1) =
      .spawn 1 :: (([] ++ FlatCall.ofMocks 1 0 (workloadCalls (fun _ => someFrame) 1)).flatMap
        FlatCall.acts ++ if true then [.exit 1] else []) := rfl
  refine ⟨w, hrun, ?_⟩
  exact mock_trace_validates keys_oneIterationRun (by decide) hrun (.inl rfl) hcalls true hacts
    (fun c hc => absurd hc List.not_mem_nil) hmakes (by decide) (by decide)
    (List.Subperm.refl _) hroom hsort hread hread.loadsDocument _

end UnifiedTrace
