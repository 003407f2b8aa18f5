import UnifiedTrace.EventRecords

/-!
# Rows of the Timeline

A CUDA record is shown on the row `tid + 1000000 + offset` of its process, where the offset
is `0` for the default stream and a hash of the stream, from `1` to `255`, for the others. The
rows of a thread therefore reach into those of the threads with the next 255 thread ids, and
the rows of threads with small ids lie where threads with large ids have their scheduling
rows. This module says exactly when that goes well.

## Main results

* `gpuRow_eq_iff`: rows are equal exactly when the sums of thread id and offset are; the
  addition does not wrap.
* `rowsApart_iff`: the rows of a file keep threads apart exactly when no stream offset
  bridges the distance between two thread ids of one process.
* `neighbours_share_row`: the streams of a thread on the rows of the next thread.
-/

namespace UnifiedTrace

/-- The thread id of the event. -/
def UnifiedEvent.tid : UnifiedEvent → UInt32
  | cpu e => e.tid
  | gpu e => e.tid

/-- The row number of a CUDA event, `gpu_virtual_tid`. -/
def CudaEvent.gpuRow (gpu : CudaEvent) : UInt32 :=
  gpu.tid + 1000000 + streamOffset gpu.streamId

/-- The offset of the event's stream. -/
def CudaEvent.offset (gpu : CudaEvent) : ℕ := (streamOffset gpu.streamId).toNat

/-! ### Row numbers -/

/-- Offsets are hashes of eight bits. -/
theorem streamOffset_le (streamId : UInt64) : (streamOffset streamId).toNat ≤ 255 := by
  rw [streamOffset]
  split
  · dsimp only
    split
    · decide
    · rw [UInt64.toNat_toUInt32, UInt64.toNat_and]
      exact (Nat.mod_le _ _).trans Nat.and_le_right
  · decide

/-- Only the default stream has offset zero. -/
theorem streamOffset_pos {streamId : UInt64} (h : streamId ≠ 0) :
    0 < (streamOffset streamId).toNat := by
  rw [streamOffset, if_pos h]
  dsimp only
  split
  · decide
  · rename_i hne
    refine Nat.pos_of_ne_zero fun hz => hne ?_
    exact UInt32.toNat_inj.mp hz

/-- The thread id and the offset leave room, so row numbers do not wrap. -/
theorem toNat_row {tid offset : UInt32} (htid : tid ≤ pidMaxLimit)
    (hoffset : offset.toNat ≤ 255) :
    (tid + 1000000 + offset).toNat = tid.toNat + 1000000 + offset.toNat := by
  have hle : tid.toNat ≤ 4194304 := htid
  have hbase : (tid + 1000000).toNat = tid.toNat + 1000000 := by
    rw [UInt32.toNat_add]
    refine Nat.mod_eq_of_lt ?_
    have h : (1000000 : UInt32).toNat = 1000000 := rfl
    omega
  rw [UInt32.toNat_add, hbase]
  refine Nat.mod_eq_of_lt ?_
  omega

/-- The row of a CUDA event as a number. -/
theorem toNat_gpuRow {gpu : CudaEvent} (htid : gpu.tid ≤ pidMaxLimit) :
    gpu.gpuRow.toNat = gpu.tid.toNat + 1000000 + gpu.offset :=
  toNat_row htid (streamOffset_le _)

/-- The base row of a thread. -/
theorem toNat_baseRow {tid : UInt32} (htid : tid ≤ pidMaxLimit) :
    (tid + 1000000).toNat = tid.toNat + 1000000 := by
  have h := @toNat_row tid 0 htid (by decide)
  rwa [UInt32.add_zero] at h

/-- **When CUDA events share a row.** -/
theorem gpuRow_eq_iff {g h : CudaEvent} (hg : g.tid ≤ pidMaxLimit) (hh : h.tid ≤ pidMaxLimit) :
    g.gpuRow = h.gpuRow ↔ g.tid.toNat + g.offset = h.tid.toNat + h.offset := by
  rw [← UInt32.toNat_inj, toNat_gpuRow hg, toNat_gpuRow hh]
  omega

/-- A call is on the base row of a thread exactly when its offset bridges their distance. -/
theorem gpuRow_eq_baseRow_iff {g h : CudaEvent} (hg : g.tid ≤ pidMaxLimit)
    (hh : h.tid ≤ pidMaxLimit) :
    g.gpuRow = h.tid + 1000000 ↔ g.tid.toNat + g.offset = h.tid.toNat := by
  rw [← UInt32.toNat_inj, toNat_gpuRow hg, toNat_baseRow hh]
  omega

/-- A call is on the CPU row of a thread exactly when the thread id is that far away. -/
theorem gpuRow_eq_tid_iff {g : CudaEvent} {tid : UInt32} (hg : g.tid ≤ pidMaxLimit) :
    g.gpuRow = tid ↔ g.tid.toNat + 1000000 + g.offset = tid.toNat := by
  rw [← UInt32.toNat_inj, toNat_gpuRow hg]

/-! ### Rows of a file -/

/-- The rows of the file keep threads apart, within each pid: CUDA records on one row are of
one thread, a stream other than the default one is on no thread's base row, and no CUDA record
is on the row of a scheduling record. -/
structure RowsApart (env : StackEnv) (events : List UnifiedEvent) : Prop where
  oneThread : ∀ g r h s, (.gpu g, r) ∈ fileEventRecords env events →
    (.gpu h, s) ∈ fileEventRecords env events → r.row = s.row → g.tid = h.tid
  baseRow : ∀ g r h s, (.gpu g, r) ∈ fileEventRecords env events →
    (.gpu h, s) ∈ fileEventRecords env events → g.streamId ≠ 0 →
    r.row ≠ (s.row.1, h.tid + 1000000)
  cpuRow : ∀ g r c s, (.gpu g, r) ∈ fileEventRecords env events →
    (.cpu c, s) ∈ fileEventRecords env events → r.row ≠ s.row

/-- No offset bridges a distance: for two CUDA threads of one process, `d` apart, no stream of
the first has the offset `d`, or `d` more than a stream of the second; and no CPU event with a
record has a thread id a million and an offset above the one of a CUDA event of its process. -/
structure OffsetsApart (events : List UnifiedEvent) : Prop where
  threads : ∀ g h d, .gpu g ∈ events → .gpu h ∈ events → g.pid = h.pid → 0 < d →
    h.tid.toNat = g.tid.toNat + d → g.offset ≠ d ∧ g.offset ≠ d + h.offset
  cpu : ∀ g c, .gpu g ∈ events → HasRecord events c → g.pid = c.pid →
    c.tid.toNat ≠ g.tid.toNat + 1000000 + g.offset

/-- The record of a CUDA event is on the row of its stream. -/
theorem row_of_mem_gpu {env : StackEnv} {events : List UnifiedEvent} {gpu : CudaEvent}
    {r : Record} (h : (.gpu gpu, r) ∈ fileEventRecords env events) :
    r.row = (gpu.pid, gpu.gpuRow) := by
  obtain ⟨i, rfl⟩ := record_of_mem_gpu h
  rfl

variable {env : StackEnv} {events : List UnifiedEvent}

/-- An offset that bridges a distance puts two records on one row. -/
theorem OffsetsApart.of_rowsApart (htid : ∀ e ∈ events, e.tid ≤ pidMaxLimit)
    (h : RowsApart env events) : OffsetsApart events := by
  have hlimit : ∀ g, .gpu g ∈ events → g.tid ≤ pidMaxLimit := fun g hg => htid _ hg
  refine ⟨?_, ?_⟩
  · intro g g' d hg hg' hpid hd hdist
    obtain ⟨r, hr⟩ := exists_record_gpu_iff.mpr hg
    obtain ⟨r', hr'⟩ := exists_record_gpu_iff.mpr hg'
    refine ⟨?_, ?_⟩
    · intro hoffset
      have hstream : g.streamId ≠ 0 := by
        intro hz
        have hzero : g.offset = 0 := by
          rw [CudaEvent.offset, hz]
          rfl
        omega
      refine h.baseRow g r g' r' hr hr' hstream ?_
      rw [row_of_mem_gpu hr, row_of_mem_gpu hr', hpid, Prod.mk.injEq]
      refine ⟨rfl, (gpuRow_eq_baseRow_iff (hlimit g hg) (hlimit g' hg')).mpr ?_⟩
      omega
    · intro hoffset
      have hsame : g.tid = g'.tid := by
        refine h.oneThread g r g' r' hr hr' ?_
        rw [row_of_mem_gpu hr, row_of_mem_gpu hr', hpid, Prod.mk.injEq]
        refine ⟨rfl, (gpuRow_eq_iff (hlimit g hg) (hlimit g' hg')).mpr ?_⟩
        omega
      rw [hsame] at hdist
      omega
  · intro g c hg hc hpid htid'
    have hcpu : c.tid < cpuOnTimeLen := by
      obtain ⟨pre, post, rfl, -⟩ := hc
      exact UInt32.lt_of_le_of_lt (htid (.cpu c) (by simp)) (by decide)
    obtain ⟨r, hr⟩ := exists_record_gpu_iff.mpr hg
    obtain ⟨s, hs⟩ := (exists_record_cpu_iff hcpu).mpr hc
    refine h.cpuRow g r c s hr hs ?_
    rw [row_of_mem_gpu hr, row_of_mem_cpu hs, hpid, Prod.mk.injEq]
    exact ⟨rfl, (gpuRow_eq_tid_iff (hlimit g hg)).mpr htid'.symm⟩

/-- Rows of different threads differ if no offset bridges their distance. -/
theorem OffsetsApart.tid_eq (htid : ∀ e ∈ events, e.tid ≤ pidMaxLimit)
    (h : OffsetsApart events) {g g' : CudaEvent} (hg : .gpu g ∈ events)
    (hg' : .gpu g' ∈ events) (hpid : g.pid = g'.pid) (hrow : g.gpuRow = g'.gpuRow) :
    g.tid = g'.tid := by
  have hsum := (gpuRow_eq_iff (htid (.gpu g) hg) (htid (.gpu g') hg')).mp hrow
  rcases Nat.lt_trichotomy g.tid.toNat g'.tid.toNat with hlt | heq | hlt
  · have := (h.threads g g' (g'.tid.toNat - g.tid.toNat) hg hg' hpid (by omega) (by omega)).2
    omega
  · exact UInt32.toNat_inj.mp heq
  · have := (h.threads g' g (g.tid.toNat - g'.tid.toNat) hg' hg hpid.symm (by omega)
      (by omega)).2
    omega

/-- If no offset bridges a distance, records on one row are of one thread. -/
theorem RowsApart.of_offsetsApart (htid : ∀ e ∈ events, e.tid ≤ pidMaxLimit)
    (h : OffsetsApart events) : RowsApart env events := by
  have hmem : ∀ g r, (.gpu g, r) ∈ fileEventRecords env events → .gpu g ∈ events :=
    fun g r hr => exists_record_gpu_iff.mp ⟨r, hr⟩
  refine ⟨?_, ?_, ?_⟩
  · intro g r g' r' hr hr' hrow
    rw [row_of_mem_gpu hr, row_of_mem_gpu hr', Prod.mk.injEq] at hrow
    exact h.tid_eq htid (hmem g r hr) (hmem g' r' hr') hrow.1 hrow.2
  · intro g r g' r' hr hr' hstream hrow
    have hg := hmem g r hr
    have hg' := hmem g' r' hr'
    rw [row_of_mem_gpu hr, row_of_mem_gpu hr', Prod.mk.injEq] at hrow
    obtain ⟨hpid, hrow⟩ := hrow
    have hsum := (gpuRow_eq_baseRow_iff (htid (.gpu g) hg) (htid (.gpu g') hg')).mp hrow
    have hpos : 0 < g.offset := streamOffset_pos hstream
    have := (h.threads g g' g.offset hg hg' hpid hpos hsum.symm).1
    exact this rfl
  · intro g r c s hr hs hrow
    have hg := hmem g r hr
    have hc : c.tid < cpuOnTimeLen := by
      have hmem := hs
      rw [fileEventRecords, mem_eventRecords_iff] at hmem
      obtain ⟨pre, post, rfl, -⟩ := hmem
      exact UInt32.lt_of_le_of_lt (htid (.cpu c) (by simp)) (by decide)
    rw [row_of_mem_gpu hr, row_of_mem_cpu hs, Prod.mk.injEq] at hrow
    have hsum := (gpuRow_eq_tid_iff (htid (.gpu g) hg)).mp hrow.2
    exact h.cpu g c hg ((exists_record_cpu_iff hc).mp ⟨s, hs⟩) hrow.1 hsum.symm

/-- **When timeline rows do not mix threads**: exactly when no stream offset bridges the
distance between two thread ids of one process. -/
theorem rowsApart_iff (htid : ∀ e ∈ events, e.tid ≤ pidMaxLimit) :
    RowsApart env events ↔ OffsetsApart events :=
  ⟨OffsetsApart.of_rowsApart htid, RowsApart.of_offsetsApart htid⟩

/-- A thread on its default stream and a thread 300 ids further on another stream. -/
def distantThreads : List UnifiedEvent :=
  [.gpu (.streamSyncAt 100 100 10 0), .gpu (.streamSyncAt 100 400 20 0x7f0000000001)]

/-- No offset is as large as the distance of the two threads. -/
theorem rowsApart_iff_distant_threads :
    distantThreads.map UnifiedEvent.tid = [100, 400] ∧ RowsApart .noStacks distantThreads := by
  have htid : ∀ g, .gpu g ∈ distantThreads → g.tid.toNat = 100 ∨ g.tid.toNat = 400 := by
    simp [distantThreads, CudaEvent.streamSyncAt]
  refine ⟨rfl, (rowsApart_iff (by decide)).mpr ⟨?_, ?_⟩⟩
  · rintro g h d hg hh - hd hdist
    have hle : g.offset ≤ 255 := streamOffset_le g.streamId
    have hg := htid g hg
    have hh := htid h hh
    omega
  · rintro g c - ⟨pre, post, hsplit, -⟩ -
    exact absurd (hsplit ▸ List.mem_append_cons_self) (by simp [distantThreads])

/-- Thread `100` on the stream with id `1`, and thread `101` on the default stream. -/
def neighbouringThreads : List UnifiedEvent :=
  [.gpu (.streamSyncAt 100 100 10 1), .gpu (.streamSyncAt 100 101 20 0)]

/-- Both calls are shown on row `1000101`, the base row of thread `101`. -/
theorem neighbours_share_row :
    (∀ e ∈ neighbouringThreads, 1 ≤ e.tid ∧ e.tid ≤ pidMaxLimit) ∧
      (fileEventRecords .noStacks neighbouringThreads).map (fun er => er.2.row) =
        [(100, 1000101), (100, 1000101)] ∧
      ¬ RowsApart .noStacks neighbouringThreads := by
  have htid : ∀ e ∈ neighbouringThreads, 1 ≤ e.tid ∧ e.tid ≤ pidMaxLimit := by decide
  refine ⟨htid, rfl, fun h => ?_⟩
  have hoffsets := OffsetsApart.of_rowsApart (fun e he => (htid e he).2) h
  have := (hoffsets.threads (.streamSyncAt 100 100 10 1) (.streamSyncAt 100 101 20 0) 1
    (by simp [neighbouringThreads]) (by simp [neighbouringThreads]) rfl (by decide) rfl).1
  exact this (by decide)

end UnifiedTrace
