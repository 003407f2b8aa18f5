import UnifiedTrace.CommandLine
import UnifiedTrace.WireFormat

/-!
# Configuring the Two Objects

How the options of the command line reach the two BPF programs. The programs read them from
constants in the `.rodata` section of their object files; `main` overwrites the section's map
between opening and loading. The two paths of `main` differ: for the CUDA tracer the map is
also looked for by a part of its name, for the scheduler tracer it is not, and there nothing
is written when there is no target.

libbpf decides under which names a map is found, so what the exact lookup of `".rodata"`
yields is part of the object. Its `bpf_map__set_initial_value` is a parameter; what the program
relies on is `SetsInitialValue`.

## Main results

* `CudaTracerCfg.load_bytes`: the BPF program reads the struct that `main` initialised.
* `load_configureGpu`, `load_configureCpu`: what the programs run with.
* `filters_agree_iff`: when both tracers filter by the same process.
-/

namespace UnifiedTrace

open ByteStores RecordLayout

/-! ### Objects -/

/-- A map of an opened object. -/
structure BpfMap where
  name : Bytes
  /-- The initial value. -/
  value : Bytes
  /-- Whether the map has an initial value that can be set. -/
  settable : Bool
  deriving DecidableEq

/-- An opened object. -/
structure BpfObject where
  maps : List BpfMap
  /-- What `bpf_object__find_map_by_name` finds under `".rodata"`. -/
  rodataByName : Option ℕ
  deriving DecidableEq

/-- A function like `bpf_map__set_initial_value`: it returns the map and an error code. -/
abbrev SetValue := BpfMap → Bytes → BpfMap × Int32

/-- What the program relies on: a write that is exactly as long as the map is taken if the map has
an initial value that can be set; any other write is refused with an error and changes nothing. -/
structure SetsInitialValue (setInitialValue : SetValue) : Prop where
  taken : ∀ m data, m.settable = true → data ≠ [] → data.length = m.value.length →
    setInitialValue m data = ({ m with value := data }, 0)
  refused : ∀ m data, ¬ (m.settable = true ∧ data.length = m.value.length) →
    (setInitialValue m data).1 = m ∧ (setInitialValue m data).2 < 0

/-- The object after a write to one of its maps. -/
def BpfObject.write (setInitialValue : SetValue) (obj : BpfObject) (i : ℕ) (data : Bytes) :
    BpfObject :=
  { obj with maps := obj.maps.modify i fun m => (setInitialValue m data).1 }

/-- The value of a map. -/
def BpfObject.value (obj : BpfObject) (i : ℕ) : Bytes := (obj.maps[i]?.map (·.value)).getD []

/-- A write of that length to the map is taken. -/
def BpfObject.Takes (obj : BpfObject) (i length : ℕ) : Prop :=
  ∃ m ∈ obj.maps[i]?, m.settable = true ∧ length = m.value.length

instance (obj : BpfObject) (i length : ℕ) : Decidable (obj.Takes i length) :=
  inferInstanceAs (Decidable (∃ m ∈ obj.maps[i]?, _))

/-! ### The CUDA tracer -/

/-- `struct cuda_tracer_cfg`. -/
def cudaTracerCfgMembers : List Member :=
  [memberU32, memberU32, memberU32, ⟨1, 1, Nat.one_pos⟩, ⟨3, 1, Nat.one_pos⟩]

/-- The size of the configuration record. -/
theorem sizeof_cudaTracerCfgMembers : sizeof cudaTracerCfgMembers = 16 := rfl

/-- The initialiser of `gpu_cfg`; the padding is not named in it and therefore zero. -/
def CudaTracerCfg.assigns (cfg : CudaTracerCfg) : List Assign :=
  [⟨0, bytesOf 4 cfg.targetPid.toNat⟩,
    ⟨4, bytesOf 4 cfg.samplePeriodSync.toNat⟩,
    ⟨8, bytesOf 4 cfg.samplePeriodAsync.toNat⟩,
    ⟨12, bytesOf 1 cfg.captureStacks.toNat⟩,
    ⟨13, bytesOf 3 0⟩]

/-- The bytes of `gpu_cfg`, a local variable with any old contents. -/
def CudaTracerCfg.bytes (old : ℕ → UInt8) (cfg : CudaTracerCfg) : Bytes :=
  read (run old (storesOf 0 cfg.assigns)) 0 (sizeof cudaTracerCfgMembers)

/-- `cfg` as the program reads it from its section. -/
def CudaTracerCfg.load (bytes : Bytes) : CudaTracerCfg where
  targetPid := uint32.load (ofList bytes) (0 + 0)
  samplePeriodSync := uint32.load (ofList bytes) (0 + 4)
  samplePeriodAsync := uint32.load (ofList bytes) (0 + 8)
  captureStacks := uint8.load (ofList bytes) (0 + 12)

/-- `strstr(name, ".rodata")`. -/
def namesRodata (m : BpfMap) : Bool := decide (ascii ".rodata" <:+: m.name)

/-- `gpu_rodata`: the map of that name, or else the first whose name contains it. -/
def gpuRodata (obj : BpfObject) : Option ℕ :=
  obj.rodataByName.or (obj.maps.findIdx? namesRodata)

/-- The object of the CUDA tracer as it is loaded. -/
def configureGpu (setInitialValue : SetValue) (o : Options) (old : ℕ → UInt8) (obj : BpfObject) :
    BpfObject :=
  match gpuRodata obj with
  | some i => obj.write setInitialValue i (o.gpuCfg.bytes old)
  | none => obj

/-! ### The scheduler tracer -/

/-- `target_pid` as the program reads it from its section. -/
def loadTargetPid (bytes : Bytes) : UInt32 := uint32.load (ofList bytes) 0

/-- The object of the scheduler tracer as it is loaded. -/
def configureCpu (setInitialValue : SetValue) (o : Options) (obj : BpfObject) : BpfObject :=
  if o.targetPid ≠ 0 then
    match obj.rodataByName with
    | some i => obj.write setInitialValue i (bytesOf 4 o.targetPid.toUInt32.toNat)
    | none => obj
  else obj

/-! ### What is written is read -/

/-- All its members are assigned. -/
theorem CudaTracerCfg.assigns_fills (cfg : CudaTracerCfg) :
    Fills cfg.assigns cudaTracerCfgMembers := by
  simp only [Fills, CudaTracerCfg.assigns, List.map_cons, List.map_nil, Assign.span,
    length_bytesOf]
  decide

/-- Its bytes have its size. -/
theorem length_bytes (old : ℕ → UInt8) (cfg : CudaTracerCfg) : (cfg.bytes old).length = 16 :=
  length_read _ _ _

/-- **The struct**: the program reads what `main` initialised, whatever was on its stack. -/
theorem CudaTracerCfg.load_bytes (old : ℕ → UInt8) (cfg : CudaTracerCfg) :
    load (cfg.bytes old) = cfg := by
  have hfills := cfg.assigns_fills
  have hcopy : ∀ {α : Type} (c : CType α) (o : ℕ), o + c.size ≤ 16 →
      c.load (ofList (cfg.bytes old)) (0 + o) =
        c.load (run old (storesOf 0 cfg.assigns)) (0 + o) := fun c o ho =>
    c.load_congr fun k hk => ofList_read (by rw [sizeof_cudaTracerCfgMembers]; omega)
  rw [load, hcopy uint32 0 (by decide), hcopy uint32 4 (by decide), hcopy uint32 8 (by decide),
    hcopy uint8 12 (by decide), hfills.load_uint32 old 0 0 rfl, hfills.load_uint32 old 0 1 rfl,
    hfills.load_uint32 old 0 2 rfl, hfills.load_uint8 old 0 3 rfl]

/-- The target pid is loaded from its four bytes. -/
theorem loadTargetPid_bytesOf (pid : UInt32) : loadTargetPid (bytesOf 4 pid.toNat) = pid := by
  have hread := read_ofList (bytesOf 4 pid.toNat)
  rw [length_bytesOf] at hread
  exact (congrArg uint32.value hread).trans (uint32_value pid)

/-- What a write leaves in a map. -/
theorem BpfObject.value_write {setInitialValue : SetValue}
    (hset : SetsInitialValue setInitialValue) (obj : BpfObject) (i j : ℕ) {data : Bytes}
    (hdata : data ≠ []) :
    (obj.write setInitialValue i data).value j =
      if i = j ∧ obj.Takes i data.length then data else obj.value j := by
  rcases eq_or_ne i j with rfl | hne
  · cases hm : obj.maps[i]? with
    | none => simp [write, value, Takes, hm]
    | some m =>
        by_cases h : m.settable = true ∧ data.length = m.value.length
        · simp [write, value, Takes, hset.taken m data h.1 hdata h.2, hm, h]
        · rw [if_neg]
          · simp [write, value, (hset.refused m data h).1, hm]
          · rintro ⟨-, m', hm', htakes⟩
            rw [hm] at hm'
            cases hm'
            exact h htakes
  · simp [write, value, hne]

/-! ### What the programs run with -/

/-- The configuration reaches the map that holds `cfg`. -/
def GpuConfigured (obj : BpfObject) (cfgMap : ℕ) : Prop :=
  gpuRodata obj = some cfgMap ∧ obj.Takes cfgMap 16

/-- The target reaches the map that holds `target_pid`. -/
def CpuConfigured (obj : BpfObject) (pidMap : ℕ) : Prop :=
  obj.rodataByName = some pidMap ∧ obj.Takes pidMap 4

instance (obj : BpfObject) (cfgMap : ℕ) : Decidable (GpuConfigured obj cfgMap) :=
  inferInstanceAs (Decidable (_ ∧ _))

instance (obj : BpfObject) (pidMap : ℕ) : Decidable (CpuConfigured obj pidMap) :=
  inferInstanceAs (Decidable (_ ∧ _))

/-- **The CUDA tracer** runs with the options, or with what its object file says. -/
theorem load_configureGpu {setInitialValue : SetValue} (hset : SetsInitialValue setInitialValue)
    (o : Options) (old : ℕ → UInt8) (obj : BpfObject) (cfgMap : ℕ) :
    CudaTracerCfg.load ((configureGpu setInitialValue o old obj).value cfgMap) =
      if GpuConfigured obj cfgMap then o.gpuCfg else CudaTracerCfg.load (obj.value cfgMap) := by
  rw [configureGpu]
  cases h : gpuRodata obj with
  | none => rw [if_neg fun hc => by cases h.symm.trans hc.1]
  | some i =>
      dsimp only
      have hne : o.gpuCfg.bytes old ≠ [] :=
        List.ne_nil_of_length_pos ((length_bytes old o.gpuCfg).symm ▸ (by decide : 0 < 16))
      rw [BpfObject.value_write hset obj i cfgMap hne, length_bytes, apply_ite CudaTracerCfg.load,
        CudaTracerCfg.load_bytes]
      refine if_congr ?_ rfl rfl
      rw [GpuConfigured, h, Option.some_inj]
      exact and_congr_right fun hi => hi ▸ Iff.rfl

/-- **The scheduler tracer** runs with the target, or with what its object file says. -/
theorem load_configureCpu {setInitialValue : SetValue} (hset : SetsInitialValue setInitialValue)
    (o : Options) (obj : BpfObject) (pidMap : ℕ) :
    loadTargetPid ((configureCpu setInitialValue o obj).value pidMap) =
      if o.targetPid ≠ 0 ∧ CpuConfigured obj pidMap then o.targetPid.toUInt32
      else loadTargetPid (obj.value pidMap) := by
  rw [configureCpu]
  by_cases htarget : o.targetPid = 0
  · rw [if_neg (not_not.mpr htarget), if_neg fun hc => hc.1 htarget]
  · rw [if_pos htarget]
    cases h : obj.rodataByName with
    | none => rw [if_neg fun hc => by cases h.symm.trans hc.2.1]
    | some i =>
        dsimp only
        have hne : bytesOf 4 o.targetPid.toUInt32.toNat ≠ [] :=
          List.ne_nil_of_length_pos ((length_bytesOf ..).symm ▸ (by decide : 0 < 4))
        rw [BpfObject.value_write hset obj i pidMap hne, length_bytesOf, apply_ite loadTargetPid,
          loadTargetPid_bytesOf]
        refine if_congr ?_ rfl rfl
        rw [CpuConfigured, h, Option.some_inj, and_iff_right htarget]
        exact and_congr_right fun hi => hi ▸ Iff.rfl

/-- **When the filters agree.** Let the two object files hold their defaults. Then the CUDA
tracer runs with every option if its section is found, by name or by the scan, can be set, and has
the size of the struct, and with none otherwise; the scheduler tracer runs with the target if its
section is found by name, can be set, and has four bytes, and without one otherwise. So the tracers
filter by the same process exactly if there is no target, or both writes are taken, or neither
is. -/
theorem filters_agree_iff {setInitialValue : SetValue}
    (hset : SetsInitialValue setInitialValue) (o : Options) (old : ℕ → UInt8)
    (cpuObj gpuObj : BpfObject) (pidMap cfgMap : ℕ) (hcpu : loadTargetPid (cpuObj.value pidMap) = 0)
    (hgpu : CudaTracerCfg.load (gpuObj.value cfgMap) = .default) :
    CudaTracerCfg.load ((configureGpu setInitialValue o old gpuObj).value cfgMap) =
        (if GpuConfigured gpuObj cfgMap then o.gpuCfg else .default) ∧
      loadTargetPid ((configureCpu setInitialValue o cpuObj).value pidMap) =
        o.cpuTargetPid (decide (CpuConfigured cpuObj pidMap)) ∧
      (loadTargetPid ((configureCpu setInitialValue o cpuObj).value pidMap) =
          (CudaTracerCfg.load
            ((configureGpu setInitialValue o old gpuObj).value cfgMap)).targetPid ↔
        o.targetPid = 0 ∨ (CpuConfigured cpuObj pidMap ↔ GpuConfigured gpuObj cfgMap)) := by
  have hgpu' := load_configureGpu hset o old gpuObj cfgMap
  have hcpu' := load_configureCpu hset o cpuObj pidMap
  rw [hgpu] at hgpu'
  rw [hcpu] at hcpu'
  have htarget : o.targetPid.toUInt32 = 0 ↔ o.targetPid = 0 := by
    constructor
    · intro h
      have hback := congrArg UInt32.toInt32 h
      rwa [Int32.toInt32_toUInt32] at hback
    · intro h
      rw [h]
      rfl
  refine ⟨hgpu', ?_, ?_⟩
  · rw [hcpu', Options.cpuTargetPid]
    by_cases h0 : o.targetPid = 0
    · rw [if_neg fun hc => hc.1 h0, if_neg (not_not.mpr h0)]
    · by_cases hc : CpuConfigured cpuObj pidMap
      · rw [if_pos ⟨h0, hc⟩, if_pos h0, decide_eq_true hc, if_pos rfl]
      · rw [if_neg fun h => hc h.2, if_pos h0, decide_eq_false hc, if_neg Bool.false_ne_true]
  · have hgpuTarget : o.gpuCfg.targetPid = o.targetPid.toUInt32 := rfl
    have hdefault : CudaTracerCfg.default.targetPid = 0 := rfl
    rw [hcpu', hgpu', apply_ite CudaTracerCfg.targetPid, hgpuTarget, hdefault]
    by_cases h0 : o.targetPid = 0
    · rw [htarget.mpr h0, ite_self, ite_self]
      exact iff_of_true rfl (.inl h0)
    · have hne : o.targetPid.toUInt32 ≠ 0 := fun h => h0 (htarget.mp h)
      rw [or_iff_right h0]
      by_cases hc : CpuConfigured cpuObj pidMap <;> by_cases hg : GpuConfigured gpuObj cfgMap
      · rw [if_pos ⟨h0, hc⟩, if_pos hg]
        exact iff_of_true rfl (iff_of_true hc hg)
      · rw [if_pos ⟨h0, hc⟩, if_neg hg]
        exact iff_of_false hne fun h => hg (h.mp hc)
      · rw [if_neg fun h => hc h.2, if_pos hg]
        exact iff_of_false hne.symm fun h => hc (h.mpr hg)
      · rw [if_neg fun h => hc h.2, if_neg hg]
        exact iff_of_true rfl (iff_of_false hc hg)

/-- A `bpf_map__set_initial_value` that compares the lengths. -/
def setSameLength (m : BpfMap) (data : Bytes) : BpfMap × Int32 :=
  if m.settable = true ∧ data.length = m.value.length then ({ m with value := data }, 0)
  else (m, -22)

/-- The simplest such function behaves as documented. -/
theorem setsInitialValue_setSameLength : SetsInitialValue setSameLength where
  taken := fun _ _ hset _ hlen => if_pos ⟨hset, hlen⟩
  refused := by
    intro m data h
    rw [setSameLength, if_neg h]
    exact ⟨rfl, show (-22 : Int32) < 0 by decide⟩

/-- The objects as a libbpf leaves them that finds no map under `".rodata"`. -/
def prefixedObjects : BpfObject × BpfObject :=
  (⟨[⟨ascii "cpu_events", [], false⟩, ⟨ascii "trace_cp.rodata", bytesOf 4 0, true⟩], none⟩,
    ⟨[⟨ascii "cuda_calls", [], false⟩,
      ⟨ascii "trace_cu.rodata", CudaTracerCfg.default.bytes fun _ => 0, true⟩], none⟩)

/-- With them only the CUDA tracer is filtered. -/
theorem filters_agree_iff_prefixed :
    loadTargetPid ((configureCpu setSameLength { Options.default with targetPid := 1234 }
        prefixedObjects.1).value 1) ≠
      (CudaTracerCfg.load ((configureGpu setSameLength { Options.default with targetPid := 1234 }
        (fun _ => 0) prefixedObjects.2).value 1)).targetPid := by
  have hagree := (filters_agree_iff setsInitialValue_setSameLength
    { Options.default with targetPid := 1234 } (fun _ => 0) prefixedObjects.1 prefixedObjects.2 1 1
    (by decide) (CudaTracerCfg.load_bytes _ _)).2.2
  refine fun h => absurd (hagree.mp h) ?_
  decide

end UnifiedTrace
