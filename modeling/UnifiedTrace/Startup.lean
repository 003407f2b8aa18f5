import Mathlib.Data.Fintype.Basic
import UnifiedTrace.CommandLine
import UnifiedTrace.ProbeTable

/-!
# Starting Up and Cleaning Up

`main` of `src/user/unified_trace.c` around the poll loop: it opens and loads the two objects,
attaches the programs, creates the symbolizer and the two ring buffers, and leaves through the
label `cleanup` whether or not it got that far. What the libraries answer is the environment
`StartEnv`; the log of `ResourceLog` says which handle was acquired, used or released, and when.

A local variable that holds a handle is a `Handle`, and the state keeps those that are not
`NULL`. A failed attachment leaves a pointer that `bpf_link__destroy` ignores, so it does not
count as a handle. `gpu_link_count` is the number of attached rows.

## Main results

* `setup_rule`: on every path the log is legal, and the end is reached exactly if nothing fatal
  failed.
* `main_releases`: on every path all handles are released, each after those that depend on it.
* `attached_of_callsOutput`: which of the CUDA programs are attached.
-/

namespace UnifiedTrace

open ResourceLog

/-! ### Handles -/

/-- The variables of `main` that hold a handle. -/
inductive Handle
  | cpuObj
  | gpuObj
  | schedSwitchLink
  | schedWakeupLink
  | gpuLink (i : Fin gpuLinksCap)
  | cpuRb
  | gpuRb
  | symbolizer
  deriving DecidableEq

/-- The object that a link or a ring buffer belongs to. -/
def Handle.parent : Handle → Option Handle
  | schedSwitchLink | schedWakeupLink | cpuRb => some cpuObj
  | gpuLink _ | gpuRb => some gpuObj
  | cpuObj | gpuObj | symbolizer => none

/-- What the libraries and the kernel answer. -/
structure StartEnv where
  opensCpu : Bool
  loadsCpu : Bool
  /-- Whether the map `stack_traces` is found. -/
  stackMap : Bool
  /-- Whether a program of the scheduler's object is found. -/
  schedProg : Bytes → Bool
  schedAttach : Bytes → Bool
  opensGpu : Bool
  loadsGpu : Bool
  probes : ProbeEnv
  bswNew : Bool
  cpuEventsMap : Bool
  cpuRing : Bool
  cudaEventsMap : Bool
  gpuRing : Bool
  /-- The full rounds of the poll loop. -/
  rounds : ℕ
  /-- Whether a signal interrupts the first poll of another round. -/
  interrupted : Bool
  /-- Whether the output file can be opened. -/
  fopen : Bool
  /-- Whether there is memory for `cpu_on_time`. -/
  calloc : Bool

/-- The state of `main`; the data are the rows behind the links of `gpu_links`. -/
abbrev MainState := Store Handle (List ProbeRow)

/-! ### `main` -/

/-- The write to `.rodata` of the scheduler's object, if there is a target. -/
def setTarget (o : Options) : Prog MainState Unit :=
  if o.targetPid ≠ 0 then discard <| call .cpuObj true else pure ()

/-- The scheduler's object. -/
def loadCpu (o : Options) (env : StartEnv) : Prog MainState Unit := do
  check (← assign .cpuObj env.opensCpu)
  setTarget o
  check (← call .cpuObj env.loadsCpu)
  discard <| call .cpuObj env.stackMap

/-- Attach one of the scheduler's programs. -/
def attachSched (env : StartEnv) (link : Handle) (name : Bytes) : Prog MainState Unit := do
  if ← call .cpuObj (env.schedProg name) then
    discard <| assign link (env.schedAttach name)

/-- The CUDA object. -/
def loadGpu (env : StartEnv) : Prog MainState Unit := do
  check (← assign .gpuObj env.opensGpu)
  discard <| call .gpuObj true
  check (← call .gpuObj env.loadsGpu)

/-- The symbolizer, unless it was turned off. -/
def newSymbolizer (o : Options) (env : StartEnv) : Prog MainState Unit :=
  if o.symbolizeCli then discard <| assign .symbolizer env.bswNew else pure ()

/-- The two ring buffers. -/
def newRings (env : StartEnv) : Prog MainState Unit := do
  check (← call .cpuObj env.cpuEventsMap)
  check (← assign .cpuRb env.cpuRing)
  check (← call .gpuObj env.cudaEventsMap)
  check (← assign .gpuRb env.gpuRing)

/-- From the first call of libbpf to the ring buffers. -/
def setup (o : Options) (env : StartEnv) : Prog MainState Unit := do
  loadCpu o env
  attachSched env .schedSwitchLink (ascii "trace_sched_switch")
  attachSched env .schedWakeupLink (ascii "trace_sched_wakeup")
  loadGpu env
  attachFrom env.probes .gpuObj .gpuLink id (fun row rows => rows ++ [row]) (pure ()) cudaFuncs
  newSymbolizer o env
  newRings env

/-- The poll loop. -/
def pollLoop (env : StartEnv) : ℕ → Prog MainState Unit
  | 0 => if env.interrupted then discard <| call .cpuRb true else pure ()
  | n + 1 => do
      discard <| call .cpuRb true
      discard <| call .gpuRb true
      pollLoop env n

/-- The loop of `output_chrome_tracing_json` needs the stack map and the symbolizer, as far as there
are such. -/
def outputEvents (env : StartEnv) : Prog MainState Unit := do
  discard <| if env.stackMap then call .cpuObj true else pure false
  let s ← get
  discard <| if .symbolizer ∈ s.vars then call .symbolizer true else pure false

/-- `output_chrome_tracing_json` comes to its loop if it has a file and memory. -/
def output (env : StartEnv) : Prog MainState Unit :=
  if env.fopen ∧ env.calloc then outputEvents env else pure ()

/-- `main` between the command line and the label `cleanup`. -/
def body (o : Options) (env : StartEnv) : Prog MainState Unit := do
  setup o env
  pollLoop env env.rounds
  output env

/-- The order of the releases behind the label `cleanup`. -/
def cleanupOrder : List Handle :=
  [.cpuRb, .gpuRb, .schedSwitchLink, .schedWakeupLink] ++
    (List.finRange gpuLinksCap).map .gpuLink ++ [.cpuObj, .gpuObj, .symbolizer]

/-- The library that is traced: that of the command line, or the first that exists. -/
def cudaLib (o : Options) (access : Bytes → Bool) : Option Bytes :=
  o.cudaLibPath.or <|
    [ascii "/usr/local/cuda/lib64/libcudart.so",
      ascii "/usr/local/cuda-12.6/targets/x86_64-linux/lib/libcudart.so.12"].find? access

/-- What a run of `main` amounts to. -/
structure MainRun where
  exitCode : ℕ
  log : List (Act Handle)
  /-- Whether `output_chrome_tracing_json` is called. -/
  callsOutput : Bool
  /-- Whether it prints the whole trace: the file could be opened and the memory allocated. -/
  writesTrace : Bool
  attached : List ProbeRow

/-- `main`. -/
def main (argv : List Bytes) (access : Bytes → Bool) (env : StartEnv) : MainRun :=
  match parseArgs .default argv with
  | none => ⟨1, [], false, false, []⟩
  | some o =>
      match cudaLib o access with
      | none => ⟨1, [], false, false, []⟩
      | some _ =>
          let (result, s) := (body o env).run.run (.init [])
          ⟨0, s.log ++ releases s.vars cleanupOrder, result matches .ok (),
            (result matches .ok ()) && env.fopen && env.calloc, s.data⟩

/-! ### What holds on the way -/

/-- The order in which the handles are acquired. -/
def Handle.rank : Handle → ℕ
  | cpuObj => 0
  | schedSwitchLink => 1
  | schedWakeupLink => 2
  | gpuObj => 3
  | gpuLink i => 4 + i
  | symbolizer => 4 + gpuLinksCap
  | cpuRb => 5 + gpuLinksCap
  | gpuRb => 6 + gpuLinksCap

/-- The log is legal, the variables hold what it leaves, and the rows are attached. -/
abbrev Opened (bound : ℕ) (must : List Handle) (rows : List ProbeRow) : MainState → Prop :=
  Holding Handle.parent Handle.rank bound must (· = rows)

/-! ### Stage by stage -/

/-- Nothing fatal fails. -/
def StartEnv.Ready (env : StartEnv) : Prop :=
  (env.opensCpu = true ∧ env.loadsCpu = true) ∧ (env.opensGpu = true ∧ env.loadsGpu = true) ∧
    (env.cpuEventsMap = true ∧ env.cpuRing = true) ∧ env.cudaEventsMap = true ∧
      env.gpuRing = true

/-- The state at a `goto cleanup`. -/
def Failed (env : StartEnv) (s : MainState) : Prop :=
  (∃ bound must rows, Opened bound must rows s) ∧ ¬ env.Ready

section Stages

variable {o : Options} {env : StartEnv} {bound : ℕ} {must : List Handle} {rows : List ProbeRow}

/-- A failure is fatal only if something was needed. -/
theorem failed_of {ok : Bool} (hneeded : env.Ready → ok = true) (hno : ok = false)
    (s : MainState) (h : Opened bound must rows s) : Failed env s :=
  ⟨⟨bound, must, rows, h⟩, fun hready =>
    absurd (hneeded hready) (ne_true_of_eq_false hno)⟩

/-- Setting the target needs the CPU object open and keeps what is held. -/
theorem setTarget_rule (hmem : .cpuObj ∈ must) :
    Triple (Opened bound must rows) (setTarget o) (fun _ => Opened bound must rows)
      (Failed env) := by
  rw [setTarget]
  split
  · exact discard_call_rule hmem
  · exact Triple.pure fun _ h => h

/-- Afterwards the CPU object is held; if it could not be opened or loaded, the start has failed.
-/
theorem loadCpu_rule :
    Triple (Opened 0 [] []) (loadCpu o env)
      (fun _ s => (env.opensCpu = true ∧ env.loadsCpu = true) ∧ Opened 1 [.cpuObj] [] s)
      (Failed env) := by
  refine assign_check_rule (failed_of fun h => h.1.1) (Nat.le_refl 0) (by rintro p ⟨⟩)
    fun hopen => ?_
  refine (setTarget_rule List.mem_cons_self).bind fun _ => ?_
  refine call_check_rule (failed_of fun h => h.1.2) List.mem_cons_self fun hload => ?_
  exact (discard_call_rule List.mem_cons_self).mono (fun _ h => h)
    fun _ s h => ⟨⟨hopen, hload⟩, h⟩

/-- A scheduler program is attached through the CPU object that is held. -/
theorem attachSched_rule {link : Handle} (name : Bytes) (hlink : link.parent = some .cpuObj)
    (hmem : .cpuObj ∈ must) (hrank : bound ≤ link.rank) :
    Triple (Opened bound must rows) (attachSched env link name)
      (fun _ => Opened (link.rank + 1) must rows) (Failed env) := by
  refine (call_rule (env.schedProg name) hmem).bind fun b => Triple.of_and fun _ => ?_
  split
  · refine discard_assign_rule hrank (Nat.lt_succ_self _) fun p hp => ?_
    rw [hlink] at hp
    cases hp
    exact hmem
  · exact Triple.pure fun _ h => h.mono (hrank.trans (Nat.le_succ _)) (List.Subset.refl _)

/-- Afterwards both objects are held; if the second could not be opened or loaded, the start has
failed. -/
theorem loadGpu_rule :
    Triple (Opened 3 [.cpuObj] []) (loadGpu env)
      (fun _ s => (env.opensGpu = true ∧ env.loadsGpu = true) ∧
        Opened 4 [.gpuObj, .cpuObj] [] s) (Failed env) := by
  refine assign_check_rule (failed_of fun h => h.2.1.1) (Nat.le_refl 3) (by rintro p ⟨⟩)
    fun hopen => ?_
  refine (discard_call_rule List.mem_cons_self).bind fun _ => ?_
  exact (Triple.check (call_rule env.loadsGpu List.mem_cons_self)
    (failed_of fun h => h.2.1.2)).mono (fun _ h => h) fun _ s h => ⟨⟨hopen, h.1⟩, h.2⟩

/-- The rows of the table that can be attached are, in the order of the table. -/
theorem attachCuda_rule (hmem : .gpuObj ∈ must) :
    Triple (Opened 4 must [])
      (attachFrom env.probes .gpuObj .gpuLink id (fun row rows => rows ++ [row]) (pure ())
        cudaFuncs)
      (fun _ => Opened (4 + gpuLinksCap) must (cudaFuncs.filter env.probes.attaches))
      (Failed env) := by
  have hcap : cudaFuncs.length ≤ gpuLinksCap := by decide
  have hle := List.length_filter_le env.probes.attaches cudaFuncs
  exact (@attachFrom_rule Handle (List ProbeRow) _ env.probes .gpuObj .gpuLink id
    (fun row rows => rows ++ [row]) (pure ()) Handle.parent Handle.rank 4 must
    (fun rows d => d = rows) [] (Failed env) (fun _ => rfl) (fun _ => rfl) hmem
    (fun rows d row hd => congrArg (· ++ [row]) hd) (fun _ _ hd => hd) cudaFuncs hcap).mono
    (fun _ h => h) fun _ s h => h.mono (by rw [List.nil_append]; omega) (List.Subset.refl _)

/-- The symbolizer is held or not; both ways the start goes on. -/
theorem newSymbolizer_rule (hrank : bound ≤ 4 + gpuLinksCap) :
    Triple (Opened bound must rows) (newSymbolizer o env)
      (fun _ => Opened (5 + gpuLinksCap) must rows) (Failed env) := by
  rw [newSymbolizer]
  split
  · exact discard_assign_rule hrank (by decide) (by rintro p ⟨⟩)
  · exact Triple.pure fun _ h => h.mono (hrank.trans (by decide)) (List.Subset.refl _)

/-- Afterwards both ring buffers are held, or the start has failed. -/
theorem newRings_rule :
    Triple (Opened (5 + gpuLinksCap) [.gpuObj, .cpuObj] rows) (newRings env)
      (fun _ s => ((env.cpuEventsMap = true ∧ env.cpuRing = true) ∧ env.cudaEventsMap = true ∧
        env.gpuRing = true) ∧
          Opened (7 + gpuLinksCap) [.gpuRb, .cpuRb, .gpuObj, .cpuObj] rows s) (Failed env) := by
  refine call_check_rule (failed_of fun h => h.2.2.1.1) (by simp) fun hcpuMap => ?_
  refine assign_check_rule (failed_of fun h => h.2.2.1.2) (Nat.le_refl _)
    (by rintro p ⟨⟩; simp) fun hcpuRing => ?_
  refine call_check_rule (failed_of fun h => h.2.2.2.1) (by simp) fun hgpuMap => ?_
  exact (assign_check_last_rule (failed_of fun h => h.2.2.2.2) (by decide)
    (by rintro p ⟨⟩; simp)).mono (fun _ h => h)
    fun _ s h => ⟨⟨⟨hcpuMap, hcpuRing⟩, hgpuMap, h.1⟩, h.2⟩

/-- **The way to the poll loop**: it is legal as far as it goes, and it is gone to the end exactly
if nothing fatal fails. -/
theorem setup_rule :
    Triple (Opened 0 [] []) (setup o env)
      (fun _ s => env.Ready ∧ Opened (7 + gpuLinksCap) [.gpuRb, .cpuRb, .gpuObj, .cpuObj]
        (cudaFuncs.filter env.probes.attaches) s) (Failed env) := by
  refine loadCpu_rule.bind fun _ => Triple.of_and fun hcpu => ?_
  refine (attachSched_rule _ rfl List.mem_cons_self (Nat.le_refl 1)).bind fun _ => ?_
  refine (attachSched_rule _ rfl List.mem_cons_self (Nat.le_refl 2)).bind fun _ => ?_
  refine loadGpu_rule.bind fun _ => Triple.of_and fun hgpu => ?_
  refine (attachCuda_rule List.mem_cons_self).bind fun _ => ?_
  refine (newSymbolizer_rule (Nat.le_refl _)).bind fun _ => ?_
  exact newRings_rule.mono (fun _ h => h) fun _ s h => ⟨⟨hcpu, hgpu, h.1⟩, h.2⟩

/-- Polling needs both ring buffers and keeps what is held. -/
theorem pollLoop_rule (n : ℕ) (hcpu : .cpuRb ∈ must) (hgpu : .gpuRb ∈ must) :
    Triple (Opened bound must rows) (pollLoop env n) (fun _ => Opened bound must rows)
      (Failed env) := by
  induction n with
  | zero =>
      rw [pollLoop]
      split
      · exact discard_call_rule hcpu
      · exact Triple.pure fun _ h => h
  | succ n ih =>
      exact (discard_call_rule hcpu).bind fun _ => (discard_call_rule hgpu).bind fun _ => ih

/-- Sorting and printing keep what is held. -/
theorem outputEvents_rule (hmem : .cpuObj ∈ must) :
    Triple (Opened bound must rows) (outputEvents env) (fun _ => Opened bound must rows)
      (Failed env) := by
  have hstack : Triple (Opened bound must rows)
      (if env.stackMap then call .cpuObj true else pure false)
      (fun _ => Opened bound must rows) (Failed env) := by
    split
    · exact (call_rule true hmem).mono (fun _ h => h) fun _ _ h => h.2
    · exact Triple.pure fun _ h => h
  refine hstack.discard.bind fun _ => Triple.get fun t => Triple.discard ?_
  split
  · rename_i hsym
    exact (call_rule true List.mem_cons_self).mono
      (fun s h => Holding.cons h.1 (h.2 ▸ hsym)) fun _ s h =>
        h.2.mono (Nat.le_refl _) (List.subset_cons_self _ _)
  · exact Triple.pure fun _ h => h.1

/-- The output keeps what is held. -/
theorem output_rule (hmem : .cpuObj ∈ must) :
    Triple (Opened bound must rows) (output env) (fun _ => Opened bound must rows)
      (Failed env) := by
  rw [output]
  split
  · exact outputEvents_rule hmem
  · exact Triple.pure fun _ h => h

/-- The same up to the label `cleanup`. -/
theorem body_rule :
    Triple (Opened 0 [] []) (body o env)
      (fun _ s => env.Ready ∧ Opened (7 + gpuLinksCap) [.gpuRb, .cpuRb, .gpuObj, .cpuObj]
        (cudaFuncs.filter env.probes.attaches) s) (Failed env) := by
  refine setup_rule.bind fun _ => Triple.of_and fun hready => ?_
  refine (pollLoop_rule env.rounds (by simp) (by simp)).bind fun _ => ?_
  exact (output_rule (by simp)).mono (fun _ h => h) fun _ s h => ⟨hready, h⟩

end Stages

/-! ### The whole of `main` -/

/-- The cleanup comes to every handle. -/
theorem mem_cleanupOrder (h : Handle) : h ∈ cleanupOrder := by
  cases h <;> simp [cleanupOrder]

/-- The cleanup comes to no handle twice. -/
theorem nodup_cleanupOrder : cleanupOrder.Nodup := by
  have hinj : Function.Injective Handle.gpuLink := fun i j h => Handle.gpuLink.inj h
  simp [cleanupOrder, List.nodup_append, List.nodup_map_iff hinj, List.nodup_finRange]

/-- Only the objects are parents. -/
theorem eq_of_parent {a b : Handle} (h : b.parent = some a) : a = .cpuObj ∨ a = .gpuObj := by
  cases b <;> cases h <;> simp

/-- The objects come after everything that depends on them. -/
theorem pairwise_cleanupOrder : cleanupOrder.Pairwise fun a b => b.parent ≠ some a := by
  refine pairwise_of_childless (fun a ha b hb => ?_) (by simp [Handle.parent])
  rcases eq_of_parent hb with rfl | rfl <;> simp at ha

/-- No handle depends on itself. -/
theorem parent_ne_self (h : Handle) : h.parent ≠ some h := by
  cases h <;> simp [Handle.parent]

/-- The releases behind `cleanup` end what was held. -/
theorem run_cleanup {bound : ℕ} {must : List Handle} {rows : List ProbeRow} {s : MainState}
    (h : Opened bound must rows s) :
    run Handle.parent ∅ (s.log ++ releases s.vars cleanupOrder) = some ∅ :=
  h.run_cleanup nodup_cleanupOrder mem_cleanupOrder pairwise_cleanupOrder parent_ne_self

/-- What `main` does once the command line is accepted and the library found. -/
theorem main_of_accepted {argv : List Bytes} {access : Bytes → Bool} {o : Options} {lib : Bytes}
    (env : StartEnv) (hparse : parseArgs .default argv = some o)
    (hlib : cudaLib o access = some lib) :
    (main argv access env).exitCode = 0 ∧
      run Handle.parent ∅ (main argv access env).log = some ∅ ∧
      ((main argv access env).callsOutput = true ↔ env.Ready) ∧
      ((main argv access env).writesTrace = true ↔
        env.Ready ∧ env.fopen = true ∧ env.calloc = true) ∧
      ((main argv access env).callsOutput = true →
        (main argv access env).attached = cudaFuncs.filter env.probes.attaches) := by
  have hmain : main argv access env =
      ⟨0, ((body o env).run.run (.init [])).2.log ++
          releases ((body o env).run.run (.init [])).2.vars cleanupOrder,
        ((body o env).run.run (.init [])).1 matches .ok (),
        (((body o env).run.run (.init [])).1 matches .ok ()) && env.fopen && env.calloc,
        ((body o env).run.run (.init [])).2.data⟩ := by
    rw [main, hparse]
    dsimp only
    rw [hlib]
    rfl
  have hbody := @body_rule o env (.init []) (Holding.init rfl)
  rw [hmain]
  rcases hrun : (body o env).run.run (.init []) with ⟨result, s⟩
  rw [hrun] at hbody
  cases result with
  | ok u =>
      refine ⟨rfl, run_cleanup hbody.2, iff_of_true rfl hbody.1, ?_, fun _ => hbody.2.data⟩
      rw [Bool.true_and, Bool.and_eq_true]
      exact (and_iff_right hbody.1).symm
  | error u =>
      obtain ⟨⟨bound, must, rows, hopened⟩, hnot⟩ := hbody
      exact ⟨rfl, run_cleanup hopened, iff_of_false Bool.false_ne_true hnot,
        iff_of_false Bool.false_ne_true fun h => hnot h.1, fun h => absurd h Bool.false_ne_true⟩

/-- A run of `main` starts to trace: the command line is accepted and the library found. -/
def Starts (argv : List Bytes) (access : Bytes → Bool) : Prop :=
  ∃ o lib, parseArgs .default argv = some o ∧ cudaLib o access = some lib

/-- A command line that is not accepted, or no library: nothing was acquired yet. -/
theorem main_of_not_starts {argv : List Bytes} {access : Bytes → Bool} (env : StartEnv)
    (h : ¬ Starts argv access) : main argv access env = ⟨1, [], false, false, []⟩ := by
  rw [main]
  cases hparse : parseArgs .default argv with
  | none => rfl
  | some o =>
      dsimp only
      cases hlib : cudaLib o access with
      | none => rfl
      | some lib => exact absurd ⟨o, lib, hparse, hlib⟩ h

/-- The CUDA programs that are attached when `main` comes to the output. -/
theorem attached_of_callsOutput {argv : List Bytes} {access : Bytes → Bool} {env : StartEnv}
    (h : (main argv access env).callsOutput = true) :
    (main argv access env).attached = cudaFuncs.filter env.probes.attaches := by
  by_cases hstarts : Starts argv access
  · obtain ⟨o, lib, hparse, hlib⟩ := hstarts
    exact (main_of_accepted env hparse hlib).2.2.2.2 h
  · rw [main_of_not_starts env hstarts] at h
    cases h

/-- **No leak on any path.** Whatever fails, `main` acquires a handle only while the object it
depends on is open, uses only what it holds, releases every handle as often as it acquired it,
and ends with nothing held; at every moment the object of every held link and ring is open. It
comes to the output exactly if the command line is accepted, the library found and nothing fatal
fails, and prints the whole trace exactly if there are also a file and memory; the exit code only
says whether it came past the first two. -/
theorem main_releases (argv : List Bytes) (access : Bytes → Bool) (env : StartEnv) :
    run Handle.parent ∅ (main argv access env).log = some ∅ ∧
      (∀ h, (main argv access env).log.count (.acquire h) =
        (main argv access env).log.count (.release h)) ∧
      (∀ pre, pre <+: (main argv access env).log →
        ∃ held, run Handle.parent ∅ pre = some held ∧ Closed Handle.parent held) ∧
      ((main argv access env).callsOutput = true ↔ Starts argv access ∧ env.Ready) ∧
      ((main argv access env).writesTrace = true ↔
        Starts argv access ∧ env.Ready ∧ env.fopen = true ∧ env.calloc = true) ∧
      ((main argv access env).exitCode = 0 ↔ Starts argv access) := by
  have hlog : run Handle.parent ∅ (main argv access env).log = some ∅ := by
    by_cases hstarts : Starts argv access
    · obtain ⟨o, lib, hparse, hlib⟩ := hstarts
      exact (main_of_accepted env hparse hlib).2.1
    · rw [main_of_not_starts env hstarts]
      rfl
  have hempty : Closed Handle.parent ∅ := fun c hc => absurd hc (Finset.notMem_empty c)
  refine ⟨hlog, fun h => by simpa using count_of_run hlog h,
    fun pre hpre => hempty.of_prefix hlog hpre, ?_⟩
  by_cases hstarts : Starts argv access
  · obtain ⟨o, lib, hparse, hlib⟩ := id hstarts
    obtain ⟨hexit, -, hcalls, hwrites, -⟩ := main_of_accepted env hparse hlib
    exact ⟨hcalls.trans (and_iff_right hstarts).symm, hwrites.trans (and_iff_right hstarts).symm,
      iff_of_true hexit hstarts⟩
  · rw [main_of_not_starts env hstarts]
    exact ⟨iff_of_false Bool.false_ne_true fun h => hstarts h.1,
      iff_of_false Bool.false_ne_true fun h => hstarts h.1, iff_of_false Nat.one_ne_zero hstarts⟩

end UnifiedTrace
