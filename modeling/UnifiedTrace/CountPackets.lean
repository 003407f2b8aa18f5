import Mathlib.Data.List.Induction
import Mathlib.Data.Nat.Notation

/-!
# Counting Packets

`src/bpf/count_packets.bpf.c` counts the packets of an interface, and `src/user/count_packets.c`
attaches it, prints the counter once a second and detaches it. Packets and signals can come
between any two steps of `main`, so the model is a state machine with a program counter; a signal
that comes before its handler is installed kills the process, and the kernel closes its files
but keeps the program on the interface.

`cleanup_xdp` runs at the end of `main` and once more as an exit handler; nobody reads whether the
detachment succeeds.

## Main results

* `packetCount_eq`: every packet that comes while the program is attached is counted once.
* `count_packets_ends`: on which ways the program stays behind on the interface.
-/

namespace UnifiedTrace

/-! ### The state -/

/-- What the libraries answer. -/
structure CountEnv where
  /-- `if_nametoindex`. -/
  ifindex : Int32
  opens : Bool
  loadErr : Int32
  prog : Bool
  progFd : Int32
  attachErr : Int32
  map : Bool
  /-- `atexit` takes the handler. -/
  atexit : Bool
  /-- `bpf_xdp_detach` succeeds at the end of `main`. -/
  detach : Bool
  /-- `bpf_xdp_detach` succeeds in the exit handler. -/
  detachAtExit : Bool

/-- The signals that `main` handles. -/
inductive CountSig
  | int
  | term
  deriving DecidableEq

/-- Where `main` is. -/
inductive CountPc
  | nameToIndex
  | openObj
  | loadObj
  | findProg
  | getFd
  | attach
  | findMap
  | setGlobals
  | handleInt
  | handleTerm
  | atexit
  | loop
  | cleanup
  | closeObj
  | exitHandlers
  | exited
  | killed (sig : CountSig)
  deriving DecidableEq

/-- The process, and what it has in the kernel. -/
structure CountState where
  pc : CountPc
  /-- The object is open. -/
  obj : Bool
  /-- The XDP program is attached to the interface. -/
  attached : Bool
  /-- The value of the map `packet_count`. -/
  packetCount : UInt64
  err : Int32
  ifindexGlobal : Int32
  progFdGlobal : Int32
  /-- The handler of `SIGINT` is installed. -/
  onInt : Bool
  /-- The handler of `SIGTERM` is installed. -/
  onTerm : Bool
  /-- The exit handler is registered. -/
  onExit : Bool
  exiting : Bool
  /-- The counts that were printed. -/
  printed : List UInt64
  status : ℕ

/-- Before the first step. -/
def CountState.init : CountState where
  pc := .nameToIndex
  obj := false
  attached := false
  packetCount := 0
  err := 0
  ifindexGlobal := 0
  progFdGlobal := -1
  onInt := false
  onTerm := false
  onExit := false
  exiting := false
  printed := []
  status := 0

/-! ### The steps -/

/-- `xdp_count_packets`. -/
def xdpCountPackets (s : CountState) : CountState :=
  if s.attached then { s with packetCount := s.packetCount + 1 } else s

/-- `cleanup_xdp`; `detach` is whether `bpf_xdp_detach` succeeds. -/
def cleanupXdp (detach : Bool) (s : CountState) : CountState :=
  if s.ifindexGlobal > 0 ∧ s.progFdGlobal ≥ 0 then
    if detach then { s with attached := false } else s
  else s

/-- `return status`. -/
def CountState.leave (s : CountState) (status : ℕ) : CountState :=
  { s with status, pc := if s.onExit then .exitHandlers else .exited }

/-- The next step of `main`; `found` is what the lookup of the loop answers. -/
def mainStep (env : CountEnv) (found : Bool) (s : CountState) : CountState :=
  match s.pc with
  | .nameToIndex =>
      if env.ifindex = 0 then s.leave 1 else { s with pc := .openObj }
  | .openObj =>
      if env.opens then { s with obj := true, pc := .loadObj } else s.leave 1
  | .loadObj =>
      { s with err := env.loadErr, pc := if env.loadErr ≠ 0 then .cleanup else .findProg }
  | .findProg => { s with pc := if env.prog then .getFd else .cleanup }
  | .getFd => { s with pc := if env.progFd < 0 then .cleanup else .attach }
  | .attach =>
      if env.attachErr ≠ 0 then { s with err := env.attachErr, pc := .cleanup }
      else { s with err := 0, attached := true, pc := .findMap }
  | .findMap => { s with pc := if env.map then .setGlobals else .cleanup }
  | .setGlobals =>
      { s with ifindexGlobal := env.ifindex, progFdGlobal := env.progFd, pc := .handleInt }
  | .handleInt => { s with onInt := true, pc := .handleTerm }
  | .handleTerm => { s with onTerm := true, pc := .atexit }
  | .atexit => { s with onExit := env.atexit, pc := .loop }
  | .loop =>
      if s.exiting then { s with pc := .cleanup }
      else if found then { s with printed := s.printed ++ [s.packetCount] }
      else s
  | .cleanup => { cleanupXdp env.detach s with pc := .closeObj }
  | .closeObj => { s with obj := false }.leave (if s.err ≠ 0 then 1 else 0)
  | .exitHandlers => { cleanupXdp env.detachAtExit s with pc := .exited }
  | .exited => s
  | .killed _ => s

/-- What can happen. -/
inductive CountAct
  /-- A packet comes to the interface. -/
  | packet
  | signal (sig : CountSig)
  | step (found : Bool)
  deriving DecidableEq

/-- The process has not ended. -/
def CountState.Alive (s : CountState) : Prop := s.pc ≠ .exited ∧ ∀ sig, s.pc ≠ .killed sig

instance (s : CountState) : Decidable s.Alive :=
  decidable_of_iff (s.pc ≠ .exited ∧ s.pc ≠ .killed .int ∧ s.pc ≠ .killed .term)
    ⟨fun h => ⟨h.1, fun sig => by cases sig; exacts [h.2.1, h.2.2]⟩,
      fun h => ⟨h.1, h.2 .int, h.2 .term⟩⟩

/-- The handler of a signal is installed. -/
def CountState.handles (s : CountState) : CountSig → Bool
  | .int => s.onInt
  | .term => s.onTerm

/-- A signal: the handler sets the flag, and without it the process ends. -/
def CountState.signal (s : CountState) (sig : CountSig) : CountState :=
  if ¬ s.Alive then s
  else if s.handles sig then { s with exiting := true }
  else { s with obj := false, pc := .killed sig }

/-- One action. -/
def countStep (env : CountEnv) (s : CountState) : CountAct → CountState
  | .packet => xdpCountPackets s
  | .signal sig => s.signal sig
  | .step found => mainStep env found s

/-- The state after some actions. -/
def countRun (env : CountEnv) (acts : List CountAct) : CountState :=
  acts.foldl (countStep env) .init

/-- The last action of a run. -/
theorem countRun_concat (env : CountEnv) (acts : List CountAct) (a : CountAct) :
    countRun env (acts ++ [a]) = countStep env (countRun env acts) a :=
  List.foldl_append

/-! ### The invariant -/

/-- `main` comes past its two early returns. -/
def CountEnv.Opens (env : CountEnv) : Prop := env.ifindex ≠ 0 ∧ env.opens = true

/-- It comes to the attachment. -/
def CountEnv.Tries (env : CountEnv) : Prop :=
  env.Opens ∧ env.loadErr = 0 ∧ env.prog = true ∧ ¬ env.progFd < 0

/-- The program is attached. -/
def CountEnv.Attaches (env : CountEnv) : Prop := env.Tries ∧ env.attachErr = 0

/-- The attachment, or the load before it, returns an error. -/
def CountEnv.Fails (env : CountEnv) : Prop :=
  env.loadErr ≠ 0 ∨ env.Tries ∧ env.attachErr ≠ 0

/-- `main` comes to its loop. -/
def CountEnv.Counts (env : CountEnv) : Prop := env.Attaches ∧ env.map = true

/-- The program is still attached at the end of `main`: `cleanup_xdp` was not told the interface,
takes its index for none, or failed. -/
def CountEnv.Keeps (env : CountEnv) : Prop :=
  env.Attaches ∧ (env.map = false ∨ ¬ env.ifindex > 0 ∨ env.detach = false)

/-- The exit handler detaches the program. -/
def CountEnv.Retries (env : CountEnv) : Prop :=
  env.Counts ∧ env.ifindex > 0 ∧ env.atexit = true ∧ env.detachAtExit = true

/-- The program stays behind. -/
def CountEnv.Leaks (env : CountEnv) : Prop := env.Keeps ∧ ¬ env.Retries

/-- No handler was installed yet. -/
def CountState.Unhandled (s : CountState) : Prop :=
  s.onInt = false ∧ s.onTerm = false ∧ s.onExit = false

/-- Nothing was attached or installed yet. -/
def CountState.Fresh (s : CountState) : Prop :=
  s.attached = false ∧ s.ifindexGlobal = 0 ∧ s.Unhandled

/-- What `cleanup_xdp` needs to know is there. -/
def CountState.Told (env : CountEnv) (s : CountState) : Prop :=
  s.ifindexGlobal = env.ifindex ∧ s.progFdGlobal = env.progFd

/-- So it is, and the handlers are installed, if `main` came to its loop. -/
def CountState.Registry (env : CountEnv) (s : CountState) : Prop :=
  env.Counts ∧ s.onExit = env.atexit ∧ s.Told env ∨
    ¬ env.Counts ∧ s.onExit = false ∧ s.ifindexGlobal = 0

/-- What holds where `main` is. -/
def CountInv (env : CountEnv) (s : CountState) : Prop :=
  match s.pc with
  | .nameToIndex => s.Fresh ∧ s.obj = false
  | .openObj => s.Fresh ∧ s.obj = false ∧ env.ifindex ≠ 0
  | .loadObj => s.Fresh ∧ env.Opens
  | .findProg => s.Fresh ∧ env.Opens ∧ env.loadErr = 0 ∧ s.err = 0
  | .getFd => s.Fresh ∧ (env.Opens ∧ env.loadErr = 0 ∧ env.prog = true) ∧ s.err = 0
  | .attach => s.Fresh ∧ env.Tries
  | .findMap =>
      s.attached = true ∧ s.ifindexGlobal = 0 ∧ s.Unhandled ∧ s.err = 0 ∧ env.Attaches
  | .setGlobals => s.attached = true ∧ s.Unhandled ∧ s.err = 0 ∧ env.Counts
  | .handleInt => (s.attached = true ∧ s.err = 0 ∧ env.Counts ∧ s.Told env) ∧ s.Unhandled
  | .handleTerm =>
      (s.attached = true ∧ s.err = 0 ∧ env.Counts ∧ s.Told env) ∧ s.onTerm = false
  | .atexit => s.attached = true ∧ s.err = 0 ∧ env.Counts ∧ s.Told env
  | .loop =>
      (s.attached = true ∧ s.err = 0 ∧ env.Counts ∧ s.Told env) ∧ s.onExit = env.atexit
  | .cleanup =>
      env.Opens ∧ (s.attached = true ↔ env.Attaches) ∧ s.Registry env ∧ (s.err ≠ 0 ↔ env.Fails)
  | .closeObj =>
      env.Opens ∧ (s.attached = true ↔ env.Keeps) ∧ s.Registry env ∧ (s.err ≠ 0 ↔ env.Fails)
  | .exitHandlers =>
      s.obj = false ∧ (s.attached = true ↔ env.Keeps) ∧ s.onExit = true ∧ s.Registry env ∧
        (s.status = 1 ↔ ¬ env.Opens ∨ env.Fails)
  | .exited =>
      s.obj = false ∧ (s.attached = true ↔ env.Leaks) ∧ (s.status = 1 ↔ ¬ env.Opens ∨ env.Fails)
  | .killed sig =>
      s.obj = false ∧ s.handles sig = false ∧ (s.attached = true → env.Attaches)

section Steps

variable {env : CountEnv} {s : CountState}

/-- Nothing has been attached or counted. -/
theorem CountInv.init : CountInv env .init := ⟨⟨rfl, rfl, rfl, rfl, rfl⟩, rfl⟩

/-- The early returns. -/
theorem CountState.Fresh.leave (h : s.Fresh) (hobj : s.obj = false) (hno : ¬ env.Opens) :
    CountInv env (s.leave 1) := by
  have hpc : (s.leave 1).pc = .exited := if_neg (ne_true_of_eq_false h.2.2.2.2)
  rw [CountInv, hpc]
  refine ⟨hobj, ?_, iff_of_true rfl (.inl hno)⟩
  exact iff_of_false (ne_true_of_eq_false h.1) fun hleaks => hno hleaks.1.1.1.1

/-- A failure before the attachment. -/
theorem CountState.Fresh.cleanup (h : s.Fresh) (hpc : s.pc = .cleanup) (hopens : env.Opens)
    (hno : ¬ env.Attaches) (herr : s.err ≠ 0 ↔ env.Fails) : CountInv env s := by
  rw [CountInv, hpc]
  exact ⟨hopens, iff_of_false (ne_true_of_eq_false h.1) hno,
    .inr ⟨fun hall => hno hall.1, h.2.2.2.2, h.2.1⟩, herr⟩

/-- After a successful load only the attachment can fail. -/
theorem CountEnv.not_fails (hload : env.loadErr = 0) (hattach : env.Tries → env.attachErr = 0) :
    ¬ env.Fails := by
  rintro (hfails | ⟨htries, hfails⟩)
  · exact hfails hload
  · exact hfails (hattach htries)

/-- Nothing failed where the program is attached. -/
theorem CountEnv.Attaches.not_fails (h : env.Attaches) : ¬ env.Fails :=
  CountEnv.not_fails h.1.2.1 fun _ => h.2

/-- Where the exit handler does not help, the program stays behind if it is attached at the end of
`main`. -/
theorem CountEnv.leaks_iff_of_not_retries (h : ¬ env.Retries) : env.Leaks ↔ env.Keeps :=
  and_iff_left h

/-- What `cleanup_xdp` asks for, once it was told the interface. -/
theorem CountState.Told.detaches_iff (h : s.Told env) (hcounts : env.Counts) :
    s.ifindexGlobal > 0 ∧ s.progFdGlobal ≥ 0 ↔ env.ifindex > 0 := by
  rw [h.1, h.2]
  exact and_iff_left (Int32.not_lt.mp hcounts.1.1.2.2.2)

/-- `cleanup_xdp` detaches the program if it knows the interface. -/
theorem CountState.Registry.attached_cleanupXdp (h : s.Registry env)
    (hattached : s.attached = true ↔ env.Attaches) :
    (cleanupXdp env.detach s).attached = true ↔ env.Keeps := by
  rw [cleanupXdp]
  rcases h with ⟨hcounts, -, htold⟩ | ⟨hno, -, hindex⟩
  · rw [if_congr (htold.detaches_iff hcounts) rfl rfl]
    split
    · rename_i hpos
      split
      · rename_i hdetach
        refine iff_of_false Bool.false_ne_true fun hkeeps => ?_
        rcases hkeeps.2 with hmap | hneg | hfail
        · exact absurd hcounts.2 (ne_true_of_eq_false hmap)
        · exact hneg hpos
        · exact absurd hdetach (ne_true_of_eq_false hfail)
      · rename_i hdetach
        exact iff_of_true (hattached.mpr hcounts.1)
          ⟨hcounts.1, .inr (.inr (Bool.eq_false_iff.mpr hdetach))⟩
    · rename_i hneg
      exact iff_of_true (hattached.mpr hcounts.1) ⟨hcounts.1, .inr (.inl hneg)⟩
  · rw [hindex, if_neg fun hpos => absurd hpos.1 (by decide), hattached]
    refine ⟨fun hall => ⟨hall, .inl ?_⟩, fun hkeeps => hkeeps.1⟩
    exact Bool.eq_false_iff.mpr fun hmap => hno ⟨hall, hmap⟩

/-- The exit handler tries once more. -/
theorem CountState.Registry.attached_exitHandler (h : s.Registry env) (hexit : s.onExit = true)
    (hattached : s.attached = true ↔ env.Keeps) :
    (cleanupXdp env.detachAtExit s).attached = true ↔ env.Leaks := by
  rw [cleanupXdp]
  rcases h with ⟨hcounts, hon, htold⟩ | ⟨-, hoff, -⟩
  · rw [if_congr (htold.detaches_iff hcounts) rfl rfl]
    split
    · rename_i hpos
      split
      · rename_i hdetach
        exact iff_of_false Bool.false_ne_true fun hleaks =>
          hleaks.2 ⟨hcounts, hpos, hon.symm.trans hexit, hdetach⟩
      · rename_i hdetach
        rw [CountEnv.leaks_iff_of_not_retries fun hretry => hdetach hretry.2.2.2]
        exact hattached
    · rename_i hneg
      rw [CountEnv.leaks_iff_of_not_retries fun hretry => hneg hretry.2.1]
      exact hattached
  · exact absurd hexit (ne_true_of_eq_false hoff)

/-- Without an exit handler nothing changes after `main`. -/
theorem CountState.Registry.not_retries (h : s.Registry env) (hexit : ¬ s.onExit = true) :
    ¬ env.Retries := by
  intro hretry
  rcases h with ⟨-, hon, -⟩ | ⟨hno, -, -⟩
  · exact hexit (hon.trans hretry.2.2.1)
  · exact hno hretry.1

/-- The end of `main`: the exit handler runs if there is one. -/
theorem CountState.Registry.leave {status : ℕ} (h : s.Registry env)
    (hattached : s.attached = true ↔ env.Keeps)
    (hstatus : status = 1 ↔ ¬ env.Opens ∨ env.Fails) :
    CountInv env ({ s with obj := false }.leave status) := by
  by_cases hexit : s.onExit = true
  · rw [CountState.leave, if_pos hexit]
    exact ⟨rfl, hattached, hexit, h, hstatus⟩
  · rw [CountState.leave, if_neg hexit]
    have hleaks := CountEnv.leaks_iff_of_not_retries (h.not_retries hexit)
    exact ⟨rfl, hattached.trans hleaks.symm, hstatus⟩

/-- `cleanup_xdp` changes nothing but the attachment. -/
theorem cleanupXdp_eq (detach : Bool) (s : CountState) :
    ∃ attached, cleanupXdp detach s = { s with attached } := by
  rw [cleanupXdp]
  split
  · split
    · exact ⟨_, rfl⟩
    · exact ⟨_, rfl⟩
  · exact ⟨_, rfl⟩

/-- **One step of `main`** keeps the invariant. -/
theorem CountInv.mainStep (h : CountInv env s) (found : Bool) :
    CountInv env (mainStep env found s) := by
  rw [CountInv] at h
  rw [UnifiedTrace.mainStep]
  cases hpc : s.pc <;> rw [hpc] at h <;> dsimp only at h ⊢
  case nameToIndex =>
    obtain ⟨hfresh, hobj⟩ := h
    split
    · rename_i hzero
      exact hfresh.leave hobj fun hopens => hopens.1 hzero
    · exact ⟨hfresh, hobj, ‹_›⟩
  case openObj =>
    obtain ⟨hfresh, hobj, hindex⟩ := h
    split
    · exact ⟨hfresh, hindex, ‹_›⟩
    · rename_i hclosed
      exact hfresh.leave hobj fun hopens => hclosed hopens.2
  case loadObj =>
    obtain ⟨hfresh, hopens⟩ := h
    split
    · rename_i herr
      refine CountState.Fresh.cleanup hfresh rfl hopens (fun hall => herr hall.1.2.1) ?_
      exact iff_of_true herr (.inl herr)
    · exact ⟨hfresh, hopens, not_not.mp ‹_›, not_not.mp ‹_›⟩
  case findProg =>
    obtain ⟨hfresh, hopens, hload, herr⟩ := h
    split
    · exact ⟨hfresh, ⟨hopens, hload, ‹_›⟩, herr⟩
    · rename_i hprog
      have hno : ¬ env.Tries := fun htries => hprog htries.2.2.1
      refine CountState.Fresh.cleanup hfresh rfl hopens (fun hall => hno hall.1) ?_
      exact iff_of_false (not_not.mpr herr) (CountEnv.not_fails hload fun htries =>
        absurd htries hno)
  case getFd =>
    obtain ⟨hfresh, ⟨hopens, hload, hprog⟩, herr⟩ := h
    split
    · rename_i hfd
      have hno : ¬ env.Tries := fun htries => htries.2.2.2 hfd
      refine CountState.Fresh.cleanup hfresh rfl hopens (fun hall => hno hall.1) ?_
      exact iff_of_false (not_not.mpr herr) (CountEnv.not_fails hload fun htries =>
        absurd htries hno)
    · exact ⟨hfresh, hopens, hload, hprog, ‹_›⟩
  case attach =>
    obtain ⟨hfresh, htries⟩ := h
    split
    · rename_i herr
      refine CountState.Fresh.cleanup hfresh rfl htries.1 (fun hall => herr hall.2) ?_
      exact iff_of_true herr (.inr ⟨htries, herr⟩)
    · exact ⟨rfl, hfresh.2.1, hfresh.2.2, rfl, htries, not_not.mp ‹_›⟩
  case findMap =>
    obtain ⟨hattached, hindex, hhandlers, herr, hall⟩ := h
    split
    · exact ⟨hattached, hhandlers, herr, hall, ‹_›⟩
    · rename_i hmap
      exact ⟨hall.1.1, iff_of_true hattached hall, .inr ⟨fun hboth => hmap hboth.2,
        hhandlers.2.2, hindex⟩, iff_of_false (not_not.mpr herr) hall.not_fails⟩
  case setGlobals =>
    obtain ⟨hattached, hhandlers, herr, hcounts⟩ := h
    exact ⟨⟨hattached, herr, hcounts, rfl, rfl⟩, hhandlers⟩
  case handleInt => exact ⟨h.1, h.2.2.1⟩
  case handleTerm => exact h.1
  case atexit => exact ⟨h, rfl⟩
  case loop =>
    obtain ⟨⟨hattached, herr, hcounts, htold⟩, hexit⟩ := h
    split
    · exact ⟨hcounts.1.1.1, iff_of_true hattached hcounts.1, .inl ⟨hcounts, hexit, htold⟩,
        iff_of_false (not_not.mpr herr) hcounts.1.not_fails⟩
    · split
      · exact ⟨⟨hattached, herr, hcounts, htold⟩, hexit⟩
      · rw [CountInv, hpc]
        exact ⟨⟨hattached, herr, hcounts, htold⟩, hexit⟩
  case cleanup =>
    obtain ⟨hopens, hattached, hregistry, herr⟩ := h
    have hkeeps := hregistry.attached_cleanupXdp hattached
    obtain ⟨attached, hsame⟩ := cleanupXdp_eq env.detach s
    rw [hsame] at hkeeps ⊢
    exact ⟨hopens, hkeeps, hregistry, herr⟩
  case closeObj =>
    obtain ⟨hopens, hattached, hregistry, herr⟩ := h
    have hstatus : (if s.err ≠ 0 then 1 else 0) = 1 ↔ ¬ env.Opens ∨ env.Fails := by
      rw [or_iff_right (not_not.mpr hopens), ← herr]
      split
      · exact iff_of_true rfl ‹_›
      · exact iff_of_false Nat.zero_ne_one ‹_›
    exact hregistry.leave hattached hstatus
  case exitHandlers =>
    obtain ⟨hobj, hattached, hexit, hregistry, hstatus⟩ := h
    have hleaks := hregistry.attached_exitHandler hexit hattached
    obtain ⟨attached, hsame⟩ := cleanupXdp_eq env.detachAtExit s
    rw [hsame] at hleaks ⊢
    exact ⟨hobj, hleaks, hstatus⟩
  case exited =>
    rw [CountInv, hpc]
    exact h
  case killed =>
    rw [CountInv, hpc]
    exact h

/-- Only what was attached is attached. -/
theorem CountInv.attaches_of_attached (h : CountInv env s) (hattached : s.attached = true) :
    env.Attaches := by
  have hfresh : ¬ s.Fresh := fun hfresh => ne_true_of_eq_false hfresh.1 hattached
  rw [CountInv] at h
  cases hpc : s.pc <;> rw [hpc] at h <;> dsimp only at h
  case findMap => exact h.2.2.2.2
  case setGlobals => exact h.2.2.2.1
  case handleInt | handleTerm | loop => exact h.1.2.2.1.1
  case atexit => exact h.2.2.1.1
  case cleanup => exact h.2.1.mp hattached
  case closeObj | exitHandlers => exact (h.2.1.mp hattached).1
  case exited => exact (h.2.1.mp hattached).1.1
  case killed => exact h.2.2 hattached
  all_goals exact absurd h.1 hfresh

/-- Packets and signals keep it too. -/
theorem CountInv.countStep (h : CountInv env s) (a : CountAct) :
    CountInv env (countStep env s a) := by
  cases a with
  | packet =>
      rw [UnifiedTrace.countStep, xdpCountPackets]
      split
      · exact h
      · exact h
  | signal sig =>
      rw [UnifiedTrace.countStep, CountState.signal]
      split
      · exact h
      · split
        · exact h
        · rename_i hhandles
          refine ⟨rfl, ?_, h.attaches_of_attached⟩
          exact Bool.eq_false_iff.mpr (by cases sig <;> exact hhandles)
  | step found => exact h.mainStep found

end Steps

/-- It holds after any actions. -/
theorem CountInv.of_run (env : CountEnv) (acts : List CountAct) :
    CountInv env (countRun env acts) := by
  induction acts using List.reverseRecOn with
  | nil => exact CountInv.init
  | append_singleton acts a ih =>
      rw [countRun_concat]
      exact ih.countStep a

/-! ### The counter -/

/-- Everything works but the detachment. -/
def stuckEnv : CountEnv where
  ifindex := 1
  opens := true
  loadErr := 0
  prog := true
  progFd := 5
  attachErr := 0
  map := true
  atexit := true
  detach := false
  detachAtExit := false

/-- Between the installation of the two handlers `SIGTERM` kills and `SIGINT` does not. -/
example : (countRun stuckEnv (List.replicate 9 (.step true) ++ [.signal .int])).pc = .handleTerm ∧
    (countRun stuckEnv (List.replicate 9 (.step true) ++ [.signal .term])).pc = .killed .term := by
  decide

end UnifiedTrace
