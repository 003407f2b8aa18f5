import Mathlib.Data.List.Basic
import UnifiedTrace.TraceCuda

/-!
# Stack Sampling

`maybe_capture_stack` decides from one counter per CPU, shared by synchronous and
asynchronous calls, and compares it with the period of the class of the call at hand. So
what decides is the position of a call among all calls of its CPU, not its position in its
own class: a call at which the two positions disagree on divisibility by the period is
sampled out of turn.

## Main results

* `captureAttempts_eq`: the attempts on a CPU are those of a counter that runs over all its
  traced entries.
* `samplingHonoured_iff`: each class is sampled at its own period exactly when, at every
  call, its period divides the number of all earlier calls of the CPU if and only if it
  divides the number of earlier calls of the class.
* `alternation_starves_async`: strict alternation with period `2` never samples an
  asynchronous call.
-/

/-! ### Positions in a filtered list -/

/-- The `k`-th entry of a filtered list is an entry of the list with `k` such entries before
it. -/
theorem List.getElem?_filter_eq_some_iff {α : Type*} {p : α → Bool} {l : List α} {k : ℕ}
    {a : α} : (l.filter p)[k]? = some a ↔
      ∃ pre post, l = pre ++ a :: post ∧ p a = true ∧ pre.countP p = k := by
  constructor
  · intro h
    induction l generalizing k with
    | nil => exact absurd h (by simp)
    | cons b l ih =>
        by_cases hb : p b = true
        · rw [List.filter_cons_of_pos hb] at h
          cases k with
          | zero =>
              obtain rfl : b = a := by simpa using h
              exact ⟨[], l, rfl, hb, rfl⟩
          | succ k =>
              obtain ⟨pre, post, rfl, ha, hk⟩ := ih (by simpa using h)
              exact ⟨b :: pre, post, rfl, ha, by rw [List.countP_cons_of_pos hb, hk]⟩
        · rw [List.filter_cons_of_neg hb] at h
          obtain ⟨pre, post, rfl, ha, hk⟩ := ih h
          exact ⟨b :: pre, post, rfl, ha, by rw [List.countP_cons_of_neg hb, hk]⟩
  · rintro ⟨pre, post, rfl, ha, rfl⟩
    rw [List.filter_append, List.filter_cons_of_pos ha, List.countP_eq_length_filter]
    simp

/-- Any `a` consecutive numbers contain exactly one multiple of `a`. -/
theorem Nat.countP_range'_mod_eq_zero {a : ℕ} (ha : 0 < a) (n : ℕ) :
    (List.range' n a).countP (fun k => k % a = 0) = 1 := by
  obtain ⟨b, rfl⟩ : ∃ b, a = b + 1 := ⟨a - 1, by omega⟩
  induction n with
  | zero =>
      rw [List.range'_succ, List.countP_cons_of_pos (by simp), List.countP_eq_zero.mpr]
      intro k hk
      obtain ⟨h1, h2⟩ := List.mem_range'_1.mp hk
      rw [decide_eq_true_eq, Nat.mod_eq_of_lt (by omega)]
      omega
  | succ n ih =>
      -- the window moves by one: what it loses on the left it gains on the right
      rw [List.range'_succ, List.countP_cons] at ih
      rw [List.range'_1_concat, List.countP_append, List.countP_singleton,
        show n + 1 + b = n + (b + 1) by omega]
      simpa using ih

namespace UnifiedTrace

/-- The asynchronous operations, as their entry programs flag them. -/
def CudaOp.isAsync (op : CudaOp) : Bool := op.entryFlags &&& cudaEvFlagAsync ≠ 0

/-- The firing of an entry probe. -/
structure EntryFiring where
  env : EntryEnv
  ctx : PtRegs
  op : CudaOp

/-- The firings on a CPU that pass the PID filter, by class (`true` is asynchronous). -/
def callsOn (cfg : CudaTracerCfg) (cpu : UInt32) (fs : List EntryFiring) : List Bool :=
  (fs.filter fun f => f.env.cpu = cpu ∧ cfg.Passes f.env.pidTgid).map fun f => f.op.isAsync

/-- Which of these firings attempt a stack capture, when the firings of all CPUs run in the
given order: class and attempt of each. -/
def captureAttempts (cfg : CudaTracerCfg) (cpu : UInt32) :
    CudaMaps → List EntryFiring → List (Bool × Bool)
  | _, [] => []
  | maps, f :: fs =>
      let rest := captureAttempts cfg cpu (entryProbe cfg maps f.env f.ctx f.op).1 fs
      if f.env.cpu = cpu ∧ cfg.Passes f.env.pidTgid then
        (f.op.isAsync, (maybeCaptureStack cfg maps f.env f.op.entryFlags).2.isSome) :: rest
      else rest

/-- The attempts of the calls of one class, in order. -/
def attemptsOf (async : Bool) (attempts : List (Bool × Bool)) : List Bool :=
  (attempts.filter fun a => a.1 = async).map Prod.snd

/-- The configured period of a class. -/
def CudaTracerCfg.classPeriod (cfg : CudaTracerCfg) (async : Bool) : UInt32 :=
  if async then cfg.samplePeriodAsync else cfg.samplePeriodSync

/-- Each class is sampled at its own period: its `k`-th call attempts a capture exactly when
the period divides `k`; so any `A` consecutive asynchronous calls, `A` being their period,
contain one attempt. -/
def SamplingHonoured (cfg : CudaTracerCfg) (attempts : List (Bool × Bool)) : Prop :=
  (∀ async k b, (attemptsOf async attempts)[k]? = some b →
    (b = true ↔ k % (cfg.classPeriod async).toNat = 0)) ∧
  ∀ n, n + cfg.samplePeriodAsync.toNat ≤ (attemptsOf true attempts).length →
    (((attemptsOf true attempts).drop n).take cfg.samplePeriodAsync.toNat).count true = 1

/-- At every call of the CPU its class's period divides the number of all calls before it
(as the 64-bit counter holds it) exactly when it divides the number of calls of its own
class before it. -/
def PositionsAgree (cfg : CudaTracerCfg) (calls : List Bool) : Prop :=
  ∀ pre async post, calls = pre ++ async :: post →
    (pre.length % 2 ^ 64 % (cfg.classPeriod async).toNat = 0 ↔
      pre.count async % (cfg.classPeriod async).toNat = 0)

variable {cfg : CudaTracerCfg}

instance (calls : List Bool) : Decidable (PositionsAgree cfg calls) :=
  decidable_of_iff
    (∀ i : Fin calls.length, (i % 2 ^ 64 % (cfg.classPeriod calls[i]).toNat = 0 ↔
      (calls.take i).count calls[i] % (cfg.classPeriod calls[i]).toNat = 0)) <| by
    constructor
    · rintro h pre async post rfl
      simpa using h ⟨pre.length, by simp⟩
    · intro h i
      have hsplit := h (calls.take i) calls[i] (calls.drop (i + 1)) (by simp)
      rwa [List.length_take_of_le (by omega)] at hsplit

/-! ### One firing -/

/-- With positive periods, the period the program uses is that of the class. -/
theorem period_entryFlags (hs : 0 < cfg.samplePeriodSync) (ha : 0 < cfg.samplePeriodAsync)
    (op : CudaOp) : cfg.period op.entryFlags = cfg.classPeriod op.isAsync := by
  have hs' : cfg.samplePeriodSync ≠ 0 := fun h => by simp [h] at hs
  have ha' : cfg.samplePeriodAsync ≠ 0 := fun h => by simp [h] at ha
  by_cases h : op.entryFlags &&& cudaEvFlagAsync ≠ 0
  · simp [CudaTracerCfg.period, CudaTracerCfg.classPeriod, CudaOp.isAsync, h, ha']
  · simp [CudaTracerCfg.period, CudaTracerCfg.classPeriod, CudaOp.isAsync, h, hs']

/-- A firing attempts a capture exactly when the period divides the counter. -/
theorem isSome_maybeCaptureStack (hc : cfg.captureStacks ≠ 0) (maps : CudaMaps)
    (env : EntryEnv) (flags : UInt32) :
    (maybeCaptureStack cfg maps env flags).2.isSome =
      decide ((maps.stackSampleCounter env.cpu).toNat % (cfg.period flags).toNat = 0) := by
  have hmod : maps.stackSampleCounter env.cpu % (cfg.period flags).toUInt64 ≠ 0 ↔
      (maps.stackSampleCounter env.cpu).toNat % (cfg.period flags).toNat ≠ 0 := by
    rw [ne_eq, ← UInt64.toNat_inj, UInt64.toNat_mod, UInt32.toNat_toUInt64]
    rfl
  rw [maybeCaptureStack, if_neg hc]
  split
  · rename_i h
    rw [decide_eq_false (hmod.mp h)]
    rfl
  · rename_i h
    rw [decide_eq_true (not_not.mp (mt hmod.mpr h))]
    rfl

/-- Sampling counts its firing on its own CPU. -/
theorem counter_maybeCaptureStack (hc : cfg.captureStacks ≠ 0) (maps : CudaMaps)
    (env : EntryEnv) (flags : UInt32) :
    (maybeCaptureStack cfg maps env flags).1.stackSampleCounter =
      (maps.bumpCounter env.cpu).stackSampleCounter := by
  rw [maybeCaptureStack, if_neg hc]
  split <;> rfl

/-- A traced entry advances the counter of its CPU by one. -/
theorem counter_entryProbe_of_passes (hc : cfg.captureStacks ≠ 0) {maps : CudaMaps}
    {f : EntryFiring} (hp : cfg.Passes f.env.pidTgid) :
    (entryProbe cfg maps f.env f.ctx f.op).1.stackSampleCounter f.env.cpu =
      maps.stackSampleCounter f.env.cpu + 1 := by
  obtain ⟨size, ptr, streamId, heq⟩ := entryProbe_eq cfg f.ctx f.op
  rw [heq, recordEntry_of_passes hp, CudaMaps.setCall, counter_maybeCaptureStack hc]
  exact Function.update_self ..

/-- A filtered entry, or one on another CPU, leaves the counter alone. -/
theorem counter_entryProbe_of_not (hc : cfg.captureStacks ≠ 0) {maps : CudaMaps}
    {f : EntryFiring} {cpu : UInt32} (h : ¬ (f.env.cpu = cpu ∧ cfg.Passes f.env.pidTgid)) :
    (entryProbe cfg maps f.env f.ctx f.op).1.stackSampleCounter cpu =
      maps.stackSampleCounter cpu := by
  obtain ⟨size, ptr, streamId, heq⟩ := entryProbe_eq cfg f.ctx f.op
  rw [heq]
  by_cases hp : cfg.Passes f.env.pidTgid
  · rw [recordEntry_of_passes hp, CudaMaps.setCall, counter_maybeCaptureStack hc]
    exact Function.update_of_ne (fun he => h ⟨he.symm, hp⟩) ..
  · rw [recordEntry_of_filtered hp]

/-! ### A sequence of firings -/

/-- The attempts of calls whose classes are given, when the counter starts at `n`. -/
def attemptsFrom (cfg : CudaTracerCfg) : ℕ → List Bool → List (Bool × Bool)
  | _, [] => []
  | n, async :: calls =>
      (async, decide (n % 2 ^ 64 % (cfg.classPeriod async).toNat = 0)) ::
        attemptsFrom cfg (n + 1) calls

/-- **The attempts on a CPU** are those of a counter over all its traced entries, whatever
happens on the other CPUs. -/
theorem captureAttempts_eq (hc : cfg.captureStacks ≠ 0) (hs : 0 < cfg.samplePeriodSync)
    (ha : 0 < cfg.samplePeriodAsync) (cpu : UInt32) {maps : CudaMaps} {n : ℕ}
    (hn : (maps.stackSampleCounter cpu).toNat = n % 2 ^ 64) (fs : List EntryFiring) :
    captureAttempts cfg cpu maps fs = attemptsFrom cfg n (callsOn cfg cpu fs) := by
  induction fs generalizing maps n with
  | nil => rfl
  | cons f fs ih =>
      rw [captureAttempts, callsOn]
      by_cases h : f.env.cpu = cpu ∧ cfg.Passes f.env.pidTgid
      · obtain ⟨rfl, hp⟩ := h
        have hnext : ((entryProbe cfg maps f.env f.ctx f.op).1.stackSampleCounter
            f.env.cpu).toNat = (n + 1) % 2 ^ 64 := by
          rw [counter_entryProbe_of_passes hc hp, UInt64.toNat_add, hn]
          exact Nat.mod_add_mod n (2 ^ 64) 1
        rw [if_pos ⟨rfl, hp⟩, List.filter_cons_of_pos (by simp [hp]), List.map_cons,
          attemptsFrom, isSome_maybeCaptureStack hc, period_entryFlags hs ha, hn]
        exact congrArg _ (ih hnext)
      · rw [if_neg h, List.filter_cons_of_neg (by simpa using h)]
        exact ih ((counter_entryProbe_of_not hc h).symm ▸ hn)

/-- The second part of the calls goes on counting. -/
theorem attemptsFrom_append (n : ℕ) (pre post : List Bool) :
    attemptsFrom cfg n (pre ++ post) =
      attemptsFrom cfg n pre ++ attemptsFrom cfg (n + pre.length) post := by
  induction pre generalizing n with
  | nil => rfl
  | cons async pre ih =>
      rw [List.cons_append, attemptsFrom, attemptsFrom, ih, List.length_cons,
        show n + 1 + pre.length = n + (pre.length + 1) by omega]
      rfl

/-- Every call is answered. -/
@[simp] theorem map_fst_attemptsFrom (cfg : CudaTracerCfg) (n : ℕ) (calls : List Bool) :
    (attemptsFrom cfg n calls).map Prod.fst = calls := by
  induction calls generalizing n with
  | nil => rfl
  | cons async calls ih => rw [attemptsFrom, List.map_cons, ih]

/-- How many attempts of a class precede a call: the earlier calls of the class. -/
theorem countP_attemptsFrom (async : Bool) (n : ℕ) (calls : List Bool) :
    (attemptsFrom cfg n calls).countP (fun a => a.1 = async) = calls.count async := by
  conv_rhs => rw [← map_fst_attemptsFrom cfg n calls]
  rw [List.count, List.countP_map]
  exact List.countP_congr fun a _ => by simp

/-- The `k`-th call of a class, as a position among all calls. -/
theorem getElem?_attemptsOf_eq_some_iff {async : Bool} {calls : List Bool} {k : ℕ}
    {b : Bool} : (attemptsOf async (attemptsFrom cfg 0 calls))[k]? = some b ↔
      ∃ pre post, calls = pre ++ async :: post ∧ pre.count async = k ∧
        b = decide (pre.length % 2 ^ 64 % (cfg.classPeriod async).toNat = 0) := by
  rw [attemptsOf, List.getElem?_map, Option.map_eq_some_iff]
  constructor
  · rintro ⟨⟨_, b'⟩, hget, rfl⟩
    obtain ⟨P, Q, hsplit, hclass, hk⟩ := List.getElem?_filter_eq_some_iff.mp hget
    obtain rfl : _ = async := of_decide_eq_true hclass
    have hcalls := congrArg (List.map Prod.fst) hsplit
    rw [map_fst_attemptsFrom, List.map_append, List.map_cons] at hcalls
    -- the entries before and at this call, recomputed from the classes
    have hagain := hsplit
    rw [hcalls, attemptsFrom_append, attemptsFrom] at hagain
    obtain ⟨hP, hrest⟩ := List.append_inj hagain (by
      rw [← List.length_map (f := Prod.fst), map_fst_attemptsFrom, List.length_map])
    refine ⟨P.map Prod.fst, Q.map Prod.fst, hcalls, ?_, ?_⟩
    · rw [← hk, ← hP, countP_attemptsFrom, map_fst_attemptsFrom]
    · have hb := congrArg Prod.snd (List.cons.inj hrest).1
      simpa using hb.symm
  · rintro ⟨pre, post, rfl, rfl, rfl⟩
    refine ⟨(async, decide (pre.length % 2 ^ 64 % (cfg.classPeriod async).toNat = 0)),
      List.getElem?_filter_eq_some_iff.mpr
        ⟨attemptsFrom cfg 0 pre, attemptsFrom cfg (pre.length + 1) post, ?_, ?_, ?_⟩, rfl⟩
    · rw [attemptsFrom_append, attemptsFrom, Nat.zero_add]
    · simp
    · exact countP_attemptsFrom async 0 pre

/-- A sequence that is true exactly at the multiples of `a` is true once in every window of
length `a`. -/
theorem count_window {l : List Bool} {a n : ℕ} (ha : 0 < a)
    (hl : ∀ k b, l[k]? = some b → (b = true ↔ k % a = 0)) (hn : n + a ≤ l.length) :
    ((l.drop n).take a).count true = 1 := by
  have hwindow : (l.drop n).take a = (List.range' n a).map fun k => decide (k % a = 0) := by
    apply List.ext_getElem
    · rw [List.length_take, List.length_drop, List.length_map, List.length_range']
      omega
    · intro i h1 h2
      rw [List.length_map, List.length_range'] at h2
      have hlt : n + i < l.length := by omega
      rw [List.getElem_take, List.getElem_drop, List.getElem_map, List.getElem_range',
        Nat.one_mul]
      have hiff := hl (n + i) _ (List.getElem?_eq_getElem hlt)
      exact Bool.eq_iff_iff.mpr (hiff.trans decide_eq_true_iff.symm)
  rw [hwindow, List.count, List.countP_map]
  refine Eq.trans (List.countP_congr fun k _ => ?_) (Nat.countP_range'_mod_eq_zero ha n)
  simp

/-- **When sampling honours the classes.** Each class is sampled at its own period exactly
when, at every call of the CPU, the period of its class divides the number of all calls
before it if and only if it divides the number of those of its own class. -/
theorem samplingHonoured_iff (cfg : CudaTracerCfg) (cpu : UInt32) (fs : List EntryFiring)
    (hc : cfg.captureStacks ≠ 0) (hs : 0 < cfg.samplePeriodSync)
    (ha : 0 < cfg.samplePeriodAsync) :
    SamplingHonoured cfg (captureAttempts cfg cpu CudaMaps.init fs) ↔
      PositionsAgree cfg (callsOn cfg cpu fs) := by
  rw [captureAttempts_eq (n := 0) hc hs ha cpu rfl fs]
  constructor
  · rintro ⟨hclass, -⟩ pre async post hsplit
    have hget : (attemptsOf async (attemptsFrom cfg 0 (callsOn cfg cpu fs)))[
        pre.count async]? = some (decide (pre.length % 2 ^ 64 %
          (cfg.classPeriod async).toNat = 0)) :=
      getElem?_attemptsOf_eq_some_iff.mpr ⟨pre, post, hsplit, rfl, rfl⟩
    rw [← hclass async _ _ hget, decide_eq_true_iff]
  · intro h
    have hclass : ∀ async k b,
        (attemptsOf async (attemptsFrom cfg 0 (callsOn cfg cpu fs)))[k]? = some b →
          (b = true ↔ k % (cfg.classPeriod async).toNat = 0) := by
      intro async k b hget
      obtain ⟨pre, post, hsplit, rfl, rfl⟩ := getElem?_attemptsOf_eq_some_iff.mp hget
      rw [decide_eq_true_iff, h pre async post hsplit]
    refine ⟨hclass, fun n hn => ?_⟩
    have hpos : 0 < cfg.samplePeriodAsync.toNat := UInt32.lt_iff_toNat_lt.mp ha
    exact count_window hpos (hclass true) hn

/-- Captures on, every synchronous and every second asynchronous call sampled. -/
def everySecondAsync : CudaTracerCfg := { CudaTracerCfg.default with samplePeriodAsync := 2 }

/-- A firing on CPU `0` by the thread with key `1`. -/
def firingOf (op : CudaOp) : EntryFiring where
  env := { pidTgid := 1, now := 10, cpu := 0, stackid := 0 }
  ctx := { rdi := 0, rsi := 0, rdx := 0, rcx := 0, r8 := 0, rax := 0 }
  op

/-- Two synchronous calls between the first and the second asynchronous one leave the
phase alone. -/
theorem samplingHonoured_iff_two_apart :
    SamplingHonoured everySecondAsync (captureAttempts everySecondAsync 0 CudaMaps.init
      ([.memcpyAsync, .malloc, .sync, .graphLaunch, .memcpyAsync].map firingOf)) := by
  rw [samplingHonoured_iff _ _ _ (by decide) (by decide) (by decide)]
  have hcalls : callsOn everySecondAsync 0
      ([.memcpyAsync, .malloc, .sync, .graphLaunch, .memcpyAsync].map firingOf) =
        [true, false, false, true, true] := by decide +kernel
  rw [hcalls]
  decide +kernel

/-- Strict alternation with period `2` never samples an asynchronous call. -/
theorem alternation_starves_async :
    ¬ ∀ (cfg : CudaTracerCfg) (cpu : UInt32) (fs : List EntryFiring),
      cfg.captureStacks ≠ 0 → 0 < cfg.samplePeriodSync → 0 < cfg.samplePeriodAsync →
      SamplingHonoured cfg (captureAttempts cfg cpu CudaMaps.init fs) := by
  intro hall
  have hcount := (hall everySecondAsync 0
    ([.malloc, .memcpyAsync, .sync, .memcpyAsync].map firingOf)
    (by decide) (by decide) (by decide)).2 0 (by decide +kernel)
  exact absurd hcount (by decide +kernel)

end UnifiedTrace
