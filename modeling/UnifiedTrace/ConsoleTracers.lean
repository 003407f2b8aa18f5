import UnifiedTrace.ProbeTable

/-!
# The Console Tracers

`main` of `src/user/trace_cuda.c` and of `src/user/trace_exec.c`. Both load one object, attach
its programs, poll one ring buffer until a signal comes, clean up at one label, and turn the
local variable `err` into the exit status. `err` is only assigned by the load and by the polls:
a failure of another call leaves it at zero, and so does the loop when a signal interrupts a
poll, while the loop that finds the flag `exiting` set leaves what the last poll returned, which
is the number of records it consumed.

Until the load assigns `err`, leaving means `return 1`; the data of the state start with that.

## Main results

* `pollErr_ne_zero_iff`: when the loop leaves an error.
* `traceExec_releases`, `traceCuda_releases`: no path leaks, and what the exit status says.
-/

namespace UnifiedTrace

open ResourceLog

/-! ### The poll loop -/

/-- `-EINTR`. -/
def negEintr : Int32 := -4

/-- What the loop leaves in `err`, by what the polls return before the flag is found set. -/
def pollErr (err : Int32) : List Int32 → Int32
  | [] => err
  | r :: rest => if r = negEintr then 0 else if r < 0 then r else pollErr r rest

/-- The loop ends with an error: a poll fails, and not by an interruption, or no poll fails and
the last one consumed records. -/
def PollsFail (err : Int32) (polls : List Int32) : Prop :=
  (∃ pre r post, polls = pre ++ r :: post ∧ (∀ q ∈ pre, ¬ q < 0) ∧ r < 0 ∧ r ≠ negEintr) ∨
    (∀ q ∈ polls, ¬ q < 0) ∧ polls.getLast?.getD err ≠ 0

/-- **What the loop leaves**: an error of a poll that is not an interruption, or else, if no poll
failed at all, what the last one returned. -/
theorem pollErr_ne_zero_iff (err : Int32) (polls : List Int32) :
    pollErr err polls ≠ 0 ↔ PollsFail err polls := by
  unfold PollsFail
  induction polls generalizing err with
  | nil => simp [pollErr]
  | cons r rest ih =>
      rw [pollErr]
      split
      · -- an interruption: nothing behind it is polled
        rename_i heintr
        have hneg : r < 0 := by rw [heintr]; decide
        refine iff_of_false (fun h => h rfl) ?_
        rintro (⟨pre, q, post, heq, hpre, -, hne⟩ | ⟨hall, -⟩)
        · cases pre with
          | nil => exact hne ((List.cons.inj heq).1 ▸ heintr)
          | cons p pre => exact hpre p List.mem_cons_self ((List.cons.inj heq).1 ▸ hneg)
        · exact hall r List.mem_cons_self hneg
      · rename_i hne
        split
        · rename_i hneg
          refine iff_of_true (fun h => ?_) (.inl ⟨[], r, rest, rfl, by simp, hneg, hne⟩)
          rw [h] at hneg
          exact absurd hneg (by decide)
        · rename_i hpos
          rw [ih]
          have hlast : (r :: rest).getLast?.getD err = rest.getLast?.getD r := by
            rw [List.getLast?_cons]
            rfl
          rw [hlast, List.forall_mem_cons, and_iff_right hpos]
          refine or_congr_left ⟨?_, ?_⟩
          · rintro ⟨pre, q, post, rfl, hpre, hq⟩
            exact ⟨r :: pre, q, post, rfl, List.forall_mem_cons.mpr ⟨hpos, hpre⟩, hq⟩
          · rintro ⟨pre, q, post, heq, hpre, hq⟩
            cases pre with
            | nil => exact absurd ((List.cons.inj heq).1 ▸ hq.1) hpos
            | cons p pre =>
                exact ⟨pre, q, post, (List.cons.inj heq).2, (List.forall_mem_cons.mp hpre).2, hq⟩

/-- `return err != 0;` -/
theorem status_eq_one_iff (err : Int32) : (if err ≠ 0 then 1 else 0) = 1 ↔ err ≠ 0 := by
  split
  · exact iff_of_true rfl ‹_›
  · exact iff_of_false Nat.zero_ne_one ‹_›

section Loop

variable {H ρ : Type} [DecidableEq H] (rb : H) (setErr : Int32 → ρ → ρ)

/-- The loop, by what the polls return; after the last one the flag is found set. -/
def pollRing : List Int32 → Prog (Store H ρ) Unit
  | [] => pure ()
  | r :: rest => do
      discard <| call rb true
      if r = negEintr then
        setData (setErr 0)
      else do
        setData (setErr r)
        if r < 0 then pure () else pollRing rest

variable {rb setErr} {parent : H → Option H} {rank : H → ℕ} {bound : ℕ} {must : List H}
  {D : Int32 → ρ → Prop} {E : Store H ρ → Prop}

/-- Polling the ring keeps what is held and leaves its error. -/
theorem pollRing_rule (hmem : rb ∈ must) (hset : ∀ err r d, D err d → D r (setErr r d))
    (err : Int32) (polls : List Int32) :
    Triple (Holding parent rank bound must (D err)) (pollRing rb setErr polls)
      (fun _ => Holding parent rank bound must (D (pollErr err polls))) E := by
  induction polls generalizing err with
  | nil => exact Triple.pure fun _ h => h
  | cons r rest ih =>
      refine (discard_call_rule hmem).bind fun _ => ?_
      rw [pollErr]
      split
      · exact setData_rule fun d hd => hset err 0 d hd
      · have hset' : Triple (Holding parent rank bound must (D err)) (setData (setErr r))
            (fun _ => Holding parent rank bound must (D r)) E :=
          setData_rule fun d hd => hset err r d hd
        refine hset'.bind fun _ => ?_
        split
        · exact Triple.pure fun _ h => h
        · exact ih r

end Loop

/-! ### `trace_exec` -/

/-- The variables of `trace_exec` that hold a handle. -/
inductive ExecHandle
  | obj
  | link
  | rb
  deriving DecidableEq

/-- The link and the ring buffer belong to the object. -/
def ExecHandle.parent : ExecHandle → Option ExecHandle
  | obj => none
  | link | rb => some obj

/-- The order in which they are acquired. -/
def ExecHandle.rank : ExecHandle → ℕ
  | obj => 0
  | link => 1
  | rb => 2

/-- What the libraries answer. -/
structure ExecEnv where
  opens : Bool
  loadErr : Int32
  prog : Bool
  attach : Bool
  eventsMap : Bool
  ring : Bool
  polls : List Int32

/-- `main` of `trace_exec.c` up to the label `cleanup`; the data are `err`. -/
def traceExecBody (env : ExecEnv) : Prog (Store ExecHandle Int32) Unit := do
  check (← assign .obj env.opens)
  discard <| call .obj true
  setData fun _ => env.loadErr
  check (env.loadErr = 0)
  check (← call .obj env.prog)
  check (← assign .link env.attach)
  check (← call .obj env.eventsMap)
  check (← assign .rb env.ring)
  pollRing .rb (fun r _ => r) env.polls

/-- `main` of `trace_exec.c`: the exit status and the log. -/
def traceExecMain (env : ExecEnv) : ℕ × List (Act ExecHandle) :=
  let s := ((traceExecBody env).run.run (.init 1)).2
  (if s.data ≠ 0 then 1 else 0, s.log ++ releases s.vars [.rb, .link, .obj])

/-- Nothing fails before the loop. -/
def ExecEnv.Ready (env : ExecEnv) : Prop :=
  env.opens = true ∧ env.loadErr = 0 ∧ env.prog = true ∧ env.attach = true ∧
    env.eventsMap = true ∧ env.ring = true

/-- The log so far is legal, with this `err`. -/
abbrev ExecOpened (bound : ℕ) (must : List ExecHandle) (err : Int32) :
    Store ExecHandle Int32 → Prop :=
  Holding ExecHandle.parent ExecHandle.rank bound must (· = err)

/-- The state at a `goto cleanup`: `err` is that of the load, or it was not assigned yet. -/
def ExecFailed (env : ExecEnv) (s : Store ExecHandle Int32) : Prop :=
  ¬ env.Ready ∧ ∃ bound must,
    ExecOpened bound must (if env.opens = true then env.loadErr else 1) s

/-- A failure is fatal only if something was needed. -/
theorem execFailed_of {env : ExecEnv} {bound : ℕ} {must : List ExecHandle} {ok : Bool}
    (hopens : env.opens = true) (hneeded : env.Ready → ok = true) (hno : ok = false)
    (s : Store ExecHandle Int32) (h : ExecOpened bound must env.loadErr s) :
    ExecFailed env s := by
  refine ⟨fun hready => absurd (hneeded hready) (ne_true_of_eq_false hno), bound, must, ?_⟩
  rw [if_pos hopens]
  exact h

/-- The body of `trace_exec` up to its cleanup. -/
theorem traceExecBody_rule (env : ExecEnv) :
    Triple (ExecOpened 0 [] 1) (traceExecBody env)
      (fun _ s => env.Ready ∧ ExecOpened 3 [.rb, .link, .obj] (pollErr 0 env.polls) s)
      (ExecFailed env) := by
  refine assign_check_rule (fun hno s h => ⟨?_, 0, [], ?_⟩) (Nat.le_refl 0) (by rintro p ⟨⟩)
    fun hopens => ?_
  · exact fun hready => absurd hready.1 (ne_true_of_eq_false hno)
  · rw [if_neg (ne_true_of_eq_false hno)]
    exact h
  refine (discard_call_rule List.mem_cons_self).bind fun _ => ?_
  have hload : Triple (ExecOpened 1 [.obj] 1) (setData fun _ => env.loadErr)
      (fun _ => ExecOpened 1 [.obj] env.loadErr) (ExecFailed env) := setData_rule fun _ _ => rfl
  refine hload.bind fun _ => ?_
  refine Triple.check_pure (execFailed_of hopens fun h => decide_eq_true h.2.1) fun hload => ?_
  have hzero : env.loadErr = 0 := of_decide_eq_true hload
  refine call_check_rule (execFailed_of hopens fun h => h.2.2.1) List.mem_cons_self fun hprog => ?_
  refine assign_check_rule (execFailed_of hopens fun h => h.2.2.2.1) (Nat.le_refl 1)
    (by rintro p ⟨⟩; simp) fun hattach => ?_
  refine call_check_rule (execFailed_of hopens fun h => h.2.2.2.2.1) (by simp) fun hmap => ?_
  refine assign_check_rule (execFailed_of hopens fun h => h.2.2.2.2.2) (Nat.le_refl 2)
    (by rintro p ⟨⟩; simp) fun hring => ?_
  have hready : env.Ready := ⟨hopens, hzero, hprog, hattach, hmap, hring⟩
  have hpoll : Triple (ExecOpened 3 [.rb, .link, .obj] env.loadErr)
      (pollRing .rb (fun r _ => r) env.polls)
      (fun _ => ExecOpened 3 [.rb, .link, .obj] (pollErr env.loadErr env.polls))
      (ExecFailed env) :=
    pollRing_rule (D := fun err d => d = err) List.mem_cons_self (fun _ _ _ _ => rfl) _ _
  rw [hzero] at hpoll ⊢
  exact hpoll.mono (fun _ h => h) fun _ s h => ⟨hready, h⟩

/-- **`trace_exec`.** On every path the log is legal and ends with nothing held. The exit status
is `1` exactly if the object cannot be opened or loaded, or everything is set up and then a poll
fails otherwise than by an interruption, or all polls succeed and the last one before the flag is
found set consumed records. In particular it is `0` when the program cannot be attached. -/
theorem traceExec_releases (env : ExecEnv) :
    run ExecHandle.parent ∅ (traceExecMain env).2 = some ∅ ∧
      ((traceExecMain env).1 = 1 ↔ env.opens = false ∨ env.loadErr ≠ 0 ∨
        env.Ready ∧ PollsFail 0 env.polls) := by
  have hbody := traceExecBody_rule env (.init 1) (Holding.init rfl)
  have hclean : ∀ {bound must err s}, ExecOpened bound must err s →
      run ExecHandle.parent ∅ (s.log ++ releases s.vars [.rb, .link, .obj]) = some ∅ :=
    fun h => h.run_cleanup (by decide) (fun h => by cases h <;> simp) (by decide)
      fun h => by cases h <;> decide
  have hstatus : ∀ {bound must err} {s : Store ExecHandle Int32}, ExecOpened bound must err s →
      ((if s.data ≠ 0 then 1 else 0) = 1 ↔ err ≠ 0) := by
    intro bound must err s h
    rw [h.data]
    exact status_eq_one_iff err
  rw [traceExecMain]
  rcases hrun : (traceExecBody env).run.run (.init 1) with ⟨result, s⟩
  rw [hrun] at hbody
  cases result with
  | ok u =>
      obtain ⟨hready, hheld⟩ := hbody
      refine ⟨hclean hheld, (hstatus hheld).trans ?_⟩
      rw [pollErr_ne_zero_iff]
      refine ⟨fun h => .inr (.inr ⟨hready, h⟩), ?_⟩
      rintro (h | h | ⟨-, h⟩)
      · exact absurd hready.1 (ne_true_of_eq_false h)
      · exact absurd hready.2.1 h
      · exact h
  | error u =>
      obtain ⟨hnot, bound, must, hheld⟩ := hbody
      refine ⟨hclean hheld, (hstatus hheld).trans ?_⟩
      cases hopens : env.opens with
      | false =>
          rw [if_neg Bool.false_ne_true]
          exact iff_of_true (by decide) (.inl rfl)
      | true =>
          rw [if_pos rfl]
          refine ⟨fun h => .inr (.inl h), ?_⟩
          rintro (h | h | ⟨h, -⟩)
          · cases h
          · exact h
          · exact absurd h hnot

/-! ### `trace_cuda` -/

/-- The variables of `trace_cuda` that hold a handle or memory. -/
inductive CudaHandle
  | libPath
  | obj
  | link (i : Fin gpuLinksCap)
  | rb
  deriving DecidableEq

/-- The links and the ring buffer belong to the object. -/
def CudaHandle.parent : CudaHandle → Option CudaHandle
  | libPath | obj => none
  | link _ | rb => some obj

/-- The order in which they are acquired. -/
def CudaHandle.rank : CudaHandle → ℕ
  | libPath => 0
  | obj => 1
  | link i => 2 + i
  | rb => 2 + gpuLinksCap

/-- The paths that `find_cuda_library` tries. -/
def cudaLibPaths : List Bytes :=
  [ascii "/usr/local/cuda/lib64/libcudart.so", ascii "/usr/lib/x86_64-linux-gnu/libcudart.so",
    ascii "/usr/lib64/libcudart.so", ascii "/usr/lib/libcudart.so"]

/-- The command line, and what the libraries answer. -/
structure TraceCudaEnv where
  /-- `argv[1]`, if there is one. -/
  arg : Option Bytes
  access : Bytes → Bool
  /-- Whether `strdup` finds memory. -/
  strdup : Bool
  opens : Bool
  loadErr : Int32
  probes : ProbeEnv
  eventsMap : Bool
  ring : Bool
  polls : List Int32

/-- `find_cuda_library`, or the argument: whether there is a path. -/
def TraceCudaEnv.findsLib (env : TraceCudaEnv) : Bool :=
  (env.arg.isSome || cudaLibPaths.any env.access) && env.strdup

/-- `err`, and the rows behind the links. -/
structure TraceCudaVars where
  err : Int32
  attached : List ProbeRow

/-- `main` of `trace_cuda.c` up to the label `cleanup`. -/
def traceCudaBody (env : TraceCudaEnv) : Prog (Store CudaHandle TraceCudaVars) Unit := do
  check (← assign .libPath env.findsLib)
  check (← assign .obj env.opens)
  discard <| call .obj true
  setData fun d => { d with err := env.loadErr }
  check (env.loadErr = 0)
  attachFrom env.probes .obj .link TraceCudaVars.attached
    (fun row d => { d with attached := d.attached ++ [row] }) (throw ()) cudaFuncs
  let s ← get
  check (s.data.attached ≠ [])
  check (← call .obj env.eventsMap)
  check (← assign .rb env.ring)
  pollRing .rb (fun r d => { d with err := r }) env.polls

/-- The order of the releases behind the label `cleanup`. -/
def traceCudaCleanup : List CudaHandle :=
  .rb :: (List.finRange gpuLinksCap).map .link ++ [.obj, .libPath]

/-- `main` of `trace_cuda.c`: the exit status and the log. -/
def traceCudaMain (env : TraceCudaEnv) : ℕ × List (Act CudaHandle) :=
  let s := ((traceCudaBody env).run.run (.init ⟨1, []⟩)).2
  (if s.data.err ≠ 0 then 1 else 0, s.log ++ releases s.vars traceCudaCleanup)

/-- Nothing fails before the loop. -/
def TraceCudaEnv.Ready (env : TraceCudaEnv) : Prop :=
  (env.findsLib = true ∧ env.opens = true ∧ env.loadErr = 0) ∧
    cudaFuncs.filter env.probes.attaches ≠ [] ∧ env.eventsMap = true ∧ env.ring = true

/-- The log so far is legal, with this `err` and these rows. -/
abbrev CudaOpened (bound : ℕ) (must : List CudaHandle) (err : Int32) (rows : List ProbeRow) :
    Store CudaHandle TraceCudaVars → Prop :=
  Holding CudaHandle.parent CudaHandle.rank bound must (· = ⟨err, rows⟩)

/-- The state where the program leaves before the loop. -/
def CudaFailed (env : TraceCudaEnv) (s : Store CudaHandle TraceCudaVars) : Prop :=
  ¬ env.Ready ∧ ∃ bound must rows,
    CudaOpened bound must (if env.findsLib = true ∧ env.opens = true then env.loadErr else 1) rows s

section TraceCuda

variable {env : TraceCudaEnv} {bound : ℕ} {must : List CudaHandle} {rows : List ProbeRow}

/-- A failure before the load. -/
theorem cudaFailed_early (hno : ¬ (env.findsLib = true ∧ env.opens = true))
    (s : Store CudaHandle TraceCudaVars) (h : CudaOpened bound must 1 rows s) :
    CudaFailed env s := by
  refine ⟨fun hready => hno ⟨hready.1.1, hready.1.2.1⟩, bound, must, rows, ?_⟩
  rw [if_neg hno]
  exact h

/-- A failure of the load or behind it. -/
theorem cudaFailed_late {ok : Bool} (hopens : env.findsLib = true ∧ env.opens = true)
    (hneeded : env.Ready → ok = true) (hno : ok = false) (s : Store CudaHandle TraceCudaVars)
    (h : CudaOpened bound must env.loadErr rows s) : CudaFailed env s := by
  refine ⟨fun hready => absurd (hneeded hready) (ne_true_of_eq_false hno), bound, must, rows, ?_⟩
  rw [if_pos hopens]
  exact h

/-- The table on `links`. -/
theorem attachLinks_rule (hmem : .obj ∈ must) (err : Int32) :
    Triple (CudaOpened 2 must err [])
      (attachFrom env.probes .obj .link TraceCudaVars.attached
        (fun row d => { d with attached := d.attached ++ [row] }) (throw ()) cudaFuncs)
      (fun _ => CudaOpened (2 + gpuLinksCap) must err (cudaFuncs.filter env.probes.attaches))
      (CudaFailed env) := by
  have hcap : cudaFuncs.length ≤ gpuLinksCap := by decide
  have hle := List.length_filter_le env.probes.attaches cudaFuncs
  refine (@attachFrom_rule CudaHandle TraceCudaVars _ env.probes .obj .link TraceCudaVars.attached
    (fun row d => { d with attached := d.attached ++ [row] }) (throw ()) CudaHandle.parent
    CudaHandle.rank 2 must (fun rows d => d = ⟨err, rows⟩) [] (CudaFailed env) (fun _ => rfl)
    (fun _ => rfl) hmem ?_ ?_ cudaFuncs hcap).mono (fun _ h => h) fun _ s h =>
      h.mono (by rw [List.nil_append]; omega) (List.Subset.refl _)
  · rintro rows d row rfl
    rfl
  · rintro rows d rfl
    rfl

/-- **The way to the loop and through it.** -/
theorem traceCudaBody_rule (env : TraceCudaEnv) :
    Triple (CudaOpened 0 [] 1 []) (traceCudaBody env)
      (fun _ s => env.Ready ∧ ∃ must rows,
        CudaOpened (3 + gpuLinksCap) must (pollErr 0 env.polls) rows s) (CudaFailed env) := by
  refine assign_check_rule (fun hno => cudaFailed_early fun h => ?_) (Nat.le_refl 0)
    (by rintro p ⟨⟩) fun hlib => ?_
  · exact absurd h.1 (ne_true_of_eq_false hno)
  refine assign_check_rule (fun hno => cudaFailed_early fun h => ?_) (Nat.le_refl 1)
    (by rintro p ⟨⟩) fun hopens => ?_
  · exact absurd h.2 (ne_true_of_eq_false hno)
  have hlate : env.findsLib = true ∧ env.opens = true := ⟨hlib, hopens⟩
  refine (discard_call_rule List.mem_cons_self).bind fun _ => ?_
  have hload : Triple (CudaOpened 2 [.obj, .libPath] 1 [])
      (setData fun d => { d with err := env.loadErr })
      (fun _ => CudaOpened 2 [.obj, .libPath] env.loadErr []) (CudaFailed env) :=
    setData_rule fun d hd => by rw [hd]
  refine hload.bind fun _ => ?_
  refine Triple.check_pure (cudaFailed_late hlate fun h => decide_eq_true h.1.2.2) fun hload => ?_
  have hzero : env.loadErr = 0 := of_decide_eq_true hload
  refine (attachLinks_rule List.mem_cons_self env.loadErr).bind fun _ => Triple.get fun t => ?_
  -- what the test reads is what the loop has attached
  refine Triple.mono (P := fun s => t.data.attached = cudaFuncs.filter env.probes.attaches ∧
      CudaOpened (2 + gpuLinksCap) [.obj, .libPath] env.loadErr
        (cudaFuncs.filter env.probes.attaches) s)
    (Triple.of_and fun hrows => ?_)
    (fun s h => ⟨h.2 ▸ congrArg TraceCudaVars.attached h.1.data, h.1⟩) fun _ _ h => h
  rw [hrows]
  refine Triple.check_pure (cudaFailed_late hlate fun h => decide_eq_true h.2.1) fun hany => ?_
  refine call_check_rule (cudaFailed_late hlate fun h => h.2.2.1) List.mem_cons_self fun hmap => ?_
  refine assign_check_rule (cudaFailed_late hlate fun h => h.2.2.2) (Nat.le_refl _)
    (by rintro p ⟨⟩; simp) fun hring => ?_
  have hready : env.Ready := ⟨⟨hlib, hopens, hzero⟩, of_decide_eq_true hany, hmap, hring⟩
  have hpoll : Triple
      (CudaOpened (3 + gpuLinksCap) [.rb, .obj, .libPath] env.loadErr
        (cudaFuncs.filter env.probes.attaches))
      (pollRing .rb (fun r d => { d with err := r }) env.polls)
      (fun _ => CudaOpened (3 + gpuLinksCap) [.rb, .obj, .libPath] (pollErr env.loadErr env.polls)
        (cudaFuncs.filter env.probes.attaches)) (CudaFailed env) :=
    pollRing_rule (D := fun err (d : TraceCudaVars) =>
        d = ⟨err, cudaFuncs.filter env.probes.attaches⟩)
      List.mem_cons_self (fun err r d hd => by rw [hd]) _ _
  rw [hzero] at hpoll ⊢
  exact hpoll.mono (fun _ h => h) fun _ s h => ⟨hready, _, _, h⟩

end TraceCuda

/-- The cleanup comes to every handle. -/
theorem mem_traceCudaCleanup (h : CudaHandle) : h ∈ traceCudaCleanup := by
  cases h <;> simp [traceCudaCleanup]

/-- The cleanup comes to no handle twice. -/
theorem nodup_traceCudaCleanup : traceCudaCleanup.Nodup := by
  have hinj : Function.Injective CudaHandle.link := fun i j h => CudaHandle.link.inj h
  simp [traceCudaCleanup, List.nodup_append, List.nodup_map_iff hinj, List.nodup_finRange]

/-- The object comes after everything that depends on it. -/
theorem pairwise_traceCudaCleanup :
    traceCudaCleanup.Pairwise fun a b => b.parent ≠ some a := by
  have hobj : ∀ {a b : CudaHandle}, b.parent = some a → a = .obj := by
    rintro a (_ | _ | _ | _) h <;> cases h <;> rfl
  refine pairwise_of_childless (fun a ha b hb => ?_) (by simp [CudaHandle.parent])
  obtain rfl := hobj hb
  simp at ha

/-- **`trace_cuda`.** On every path the log is legal and ends with nothing held. The exit status
is `1` exactly if there is no library, the object cannot be opened or loaded, or everything is
set up and the loop ends with an error. In particular it is `0` when no probe could be attached. -/
theorem traceCuda_releases (env : TraceCudaEnv) :
    run CudaHandle.parent ∅ (traceCudaMain env).2 = some ∅ ∧
      ((traceCudaMain env).1 = 1 ↔ env.findsLib = false ∨ env.opens = false ∨ env.loadErr ≠ 0 ∨
        env.Ready ∧ PollsFail 0 env.polls) := by
  have hbody := traceCudaBody_rule env (.init ⟨1, []⟩) (Holding.init rfl)
  have hclean : ∀ {bound must err rows s}, CudaOpened bound must err rows s →
      run CudaHandle.parent ∅ (s.log ++ releases s.vars traceCudaCleanup) = some ∅ :=
    fun h => h.run_cleanup nodup_traceCudaCleanup mem_traceCudaCleanup pairwise_traceCudaCleanup
      fun h => by cases h <;> simp [CudaHandle.parent]
  have hstatus : ∀ {bound must err rows} {s : Store CudaHandle TraceCudaVars},
      CudaOpened bound must err rows s →
        ((if s.data.err ≠ 0 then 1 else 0) = 1 ↔ err ≠ 0) := by
    intro bound must err rows s h
    rw [h.data]
    exact status_eq_one_iff err
  rw [traceCudaMain]
  rcases hrun : (traceCudaBody env).run.run (.init ⟨1, []⟩) with ⟨result, s⟩
  rw [hrun] at hbody
  cases result with
  | ok u =>
      obtain ⟨hready, must, rows, hheld⟩ := hbody
      refine ⟨hclean hheld, (hstatus hheld).trans ?_⟩
      rw [pollErr_ne_zero_iff]
      refine ⟨fun h => .inr (.inr (.inr ⟨hready, h⟩)), ?_⟩
      rintro (h | h | h | ⟨-, h⟩)
      · exact absurd hready.1.1 (ne_true_of_eq_false h)
      · exact absurd hready.1.2.1 (ne_true_of_eq_false h)
      · exact absurd hready.1.2.2 h
      · exact h
  | error u =>
      obtain ⟨hnot, bound, must, rows, hheld⟩ := hbody
      refine ⟨hclean hheld, (hstatus hheld).trans ?_⟩
      by_cases hopens : env.findsLib = true ∧ env.opens = true
      · rw [if_pos hopens]
        refine ⟨fun h => .inr (.inr (.inl h)), ?_⟩
        rintro (h | h | h | ⟨h, -⟩)
        · exact absurd hopens.1 (ne_true_of_eq_false h)
        · exact absurd hopens.2 (ne_true_of_eq_false h)
        · exact h
        · exact absurd h hnot
      · rw [if_neg hopens]
        refine iff_of_true (by decide) ?_
        rcases not_and_or.mp hopens with h | h
        · exact .inl (Bool.eq_false_of_not_eq_true h)
        · exact .inr (.inl (Bool.eq_false_of_not_eq_true h))

end UnifiedTrace
