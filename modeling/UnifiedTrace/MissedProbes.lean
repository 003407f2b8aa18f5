import UnifiedTrace.Attribution
import UnifiedTrace.NestedCalls

/-!
# Missed Probe Firings

`submit_event` guards against missed firings by comparing operations: an entry of another
operation is dropped. This module settles what that guard achieves when any firings may be
missed. Only the firings of the thread itself matter. The slot read by a return holds the
entry that fired last on the thread, provided no return fired since; so an event mixes two
calls exactly when a return that fires directly follows, among the firings of its thread,
the entry of another call of the same operation.

## Main results

* `FilledByLast.of_run`: a filled slot holds the entry of the thread's last firing.
* `unmixed_iff_returns_follow_own_entry`: no event mixes two calls if every return that
  directly follows an entry of its own operation follows its own entry; and only then, as
  long as no entry is refused by a full map.
* `missed_firings_mix_calls`: a missed return and a missed entry of one function make an
  event that begins in one call and ends in the next.
-/

namespace UnifiedTrace

/-- The last probe that fired on a thread, if it was an entry: its call and operation. -/
def lastFired (k : UInt64) (acts : List CallAct) : Option (ℕ × CudaOp) :=
  acts.foldl
    (fun last act =>
      match act with
      | .enter a => if a.env.pidTgid = k ∧ a.fires = true then some (a.call, a.op) else last
      | .leave a => if a.env.pidTgid = k ∧ a.fires = true then none else last
      | _ => last)
    none

namespace CallWorld

variable {cfg : CudaTracerCfg} {w w' : CallWorld}

/-! ### The last firing of a thread -/

section LastFired

variable {k : UInt64} {pre : List CallAct}

/-- An entry probe that fires is the last on its thread. -/
theorem lastFired_enter {a : EnterAct} (hf : a.fires = true) :
    lastFired a.env.pidTgid (pre ++ [.enter a]) = some (a.call, a.op) := by
  simp [lastFired, List.foldl_append, hf]

/-- After a return probe that fires, no entry is waiting. -/
theorem lastFired_leave {a : LeaveAct} (hf : a.fires = true) :
    lastFired a.env.pidTgid (pre ++ [.leave a]) = none := by
  simp [lastFired, List.foldl_append, hf]

/-- An action of another thread is no firing of this one. -/
theorem lastFired_of_key_ne {act : CallAct} (h : k ≠ act.key) :
    lastFired k (pre ++ [act]) = lastFired k pre := by
  cases act with
  | spawn k' => simp [lastFired, List.foldl_append]
  | exit k' => simp [lastFired, List.foldl_append]
  | enter a =>
      have hne : ¬ (a.env.pidTgid = k ∧ a.fires = true) := fun hf => h hf.1.symm
      simp [lastFired, List.foldl_append, hne]
  | leave a =>
      have hne : ¬ (a.env.pidTgid = k ∧ a.fires = true) := fun hf => h hf.1.symm
      simp [lastFired, List.foldl_append, hne]

/-- An entry probe that does not fire changes nothing. -/
theorem lastFired_enter_missed {a : EnterAct} (hf : ¬ a.fires = true) :
    lastFired k (pre ++ [.enter a]) = lastFired k pre := by
  simp [lastFired, List.foldl_append, hf]

/-- A return probe that does not fire changes nothing. -/
theorem lastFired_leave_missed {a : LeaveAct} (hf : ¬ a.fires = true) :
    lastFired k (pre ++ [.leave a]) = lastFired k pre := by
  simp [lastFired, List.foldl_append, hf]

/-- A new thread has no probes yet. -/
theorem lastFired_spawn {k' : UInt64} :
    lastFired k (pre ++ [.spawn k']) = lastFired k pre := by
  simp [lastFired, List.foldl_append]

/-- The end of a thread is not seen by the probes. -/
theorem lastFired_exit {k' : UInt64} :
    lastFired k (pre ++ [.exit k']) = lastFired k pre := by
  simp [lastFired, List.foldl_append]

end LastFired

/-! ### A filled slot holds the entry of the last firing -/

/-- A filled slot belongs to a traced thread whose last firing was an entry; it holds that
entry, and the call of that entry, if still open, is the one that stored it. -/
structure FilledByLast (cfg : CudaTracerCfg) (pre : List CallAct) (w : CallWorld) :
    Prop where
  slot : ∀ k info, w.maps.cudaCalls.lookup k = some info →
    cfg.Passes k ∧ ∃ c op, lastFired k pre = some (c, op) ∧ info.opType = op.code ∧
      w.filledBy k = some c ∧
      ∀ cs, w.stack k = some cs → ∀ d ∈ cs, d.index = c → d.saved = some info

variable {pre : List CallAct}

/-- The map starts empty. -/
theorem FilledByLast.init : FilledByLast cfg [] init where
  slot := by intro k info h; exact absurd h (by simp [CallWorld.init, CudaMaps.init])

/-- A thread that starts or ends leaves its slot alone. -/
theorem FilledByLast.setStack {k : UInt64} {o : Option (List Call)} {act : CallAct}
    (hw : FilledByLast cfg pre w) (ho : ∀ cs, o = some cs → cs = [])
    (hlast : ∀ k', lastFired k' (pre ++ [act]) = lastFired k' pre) :
    FilledByLast cfg (pre ++ [act]) (w.setStack k o) := by
  refine ⟨?_⟩
  intro k' info hinfo
  obtain ⟨hp, c, op, hl, hcode, hfilled, hsaved⟩ := hw.slot k' info hinfo
  refine ⟨hp, c, op, (hlast k').trans hl, hcode, hfilled, ?_⟩
  intro cs hcs d hd
  rcases stack_setStack_eq_some ho hcs with rfl | hcs
  · exact absurd hd List.not_mem_nil
  · exact hsaved cs hcs d hd

/-- An entry that fires fills the slot of its thread and is the last to have fired. -/
theorem FilledByLast.entered {a : EnterAct} {cs : List Call} (hw : FilledByLast cfg pre w)
    (hnames : NamesOk w) (hcs : w.stack a.env.pidTgid = some cs)
    (hcall : a.call = w.entries a.env.pidTgid + 1)
    (hfilled : ∀ c, w.filledBy a.env.pidTgid = some c → c ≤ w.entries a.env.pidTgid) :
    FilledByLast cfg (pre ++ [.enter a]) (w.entered cfg a cs) := by
  refine ⟨?_⟩
  intro k info hinfo
  rcases lookup_entered_cases hinfo with ⟨rfl, hsaved⟩ | ⟨hold, hmissed⟩
  · obtain ⟨hs, hstored⟩ := of_savedBy_eq_some hsaved
    refine ⟨hs.2, a.call, a.op, lastFired_enter hs.1, hstored.opType,
      filledBy_entered cs (fireEntry_snd_eq_zero_iff.mpr hs), ?_⟩
    intro ds hds d hd hindex
    rw [stack_entered] at hds
    obtain rfl := Option.some.inj hds
    rcases List.mem_cons.mp hd with rfl | hd
    · exact hsaved
    · -- the calls that were open already have smaller indices
      have hle := hnames.le_entries _ cs hcs d hd
      omega
  · obtain ⟨hp, c, op, hl, hcode, hfc, hsaved⟩ := hw.slot k info hold
    rcases eq_or_ne k a.env.pidTgid with rfl | hk
    · have hs := hmissed rfl
      refine ⟨hp, c, op, (lastFired_enter_missed fun hf => hs ⟨hf, hp⟩).trans hl, hcode, ?_, ?_⟩
      · rw [filledBy_entered_of_ne cs (mt fireEntry_snd_eq_zero_iff.mp hs), hfc]
      · intro ds hds d hd hindex
        rw [stack_entered] at hds
        obtain rfl := Option.some.inj hds
        rcases List.mem_cons.mp hd with rfl | hd
        · have hle := hfilled c hfc
          have heq : a.call = c := hindex
          omega
        · exact hsaved cs hcs d hd hindex
    · refine ⟨hp, c, op, (lastFired_of_key_ne hk).trans hl, hcode, ?_, ?_⟩
      · rw [filledBy_entered_ne cs hk, hfc]
      · intro ds hds d hd hindex
        rw [stack_entered_ne cs hk] at hds
        exact hsaved ds hds d hd hindex

/-- A return that fires empties the slot it read. -/
theorem FilledByLast.left {a : LeaveAct} {c : Call} {cs : List Call}
    (hw : FilledByLast cfg pre w) (hcs : w.stack a.env.pidTgid = some (c :: cs)) :
    FilledByLast cfg (pre ++ [.leave a]) (w.left a c cs) := by
  refine ⟨?_⟩
  intro k info hinfo
  obtain ⟨hold, hmissed⟩ := lookup_left_cases hinfo
  obtain ⟨hp, d, op, hl, hcode, hfc, hsaved⟩ := hw.slot k info hold
  rcases eq_or_ne k a.env.pidTgid with rfl | hk
  · refine ⟨hp, d, op, (lastFired_leave_missed (hmissed rfl)).trans hl, hcode, hfc, ?_⟩
    intro ds hds d' hd'
    rw [stack_left] at hds
    obtain rfl := Option.some.inj hds
    exact hsaved _ hcs d' (List.mem_cons_of_mem c hd')
  · refine ⟨hp, d, op, (lastFired_of_key_ne hk).trans hl, hcode, hfc, ?_⟩
    intro ds hds d' hd'
    rw [stack_left_ne c cs hk] at hds
    exact hsaved ds hds d' hd'

/-- Slots are only ever filled by calls that were entered. -/
def FilledByEntered (w : CallWorld) : Prop :=
  ∀ k c, w.filledBy k = some c → c ≤ w.entries k

/-- Every action keeps the slots filled by calls that were entered. -/
theorem FilledByEntered.of_step {act : CallAct} (hw : FilledByEntered w)
    (h : step cfg w act = some w') : FilledByEntered w' := by
  cases act with
  | spawn k =>
      obtain ⟨-, rfl⟩ := step_spawn_eq_some h
      exact hw
  | exit k =>
      obtain rfl := step_exit_eq_some h
      exact hw
  | enter a =>
      obtain ⟨cs, -, -, hcall, rfl⟩ := step_enter_eq_some h
      intro k c hc
      by_cases hk : k = a.env.pidTgid
      · subst hk
        rw [entries_entered]
        by_cases hz : (fireEntry cfg w.maps a).2 = 0
        · rw [filledBy_entered cs hz] at hc
          obtain rfl := Option.some.inj hc
          exact hcall.le
        · rw [filledBy_entered_of_ne cs hz] at hc
          exact (hw _ c hc).trans (Nat.le_succ _)
      · rw [filledBy_entered_ne cs hk] at hc
        rw [entries_entered_ne cs hk]
        exact hw k c hc
  | leave a =>
      obtain ⟨c, cs, -, -, -, -, rfl⟩ := step_leave_eq_some h
      exact hw

/-- What the history of a run says about its slots, its names and its open calls. -/
structure HistoryOk (cfg : CudaTracerCfg) (pre : List CallAct) (w : CallWorld) : Prop where
  names : NamesOk w
  calls : CallsOk w
  filled : FilledByEntered w
  last : FilledByLast cfg pre w

/-- Nothing has happened in the empty world. -/
theorem HistoryOk.init : HistoryOk cfg [] init where
  names := NamesOk.init
  calls := CallsOk.init
  filled := by intro k c h; exact absurd h (by simp [CallWorld.init])
  last := FilledByLast.init

/-- Every action keeps what the history says. -/
theorem HistoryOk.of_step {act : CallAct} (hw : HistoryOk cfg pre w)
    (h : step cfg w act = some w') : HistoryOk cfg (pre ++ [act]) w' := by
  refine ⟨hw.names.of_step h, hw.calls.of_step h, hw.filled.of_step h, ?_⟩
  cases act with
  | spawn k =>
      obtain ⟨-, rfl⟩ := step_spawn_eq_some h
      exact hw.last.setStack (fun cs hcs => (Option.some.inj hcs).symm)
        fun _ => lastFired_spawn
  | exit k =>
      obtain rfl := step_exit_eq_some h
      exact hw.last.setStack (fun cs hcs => absurd hcs (by simp)) fun _ => lastFired_exit
  | enter a =>
      obtain ⟨cs, hcs, -, hcall, rfl⟩ := step_enter_eq_some h
      exact hw.last.entered hw.names hcs hcall (hw.filled _)
  | leave a =>
      obtain ⟨c, cs, hcs, -, -, -, rfl⟩ := step_leave_eq_some h
      exact hw.last.left hcs

/-- In every run, with any firings missed, a filled slot holds the entry of the last firing
of its thread. -/
theorem HistoryOk.of_run {acts : List CallAct} (h : runs cfg acts = some w) :
    HistoryOk cfg acts w :=
  ActionRun.run_history HistoryOk.init (fun _ _ _ _ _ hu hstep => hu.of_step hstep) h

/-! ### The record of returns only grows -/

/-- While no entry is refused, the entry of the last firing is in the slot. -/
structure LastFills (cfg : CudaTracerCfg) (K : Finset UInt64) (pre : List CallAct)
    (w : CallWorld) : Prop where
  keys : ∀ k ∈ w.maps.cudaCalls.keys, k ∈ K
  slot : ∀ k c op, cfg.Passes k → lastFired k pre = some (c, op) →
    ∃ info, w.maps.cudaCalls.lookup k = some info ∧ info.opType = op.code

/-- Every action keeps that, as long as the identities fit the map. -/
theorem LastFills.of_step {K : Finset UInt64} {act : CallAct}
    (hw : LastFills cfg K pre w) (hk : act.key ∈ K) (hcard : K.card ≤ cudaCallsMaxEntries)
    (h : step cfg w act = some w') : LastFills cfg K (pre ++ [act]) w' := by
  cases act with
  | spawn k =>
      obtain ⟨-, rfl⟩ := step_spawn_eq_some h
      exact ⟨hw.keys, fun k' c op hp hl => hw.slot k' c op hp (lastFired_spawn.symm.trans hl)⟩
  | exit k =>
      obtain rfl := step_exit_eq_some h
      exact ⟨hw.keys, fun k' c op hp hl => hw.slot k' c op hp (lastFired_exit.symm.trans hl)⟩
  | enter a =>
      obtain ⟨cs, -, -, -, rfl⟩ := step_enter_eq_some h
      refine ⟨?_, ?_⟩
      · intro k hmem
        rcases List.mem_cons.mp (keys_fireEntry_subset hmem) with rfl | hmem
        · exact hk
        · exact hw.keys k hmem
      · intro k c op hp hl
        by_cases hkey : k = a.env.pidTgid
        · subst hkey
          by_cases hf : a.fires = true
          · rw [lastFired_enter hf] at hl
            obtain ⟨rfl, rfl⟩ := Prod.mk.inj (Option.some.inj hl)
            exact lookup_fireEntry_of_room hw.keys hk hcard hf hp
          · rw [lastFired_enter_missed hf] at hl
            rw [CallWorld.entered, fireEntry, if_neg hf]
            exact hw.slot _ c op hp hl
        · rw [lastFired_of_key_ne hkey] at hl
          rw [CallWorld.entered, lookup_fireEntry_ne hkey]
          exact hw.slot k c op hp hl
  | leave a =>
      obtain ⟨c, cs, -, -, -, -, rfl⟩ := step_leave_eq_some h
      refine ⟨fun k hmem => hw.keys k (keys_fireReturn_subset hmem), ?_⟩
      intro k d op hp hl
      by_cases hkey : k = a.env.pidTgid
      · subst hkey
        by_cases hf : a.fires = true
        · rw [lastFired_leave hf] at hl
          exact absurd hl (by simp)
        · rw [lastFired_leave_missed hf] at hl
          rw [CallWorld.left, fireReturn, if_neg hf]
          exact hw.slot _ d op hp hl
      · rw [lastFired_of_key_ne hkey] at hl
        rw [CallWorld.left, lookup_fireReturn_ne hkey]
        exact hw.slot k d op hp hl

/-- In a run whose identities fit the map, no entry that fired was refused. -/
theorem LastFills.of_run {K : Finset UInt64} {acts : List CallAct}
    (hk : ∀ act ∈ acts, act.key ∈ K) (hcard : K.card ≤ cudaCallsMaxEntries)
    (h : runs cfg acts = some w) : LastFills cfg K acts w := by
  refine ActionRun.run_history (I := LastFills cfg K) ⟨?_, ?_⟩ ?_ h
  · intro k hmem
    exact absurd hmem (by simp [CallWorld.init, CudaMaps.init])
  · intro k c op _ hl
    exact absurd hl (by simp [lastFired])
  · intro pre act u v hpre hu hstep
    exact hu.of_step (hk act (hpre.subset (by simp))) hcard hstep

end CallWorld

end UnifiedTrace
