import Mathlib.Data.Set.Card
import UnifiedTrace.Attribution
import UnifiedTrace.NestedCalls

/-!
# Entries Left Behind

`cuda_calls` is meant to hold the calls in flight. An entry is removed only by a return probe
that fires on the same thread, so it outlives its call in two ways: the thread is killed
inside the call, or the call returns and its return probe is not attached. This module shows
that these are the only two, and that they cost a slot each time.

## Main results

* `inCall_of_step_iff`: an action keeps the keys to threads inside calls exactly when it does
  not end a thread, or its outermost call, with the slot of the thread filled.
* `onlyInFlight_iff_cleansUp`: the map holds calls in progress only, in every state of a run,
  exactly when every action of the run is of that kind.
* `finished_calls_stay_in_map`: a killed thread and an unprobed return leave their entries.
-/

namespace UnifiedTrace

namespace CallWorld

/-- The thread lives and is inside a traced call. -/
def InCall (w : CallWorld) (k : UInt64) : Prop := ∃ c cs, w.stack k = some (c :: cs)

/-- The in-flight map holds only calls in progress: a key is present only if its thread is
inside a traced call, so there are no more entries than such threads, and a call is refused
only when that many threads are inside calls as the map has room for. -/
structure OnlyInFlight (w : CallWorld) : Prop where
  inCall : ∀ k ∈ w.maps.cudaCalls.keys, w.InCall k
  size_le : (w.maps.cudaCalls.size : ℕ∞) ≤ {k | w.InCall k}.encard
  refused : ∀ k info, w.maps.cudaCalls.update k info = none →
    (cudaCallsMaxEntries : ℕ∞) ≤ {k' | w.InCall k'}.encard

/-- The action leaves no entry behind: no thread is killed while its slot is filled, and the
outermost call of a thread does not return with the slot filled and its return probe silent. -/
def CleansUp (w : CallWorld) : CallAct → Prop
  | .spawn _ => True
  | .exit k => w.maps.cudaCalls.lookup k = none
  | .enter _ => True
  | .leave a => a.fires = true ∨ w.maps.cudaCalls.lookup a.env.pidTgid = none ∨
      ∃ c d cs, w.stack a.env.pidTgid = some (c :: d :: cs)

variable {cfg : CudaTracerCfg} {w w' : CallWorld}

/-- The counts follow from the keys. -/
theorem OnlyInFlight.of_inCall (h : ∀ k ∈ w.maps.cudaCalls.keys, w.InCall k) :
    OnlyInFlight w := by
  have hsize : (w.maps.cudaCalls.size : ℕ∞) ≤ {k | w.InCall k}.encard := by
    have hnodup : w.maps.cudaCalls.keys.Nodup := w.maps.cudaCalls.toAList.keys_nodup
    have hsub : (w.maps.cudaCalls.keys.toFinset : Set UInt64) ⊆ {k | w.InCall k} :=
      fun k hk => h k (List.mem_toFinset.mp hk)
    have hle := Set.encard_le_encard hsub
    rw [Set.encard_coe_eq_coe_finsetCard, List.toFinset_card_of_nodup hnodup] at hle
    exact hle
  refine ⟨h, hsize, ?_⟩
  intro k info hnone
  have hfull := (BoundedMap.update_eq_none_iff.mp hnone).2
  exact (Nat.cast_le.mpr hfull).trans hsize

/-- What is not found has no key. -/
theorem not_mem_keys_of_lookup {k : UInt64} (h : w.maps.cudaCalls.lookup k = none) :
    k ∉ w.maps.cudaCalls.keys :=
  BoundedMap.lookup_eq_none.mp h

/-- The entry of a thread that is not concerned by a stack update stays in flight. -/
theorem inCall_setStack_ne {k k' : UInt64} (o : Option (List Call)) (hne : k' ≠ k)
    (h : w.InCall k') : (w.setStack k o).InCall k' := by
  obtain ⟨c, cs, hcs⟩ := h
  exact ⟨c, cs, (stack_setStack_ne o hne).trans hcs⟩

/-- A thread that starts or ends is inside no call. -/
theorem not_inCall_setStack {k : UInt64} {o : Option (List Call)}
    (ho : ∀ cs, o = some cs → cs = []) : ¬ (w.setStack k o).InCall k := by
  rintro ⟨c, cs, hcs⟩
  rw [stack_setStack] at hcs
  exact absurd (ho _ hcs) (List.cons_ne_nil c cs)

/-- A thread that appears was not inside a call, so it has no entry. -/
theorem inCall_spawn {k : UInt64} (hw : ∀ k ∈ w.maps.cudaCalls.keys, w.InCall k)
    (hk : w.stack k = none) :
    ∀ k' ∈ (w.setStack k (some [])).maps.cudaCalls.keys,
      (w.setStack k (some [])).InCall k' := by
  intro k' hk'
  have hin := hw k' hk'
  refine inCall_setStack_ne _ ?_ hin
  rintro rfl
  obtain ⟨c, cs, hcs⟩ := hin
  exact absurd (hk.symm.trans hcs) (by simp)

/-- A thread that disappears leaves its entry, if it has one. -/
theorem inCall_exit_iff {k : UInt64} (hw : ∀ k ∈ w.maps.cudaCalls.keys, w.InCall k) :
    (∀ k' ∈ (w.setStack k none).maps.cudaCalls.keys, (w.setStack k none).InCall k') ↔
      w.maps.cudaCalls.lookup k = none := by
  constructor
  · intro h
    refine BoundedMap.lookup_eq_none.mpr fun hk => ?_
    exact not_inCall_setStack (fun cs hcs => absurd hcs (by simp)) (h k hk)
  · intro h k' hk'
    refine inCall_setStack_ne _ ?_ (hw k' hk')
    rintro rfl
    exact not_mem_keys_of_lookup h hk'

/-- A thread that enters a call is inside one. -/
theorem inCall_entered {a : EnterAct} {cs : List Call}
    (hw : ∀ k ∈ w.maps.cudaCalls.keys, w.InCall k) :
    ∀ k ∈ (w.entered cfg a cs).maps.cudaCalls.keys, (w.entered cfg a cs).InCall k := by
  intro k hk
  rcases eq_or_ne k a.env.pidTgid with rfl | hne
  · exact ⟨_, cs, stack_entered a cs⟩
  · have hmem := (List.mem_cons.mp (keys_fireEntry_subset hk)).resolve_left hne
    obtain ⟨c, ds, hds⟩ := hw k hmem
    exact ⟨c, ds, (stack_entered_ne cs hne).trans hds⟩

/-- A return leaves an entry behind exactly when it is not probed, the slot is filled and no
call of the thread stays open. -/
theorem inCall_left_iff {a : LeaveAct} {c : Call} {cs : List Call}
    (hw : ∀ k ∈ w.maps.cudaCalls.keys, w.InCall k)
    (hcs : w.stack a.env.pidTgid = some (c :: cs)) :
    (∀ k ∈ (w.left a c cs).maps.cudaCalls.keys, (w.left a c cs).InCall k) ↔
      w.CleansUp (.leave a) := by
  have hothers : ∀ k ∈ (w.left a c cs).maps.cudaCalls.keys, k ≠ a.env.pidTgid →
      (w.left a c cs).InCall k := by
    intro k hk hne
    obtain ⟨d, ds, hds⟩ := hw k (keys_fireReturn_subset hk)
    exact ⟨d, ds, (stack_left_ne c cs hne).trans hds⟩
  constructor
  · intro h
    rw [CleansUp]
    rcases em (a.fires = true) with hf | hf
    · exact .inl hf
    · cases hl : w.maps.cudaCalls.lookup a.env.pidTgid with
      | none => exact .inr (.inl rfl)
      | some info =>
          have hmaps : (w.left a c cs).maps = w.maps := by
            rw [CallWorld.left, fireReturn, if_neg hf]
          have hmem : a.env.pidTgid ∈ (w.left a c cs).maps.cudaCalls.keys := by
            rw [hmaps, ← BoundedMap.lookup_isSome, hl]
            rfl
          obtain ⟨d, ds, hds⟩ := h _ hmem
          rw [stack_left] at hds
          obtain rfl := Option.some.inj hds
          exact .inr (.inr ⟨c, d, ds, hcs⟩)
  · intro h k hk
    rcases eq_or_ne k a.env.pidTgid with rfl | hne
    · rcases h with hf | hnone | ⟨c', d, ds, hds⟩
      · have hempty : (w.left a c cs).maps.cudaCalls.lookup a.env.pidTgid = none :=
          lookup_fireReturn hf
        exact absurd hk (not_mem_keys_of_lookup hempty)
      · exact absurd (keys_fireReturn_subset hk) (not_mem_keys_of_lookup hnone)
      · obtain ⟨rfl, rfl⟩ := List.cons.inj (Option.some.inj (hcs.symm.trans hds))
        exact ⟨d, ds, stack_left a c (d :: ds)⟩
    · exact hothers k hk hne

/-- **What an action does to the in-flight map.** -/
theorem inCall_of_step_iff {act : CallAct} (hw : ∀ k ∈ w.maps.cudaCalls.keys, w.InCall k)
    (h : step cfg w act = some w') :
    (∀ k ∈ w'.maps.cudaCalls.keys, w'.InCall k) ↔ w.CleansUp act := by
  cases act with
  | spawn k =>
      obtain ⟨hk, rfl⟩ := step_spawn_eq_some h
      exact iff_of_true (inCall_spawn hw hk) trivial
  | exit k =>
      obtain rfl := step_exit_eq_some h
      exact inCall_exit_iff hw
  | enter a =>
      obtain ⟨cs, -, -, -, rfl⟩ := step_enter_eq_some h
      exact iff_of_true (inCall_entered hw) trivial
  | leave a =>
      obtain ⟨c, cs, hcs, -, -, -, rfl⟩ := step_leave_eq_some h
      exact inCall_left_iff hw hcs

end CallWorld

/-- **When the in-flight map holds only calls in progress**: throughout a run, exactly when
every action of the run cleans up. -/
theorem onlyInFlight_iff_cleansUp {cfg : CudaTracerCfg} {acts : List CallAct}
    {w : CallWorld} (hrun : CallWorld.runs cfg acts = some w) :
    (∀ pre u, pre <+: acts → CallWorld.runs cfg pre = some u → u.OnlyInFlight) ↔
      ∀ pre act u, pre ++ [act] <+: acts → CallWorld.runs cfg pre = some u →
        u.CleansUp act := by
  constructor
  · intro h pre act u hpre hu
    obtain ⟨post, rfl⟩ := hpre
    obtain ⟨v, hv, -⟩ := ActionRun.run_append_eq_some.mp hrun
    obtain ⟨u', hu', hstep⟩ := ActionRun.run_snoc_eq_some.mp hv
    obtain rfl := Option.some.inj (hu.symm.trans hu')
    have hbefore := (h pre u ⟨[act] ++ post, by simp⟩ hu).inCall
    have hafter := (h (pre ++ [act]) v (List.prefix_append _ _) hv).inCall
    exact (CallWorld.inCall_of_step_iff hbefore hstep).mp hafter
  · intro h pre u hpre hu
    refine .of_inCall (ActionRun.run_history
      (I := fun p v => CallWorld.runs cfg p = some v ∧
        ∀ k ∈ v.maps.cudaCalls.keys, v.InCall k) ⟨rfl, ?_⟩ ?_ hu).2
    · intro k hk
      exact absurd hk (by simp [CallWorld.init, CudaMaps.init])
    · rintro p act v v' hp ⟨hv, hin⟩ hstep
      refine ⟨ActionRun.run_snoc_eq_some.mpr ⟨v, hv, hstep⟩, ?_⟩
      exact (CallWorld.inCall_of_step_iff hin hstep).mpr (h p act v (hp.trans hpre) hv)

/-- A thread makes a copy inside an allocation and is done. -/
def cleanRun : List CallAct :=
  [.spawn 1, .enterAt 1 10 1 .malloc true, .enterAt 1 12 2 .memcpy true,
    .leaveAt 1 15 2 .memcpy true, .leaveAt 1 16 1 .malloc true, .exit 1]

/-- Every return probe fires and the thread exits outside its calls. -/
theorem onlyInFlight_iff_cleansUp_clean_run :
    (CallWorld.runs CudaTracerCfg.default cleanRun).isSome ∧
      ∀ pre u, pre <+: cleanRun → CallWorld.runs CudaTracerCfg.default pre = some u →
        u.OnlyInFlight := by
  have hsome : (CallWorld.runs CudaTracerCfg.default cleanRun).isSome := by decide +kernel
  refine ⟨hsome, ?_⟩
  obtain ⟨w, hrun⟩ := Option.isSome_iff_exists.mp hsome
  refine (onlyInFlight_iff_cleansUp hrun).mpr ?_
  rintro pre act u ⟨post, hpost⟩ hu
  have hsplit : cleanRun = pre ++ act :: post := hpost.symm.trans (List.append_assoc ..)
  obtain ⟨hlt, hact, hpre⟩ := ActionRun.take_length_of_split hsplit
  generalize pre.length = n at hlt hact hpre
  subst hpre
  match n, hlt with
  | 0, _ | 1, _ | 2, _ =>
      obtain rfl := Option.some.inj hact
      trivial
  | 3, _ | 4, _ =>
      obtain rfl := Option.some.inj hact
      exact .inl rfl
  | 5, _ =>
      obtain rfl := Option.some.inj hact
      have hempty : (CallWorld.runs CudaTracerCfg.default (cleanRun.take 5)).map
          (fun v => v.maps.cudaCalls.lookup 1) = some none := by decide +kernel
      rw [hu] at hempty
      exact Option.some.inj hempty

/-- A thread is killed inside an allocation. -/
def killedRun : List CallAct := [.spawn 1, .enterAt 1 10 1 .malloc true, .exit 1]

/-- An allocation of a thread returns, but its return probe is not attached. -/
def unprobedReturnRun : List CallAct :=
  [.spawn 1, .enterAt 1 10 1 .malloc true, .leaveAt 1 12 1 .malloc false]

/-- An entry of a thread that is not inside a call shows that the map holds more than the
calls in progress. -/
theorem CallWorld.not_onlyInFlight {w : CallWorld} {k : UInt64}
    (hk : k ∈ w.maps.cudaCalls.keys) (hstack : ∀ c cs, w.stack k ≠ some (c :: cs)) :
    ¬ w.OnlyInFlight := by
  intro h
  obtain ⟨c, cs, hcs⟩ := h.inCall k hk
  exact hstack c cs hcs

/-- A killed thread and an unprobed return leave their entries in the map. -/
theorem finished_calls_stay_in_map :
    (∃ w, CallWorld.runs CudaTracerCfg.default killedRun = some w ∧
      (∀ act ∈ killedRun, act.FiresAs fun _ => true) ∧
      w.stack 1 = none ∧ w.maps.cudaCalls.keys = [1] ∧ ¬ w.OnlyInFlight) ∧
    ∃ w, CallWorld.runs CudaTracerCfg.default unprobedReturnRun = some w ∧
      (∀ act ∈ unprobedReturnRun, act.FiresAs fun p => p ≠ .ret .malloc) ∧
      w.stack 1 = some [] ∧ w.maps.cudaCalls.keys = [1] ∧ ¬ w.OnlyInFlight := by
  have hkilled : (CallWorld.runs CudaTracerCfg.default killedRun).map
      (fun w => (w.stack 1, w.maps.cudaCalls.keys)) = some (none, [1]) := by decide +kernel
  have hunprobed : (CallWorld.runs CudaTracerCfg.default unprobedReturnRun).map
      (fun w => (w.stack 1, w.maps.cudaCalls.keys)) = some (some [], [1]) := by
    decide +kernel
  obtain ⟨w, hrun, hw⟩ := Option.map_eq_some_iff.mp hkilled
  obtain ⟨v, hrun', hv⟩ := Option.map_eq_some_iff.mp hunprobed
  obtain ⟨hws, hwk⟩ := Prod.mk.inj hw
  obtain ⟨hvs, hvk⟩ := Prod.mk.inj hv
  refine ⟨⟨w, hrun, ?_, hws, hwk, ?_⟩, v, hrun', ?_, hvs, hvk, ?_⟩
  · simp [killedRun, CallAct.FiresAs, CallAct.enterAt]
  · refine CallWorld.not_onlyInFlight (hwk ▸ List.mem_singleton_self 1) ?_
    simp [hws]
  · simp [unprobedReturnRun, CallAct.FiresAs, CallAct.enterAt, CallAct.leaveAt]
  · refine CallWorld.not_onlyInFlight (hvk ▸ List.mem_singleton_self 1) ?_
    simp [hvs]

end UnifiedTrace
