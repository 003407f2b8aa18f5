import UnifiedTrace.CallRun

/-!
# Which Completed Calls Produce an Event

With every probe attached and firing, room in the ring and no more thread identities than
`cuda_calls` has entries, the fate of a completed call is decided by what its thread did
meanwhile: the slot of a thread holds the entry of the innermost open call until a further
traced call is entered, and is empty from the return of that call on. So a call that made
no traced call itself is reported exactly once, and a call that did is not reported.

## Main results

* `InnermostOk.of_run`: the slot of a thread belongs to its innermost open call, or that
  call has made a traced call already and the slot is empty.
* `events_of_completed_call`: one event for a call without inner calls, none for the others.
* `completed_call_without_event`: a run in which a call is lost to the call inside it.
-/

namespace UnifiedTrace

/-- Every probe fires and every reservation succeeds. -/
def CallAct.Undisturbed : CallAct → Prop
  | spawn _ => True
  | exit _ => True
  | enter a => a.fires = true
  | leave a => a.fires = true ∧ a.env.reserve = true

/-- At a place where a list has no repeated keys, filtering by a key leaves that entry. -/
theorem filter_key_eq_singleton {α β : Type*} [DecidableEq β] {f : α → β} {l : List α}
    (h : (l.map f).Nodup) {a : α} (ha : a ∈ l) : l.filter (fun b => f b = f a) = [a] := by
  induction l with
  | nil => exact absurd ha List.not_mem_nil
  | cons b l ih =>
      obtain ⟨hb, hl⟩ := List.nodup_cons.mp (List.map_cons ▸ h)
      rcases List.mem_cons.mp ha with rfl | ha
      · rw [List.filter_cons_of_pos (by simp), List.filter_eq_nil_iff.mpr]
        intro c hc
        rw [decide_eq_true_eq]
        exact fun heq => hb (heq ▸ List.mem_map_of_mem hc)
      · rw [List.filter_cons_of_neg, ih hl ha]
        rw [decide_eq_true_eq]
        exact fun heq => hb (heq ▸ List.mem_map_of_mem ha)

namespace CallWorld

/-- The events submitted for the call with this name. -/
def eventsOf (w : CallWorld) (name : UInt64 × ℕ) : List CudaEvent :=
  (w.returned.filter fun r => r.name = name).filterMap Returned.event

/-- The innermost open call of a traced thread owns the slot until the thread enters a
further call; after that call has returned the slot is empty. -/
structure InnermostOk (cfg : CudaTracerCfg) (K : Finset UInt64) (w : CallWorld) : Prop where
  keys : ∀ k ∈ w.maps.cudaCalls.keys, k ∈ K
  fresh : ∀ k c cs, cfg.Passes k → w.stack k = some (c :: cs) → w.entries k = c.index →
    ∃ info, w.maps.cudaCalls.lookup k = some info ∧ info.opType = c.op.code
  used : ∀ k c cs, cfg.Passes k → w.stack k = some (c :: cs) → w.entries k ≠ c.index →
    w.maps.cudaCalls.lookup k = none
  counted : ∀ r ∈ w.returned, cfg.Passes r.key → (r.event.isSome ↔ r.inner = 0)

variable {cfg : CudaTracerCfg} {K : Finset UInt64} {w w' : CallWorld}

/-- No call is in progress. -/
theorem InnermostOk.init : InnermostOk cfg K init where
  keys := by intro k hk; exact absurd hk (by simp [CallWorld.init, CudaMaps.init])
  fresh := by intro k c cs _ h; exact absurd h (by simp [CallWorld.init])
  used := by intro k c cs _ h; exact absurd h (by simp [CallWorld.init])
  counted := by intro r hr; exact absurd hr (by simp [CallWorld.init])

/-- A thread that starts or ends is outside all calls. -/
theorem InnermostOk.setStack {k : UInt64} {o : Option (List Call)}
    (hw : InnermostOk cfg K w) (ho : ∀ cs, o = some cs → cs = []) :
    InnermostOk cfg K (w.setStack k o) := by
  refine ⟨hw.keys, ?_, ?_, hw.counted⟩
  · intro k' c cs hp hcs hentries
    rcases stack_setStack_eq_some ho hcs with h | h
    · exact absurd h (List.cons_ne_nil _ _)
    · exact hw.fresh k' c cs hp h hentries
  · intro k' c cs hp hcs hentries
    rcases stack_setStack_eq_some ho hcs with h | h
    · exact absurd h (List.cons_ne_nil _ _)
    · exact hw.used k' c cs hp h hentries

/-- While all keys come from a set that fits the map, an entry that fires fills the slot. -/
theorem lookup_fireEntry_of_room {maps : CudaMaps} {a : EnterAct}
    (hkeys : ∀ k ∈ maps.cudaCalls.keys, k ∈ K) (hk : a.env.pidTgid ∈ K)
    (hcard : K.card ≤ cudaCallsMaxEntries) (hf : a.fires = true)
    (hp : cfg.Passes a.env.pidTgid) :
    ∃ info, (fireEntry cfg maps a).1.cudaCalls.lookup a.env.pidTgid = some info ∧
      info.opType = a.op.code := by
  obtain ⟨info, maps', hstored, hmaps, hfire⟩ := fireEntry_of_stores maps hf hp
  refine ⟨info, ?_, hstored.opType⟩
  rw [hfire]
  apply lookup_setCall_of_isSome
  exact BoundedMap.update_isSome_of_subset info (hmaps ▸ hkeys) hk hcard

/-- An entry firing adds at most the key of its thread. -/
theorem keys_fireEntry_subset {maps : CudaMaps} {a : EnterAct} :
    (fireEntry cfg maps a).1.cudaCalls.keys ⊆ a.env.pidTgid :: maps.cudaCalls.keys := by
  by_cases hs : a.fires = true ∧ cfg.Passes a.env.pidTgid
  · obtain ⟨info, maps', -, hmaps, hfire⟩ := fireEntry_of_stores maps hs.1 hs.2
    rw [hfire, ← hmaps]
    exact keys_setCall_subset _ _
  · rw [fireEntry_of_not_stores hs]
    exact List.subset_cons_self _ _

/-- A return firing adds no key. -/
theorem keys_fireReturn_subset {maps : CudaMaps} {a : LeaveAct} :
    (fireReturn maps a).1.cudaCalls.keys ⊆ maps.cudaCalls.keys := by
  rw [fireReturn]
  split
  · exact keys_submitEvent_subset _ _ _
  · exact List.Subset.refl _

/-- The call just entered owns the slot. -/
theorem InnermostOk.entered {a : EnterAct} {cs : List Call} (hw : InnermostOk cfg K w)
    (hcall : a.call = w.entries a.env.pidTgid + 1) (hf : a.fires = true)
    (hk : a.env.pidTgid ∈ K) (hcard : K.card ≤ cudaCallsMaxEntries) :
    InnermostOk cfg K (w.entered cfg a cs) := by
  refine ⟨?_, ?_, ?_, hw.counted⟩
  · intro k hmem
    rcases List.mem_cons.mp (keys_fireEntry_subset hmem) with rfl | hmem
    · exact hk
    · exact hw.keys k hmem
  · intro k c ds hp hds hentries
    by_cases hkey : k = a.env.pidTgid
    · subst hkey
      rw [stack_entered] at hds
      obtain ⟨rfl, rfl⟩ := List.cons.inj (Option.some.inj hds)
      exact lookup_fireEntry_of_room hw.keys hk hcard hf hp
    · rw [stack_entered_ne cs hkey] at hds
      rw [entries_entered_ne cs hkey] at hentries
      rw [CallWorld.entered, lookup_fireEntry_ne hkey]
      exact hw.fresh k c ds hp hds hentries
  · intro k c ds hp hds hentries
    by_cases hkey : k = a.env.pidTgid
    · subst hkey
      rw [stack_entered] at hds
      obtain ⟨rfl, rfl⟩ := List.cons.inj (Option.some.inj hds)
      rw [entries_entered] at hentries
      exact absurd hcall.symm hentries
    · rw [stack_entered_ne cs hkey] at hds
      rw [entries_entered_ne cs hkey] at hentries
      rw [CallWorld.entered, lookup_fireEntry_ne hkey]
      exact hw.used k c ds hp hds hentries

/-- A return reports its call if the slot is still its own, and leaves the enclosing call
with an empty slot. -/
theorem InnermostOk.left {a : LeaveAct} {c : Call} {cs : List Call}
    (hw : InnermostOk cfg K w) (hnames : NamesOk w)
    (hcs : w.stack a.env.pidTgid = some (c :: cs)) (hop : a.op = c.op)
    (hf : a.fires = true) (hr : a.env.reserve = true) :
    InnermostOk cfg K (w.left a c cs) := by
  have hle := hnames.le_entries _ _ hcs c List.mem_cons_self
  have hsorted := List.pairwise_cons.mp (hnames.sorted _ _ hcs)
  refine ⟨fun k hk => hw.keys k (keys_fireReturn_subset hk), ?_, ?_, ?_⟩
  · intro k d ds hp hds hentries
    by_cases hkey : k = a.env.pidTgid
    · subst hkey
      rw [stack_left] at hds
      obtain rfl := Option.some.inj hds
      -- the enclosing call was entered before `c`, so it is not the last one entered
      have hlt := hsorted.1 d List.mem_cons_self
      have heq : w.entries a.env.pidTgid = d.index := hentries
      omega
    · rw [stack_left_ne c cs hkey] at hds
      rw [CallWorld.left, lookup_fireReturn_ne hkey]
      exact hw.fresh k d ds hp hds hentries
  · intro k d ds hp hds hentries
    by_cases hkey : k = a.env.pidTgid
    · subst hkey
      exact lookup_fireReturn hf
    · rw [stack_left_ne c cs hkey] at hds
      rw [CallWorld.left, lookup_fireReturn_ne hkey]
      exact hw.used k d ds hp hds hentries
  · intro r hmem hp
    rcases List.mem_append.mp hmem with hmem | hmem
    · exact hw.counted r hmem hp
    · obtain rfl := List.mem_singleton.mp hmem
      have hinner : w.entries a.env.pidTgid - c.index = 0 ↔
          w.entries a.env.pidTgid = c.index := by omega
      replace hp : cfg.Passes a.env.pidTgid := hp
      refine Iff.trans ?_ hinner.symm
      constructor
      · intro hsome
        obtain ⟨e, he⟩ := Option.isSome_iff_exists.mp hsome
        obtain ⟨-, info, hinfo, -⟩ := fireReturn_eq_some_iff.mp he
        by_contra hne
        rw [hw.used _ c cs hp hcs hne] at hinfo
        exact absurd hinfo (by simp)
      · intro heq
        obtain ⟨info, hinfo, hcode⟩ := hw.fresh _ c cs hp hcs heq
        refine Option.isSome_iff_exists.mpr ⟨eventOf info a.env a.ctx a.op.code, ?_⟩
        exact fireReturn_eq_some_iff.mpr ⟨hf, info, hinfo, hop ▸ hcode, hr, rfl⟩

/-- Every undisturbed action keeps the invariant. -/
theorem InnermostOk.of_step {act : CallAct} (hw : InnermostOk cfg K w) (hnames : NamesOk w)
    (hact : act.Undisturbed) (hk : act.key ∈ K) (hcard : K.card ≤ cudaCallsMaxEntries)
    (h : step cfg w act = some w') : InnermostOk cfg K w' := by
  cases act with
  | spawn k =>
      obtain ⟨-, rfl⟩ := step_spawn_eq_some h
      exact hw.setStack fun cs hcs => (Option.some.inj hcs).symm
  | exit k =>
      obtain rfl := step_exit_eq_some h
      exact hw.setStack fun cs hcs => absurd hcs (by simp)
  | enter a =>
      obtain ⟨cs, -, -, hcall, rfl⟩ := step_enter_eq_some h
      exact hw.entered hcall hact hk hcard
  | leave a =>
      obtain ⟨c, cs, hcs, -, -, hop, rfl⟩ := step_leave_eq_some h
      exact hw.left hnames hcs hop hact.1 hact.2

/-- The invariant holds after every undisturbed run of few enough threads. -/
theorem InnermostOk.of_run {acts : List CallAct} (hact : ∀ act ∈ acts, act.Undisturbed)
    (hk : ∀ act ∈ acts, act.key ∈ K) (hcard : K.card ≤ cudaCallsMaxEntries)
    (h : runs cfg acts = some w) : InnermostOk cfg K w :=
  (ActionRun.run_invariant (I := fun u => NamesOk u ∧ InnermostOk cfg K u)
    ⟨NamesOk.init, InnermostOk.init⟩
    (fun act hmem _ _ hu hstep => ⟨hu.1.of_step hstep,
      hu.2.of_step hu.1 (hact act hmem) (hk act hmem) hcard hstep⟩) h).2

/-- The events of a returned call are those of its one return. -/
theorem NamesOk.eventsOf_name {r : Returned} (hw : NamesOk w) (hr : r ∈ w.returned) :
    w.eventsOf r.name = r.event.toList := by
  rw [eventsOf, filter_key_eq_singleton hw.nodup hr]
  cases h : r.event <;> simp [h]

end CallWorld

/-- **The events of completed calls.** In every undisturbed run of at most `10240` threads,
a completed call of a traced process produced exactly one event if its thread entered no
further traced call before it returned, and none otherwise. -/
theorem events_of_completed_call {cfg : CudaTracerCfg} {acts : List CallAct}
    {w : CallWorld} {K : Finset UInt64} (hact : ∀ act ∈ acts, act.Undisturbed)
    (hk : ∀ act ∈ acts, act.key ∈ K) (hcard : K.card ≤ cudaCallsMaxEntries)
    (hrun : CallWorld.runs cfg acts = some w) :
    ∀ r ∈ w.returned, cfg.Passes r.key →
      (w.eventsOf r.name).length = if r.inner = 0 then 1 else 0 := by
  intro r hr hp
  have hiff := (CallWorld.InnermostOk.of_run hact hk hcard hrun).counted r hr hp
  rw [(CallWorld.NamesOk.of_run hrun).eventsOf_name hr]
  cases hev : r.event with
  | none =>
      have hne : r.inner ≠ 0 := fun h0 => by simpa [hev] using hiff.mpr h0
      rw [if_neg hne]
      rfl
  | some e =>
      have h0 : r.inner = 0 := hiff.mp (by simp [hev])
      rw [if_pos h0]
      rfl

/-- Thread `1` calls `cudaMalloc`, which calls `cudaMemcpy` before it returns; thread `2`
synchronises meanwhile. -/
def nestedRun : List CallAct :=
  [.spawn 1, .spawn 2, .enterAt 1 10 1 .malloc true, .enterAt 2 11 1 .sync true,
    .enterAt 1 12 2 .memcpy true, .leaveAt 1 13 2 .memcpy true,
    .leaveAt 2 14 1 .sync true, .leaveAt 1 15 1 .malloc true]

/-- In `nestedRun` every probe fires, and two threads take part. -/
theorem nestedRun_undisturbed :
    (∀ act ∈ nestedRun, act.Undisturbed) ∧
      ∀ act ∈ nestedRun, act.key ∈ ({1, 2} : Finset UInt64) := by
  constructor <;>
    simp [nestedRun, CallAct.Undisturbed, CallAct.enterAt, CallAct.leaveAt, CallAct.key]

/-- The call with a call inside it has no event. -/
theorem events_of_completed_call_nested :
    ∃ w, CallWorld.runs CudaTracerCfg.default nestedRun = some w ∧
      w.returned.map Returned.name = [(1, 2), (2, 1), (1, 1)] ∧
      ∀ r ∈ w.returned, CudaTracerCfg.default.Passes r.key →
        (w.eventsOf r.name).length = if r.inner = 0 then 1 else 0 := by
  have hmap : (CallWorld.runs CudaTracerCfg.default nestedRun).map
      (fun w => w.returned.map Returned.name) = some [(1, 2), (2, 1), (1, 1)] := by
    decide +kernel
  obtain ⟨w, hrun, hnames⟩ := Option.map_eq_some_iff.mp hmap
  exact ⟨w, hrun, hnames, events_of_completed_call nestedRun_undisturbed.1
    nestedRun_undisturbed.2 (by decide) hrun⟩

/-- The enclosing `cudaMalloc` of `nestedRun` returns without an event. -/
theorem completed_call_without_event :
    ¬ ∀ (cfg : CudaTracerCfg) (acts : List CallAct) (w : CallWorld) (K : Finset UInt64),
      (∀ act ∈ acts, act.Undisturbed) → (∀ act ∈ acts, act.key ∈ K) →
      K.card ≤ cudaCallsMaxEntries → CallWorld.runs cfg acts = some w →
      ∀ r ∈ w.returned, cfg.Passes r.key → (w.eventsOf r.name).length = 1 := by
  intro hall
  have hmap : (CallWorld.runs CudaTracerCfg.default nestedRun).map
      (fun w => w.returned.map fun r => (w.eventsOf r.name).length) = some [1, 1, 0] := by
    decide +kernel
  obtain ⟨w, hrun, hlens⟩ := Option.map_eq_some_iff.mp hmap
  have hone := hall _ _ w {1, 2} nestedRun_undisturbed.1 nestedRun_undisturbed.2
    (by decide) hrun
  obtain ⟨r, hr, hlen⟩ := List.mem_map.mp (hlens ▸ (by decide : 0 ∈ [1, 1, 0]))
  exact absurd ((hone r hr (Or.inl rfl)).symm.trans hlen) (by decide)

end UnifiedTrace
