import Mathlib.Data.List.Perm.Subperm
import UnifiedTrace.ActionRun
import UnifiedTrace.Collect

/-!
# The Collection Loop and Its End

The loop of `main` that polls the two ring buffers in turn, with the tracers submitting at
any time and the stop signal arriving at any point. The handler sets `exiting`, which the
loop reads before the first poll only; a signal during a poll makes it return `-EINTR`, and
the loop is left at once. After the loop nothing is polled again.

A poll that is not interrupted hands everything pending in its ring to the callback, an
interrupted one nothing.

## Main results

* `FifoWhileRoom.of_run`: while there is room in the array, what a ring delivered and what it
  still holds are what was submitted to it, in order.
* `collected_iff_safeToStop`: nothing submitted before the signal is lost exactly when each
  ring is empty at the signal or will still be polled to the end.
* `stop_during_poll_loses_events`: a signal during the first poll loses what is pending.
-/

namespace UnifiedTrace

/-! ### The loop -/

/-- The two ring buffers. -/
inductive Ring
  | cpu
  | gpu
  deriving DecidableEq

/-- The ring a record is submitted to. -/
def UnifiedEvent.ring : UnifiedEvent → Ring
  | cpu _ => .cpu
  | gpu _ => .gpu

/-- The records of a ring. -/
def ofRing (r : Ring) (events : List UnifiedEvent) : List UnifiedEvent :=
  events.filter fun e => e.ring = r

/-- Where `main` is. -/
inductive LoopPc
  /-- About to read `exiting`. -/
  | check
  /-- About to call `ring_buffer__poll`. -/
  | call (r : Ring)
  /-- Inside the call. -/
  | polling (r : Ring)
  /-- The loop is left; `qsort` is next. -/
  | sort
  deriving DecidableEq

/-- What follows a poll that was not interrupted. -/
def LoopPc.afterPoll : Ring → LoopPc
  | .cpu => call .gpu
  | .gpu => check

/-- What follows a signal: an ongoing poll returns `-EINTR`. -/
def LoopPc.interrupted : LoopPc → LoopPc
  | polling _ => sort
  | pc => pc

/-- The ring will be polled before the loop reads `exiting` again. -/
def LoopPc.ToPoll : LoopPc → Ring → Prop
  | .call .cpu, _ => True
  | .polling .cpu, _ => True
  | .call .gpu, r => r = .gpu
  | .polling .gpu, r => r = .gpu
  | .check, _ => False
  | .sort, _ => False

/-- The ring buffers, the array and the loop. -/
structure PollWorld where
  /-- What each ring holds, oldest first. -/
  pending : Ring → List UnifiedEvent
  buf : EventBuf
  exiting : Bool
  pc : LoopPc
  /-- All records submitted so far. -/
  submitted : List UnifiedEvent

/-- What can happen next. -/
inductive PollAct
  /-- A tracer submits a record. -/
  | submit (e : UnifiedEvent)
  /-- The stop signal arrives. -/
  | signal
  /-- `main` goes on. -/
  | main

namespace PollWorld

/-- When the loop starts. -/
def init : PollWorld where
  pending := fun _ => []
  buf := .empty
  exiting := false
  pc := .check
  submitted := []

/-- A record enters its ring. -/
def submit (w : PollWorld) (e : UnifiedEvent) : PollWorld :=
  { w with
    pending := Function.update w.pending e.ring (w.pending e.ring ++ [e])
    submitted := w.submitted ++ [e] }

/-- The callback receives everything that is pending in a ring. -/
def deliver (w : PollWorld) (r : Ring) : PollWorld :=
  { w with
    pending := Function.update w.pending r []
    buf := (w.pending r).foldl handleEvent w.buf }

/-- `main` elsewhere. -/
def goto (w : PollWorld) (pc : LoopPc) : PollWorld := { w with pc }

/-- One action. There is one stop signal, and after the loop `main` is out of the picture. -/
def step (w : PollWorld) : PollAct → Option PollWorld
  | .submit e => some (w.submit e)
  | .signal =>
      if w.exiting then none
      else some { w with exiting := true, pc := w.pc.interrupted }
  | .main =>
      match w.pc with
      | .check => some (w.goto (if w.exiting then .sort else .call .cpu))
      | .call r => some (w.goto (.polling r))
      | .polling r => some ((w.deliver r).goto (.afterPoll r))
      | .sort => none

/-- A run from the start of the loop. -/
abbrev runs (acts : List PollAct) : Option PollWorld := ActionRun.run step init acts

/-! ### What is delivered -/

/-- The events of one ring among two lists. -/
theorem ofRing_append (r : Ring) (events events' : List UnifiedEvent) :
    ofRing r (events ++ events') = ofRing r events ++ ofRing r events' :=
  List.filter_append ..

/-- Records of the ring only. -/
theorem ofRing_eq_self {r : Ring} {events : List UnifiedEvent} (h : ∀ e ∈ events, e.ring = r) :
    ofRing r events = events :=
  List.filter_eq_self.mpr fun e he => decide_eq_true (h e he)

/-- Records of another ring only. -/
theorem ofRing_eq_nil {r r' : Ring} {events : List UnifiedEvent}
    (h : ∀ e ∈ events, e.ring = r) (hne : r' ≠ r) : ofRing r' events = [] :=
  List.filter_eq_nil_iff.mpr fun e he hring =>
    hne ((of_decide_eq_true hring).symm.trans (h e he))

/-- The records of the two rings are all records. -/
theorem perm_ofRing (events : List UnifiedEvent) :
    (ofRing .cpu events ++ ofRing .gpu events).Perm events := by
  have hgpu : ofRing .gpu events = events.filter fun e => ! decide (e.ring = .cpu) := by
    refine List.filter_congr fun e _ => ?_
    cases e <;> rfl
  rw [hgpu]
  exact List.filter_append_perm _ events

/-- Every event is of one of the two rings. -/
theorem length_ofRing (events : List UnifiedEvent) :
    (ofRing .cpu events).length + (ofRing .gpu events).length = events.length := by
  rw [← List.length_append]
  exact (perm_ofRing events).length_eq

/-- While there is room the callback appends. -/
theorem events_foldl_handleEvent {buf : EventBuf} {es : List UnifiedEvent}
    (h : buf.events.length + es.length ≤ maxEvents) :
    (es.foldl handleEvent buf).events = buf.events ++ es := by
  induction es generalizing buf with
  | nil => exact (List.append_nil _).symm
  | cons e es ih =>
      have hpush : (handleEvent buf e).events = buf.events ++ [e] := by
        rw [handleEvent_eq_push, events_push, List.take_of_length_le]
        rw [List.length_append, List.length_singleton]
        rw [List.length_cons] at h
        omega
      rw [List.foldl_cons, ih, hpush, List.append_assoc]
      · rfl
      · rw [hpush, List.length_append, List.length_singleton]
        rw [List.length_cons] at h
        omega

/-- What each ring delivered, followed by what it holds, is what was submitted to it. -/
def Fifo (w : PollWorld) : Prop :=
  ∀ r, ofRing r w.buf.events ++ w.pending r = ofRing r w.submitted

/-- A ring holds its own records only. -/
theorem Fifo.ring_of_mem_pending {w : PollWorld} (h : w.Fifo) (r : Ring) :
    ∀ e ∈ w.pending r, e.ring = r := by
  intro e he
  have hmem : e ∈ ofRing r w.submitted := by
    rw [← h r]
    exact List.mem_append_right _ he
  exact of_decide_eq_true (List.mem_filter.mp hmem).2

/-- The array and the rings hold as many records as were submitted. -/
theorem Fifo.length {w : PollWorld} (h : w.Fifo) :
    w.buf.events.length + (w.pending .cpu).length + (w.pending .gpu).length =
      w.submitted.length := by
  have hcpu := congrArg List.length (h .cpu)
  have hgpu := congrArg List.length (h .gpu)
  have hbuf := length_ofRing w.buf.events
  have hsub := length_ofRing w.submitted
  rw [List.length_append] at hcpu hgpu
  omega

/-- A submitted event is the last of its ring. -/
theorem Fifo.submit {w : PollWorld} (h : w.Fifo) (e : UnifiedEvent) : (w.submit e).Fifo := by
  intro r
  change ofRing r w.buf.events ++ Function.update w.pending e.ring (w.pending e.ring ++ [e]) r =
    ofRing r (w.submitted ++ [e])
  rw [ofRing_append, ← h r, List.append_assoc]
  have hring : ∀ e' ∈ [e], e'.ring = e.ring :=
    fun e' he' => List.mem_singleton.mp he' ▸ rfl
  rcases eq_or_ne r e.ring with rfl | hr
  · rw [Function.update_self, ofRing_eq_self hring]
  · rw [Function.update_of_ne hr, ofRing_eq_nil hring hr, List.append_nil]

/-- While there is room, a poll moves its ring to the end of the array. -/
theorem Fifo.events_deliver {w : PollWorld} (h : w.Fifo)
    (hroom : w.submitted.length ≤ maxEvents) (r : Ring) :
    (w.deliver r).buf.events = w.buf.events ++ w.pending r := by
  have hlen := h.length
  refine events_foldl_handleEvent ?_
  cases r <;> omega

/-- A poll delivers the records of its ring and no others. -/
theorem Fifo.ofRing_deliver {w : PollWorld} (h : w.Fifo)
    (hroom : w.submitted.length ≤ maxEvents) (r r' : Ring) :
    ofRing r' (w.deliver r).buf.events =
      if r' = r then ofRing r w.submitted else ofRing r' w.buf.events := by
  rw [h.events_deliver hroom, ofRing_append]
  rcases eq_or_ne r' r with rfl | hr
  · rw [if_pos rfl, ofRing_eq_self (h.ring_of_mem_pending r'), h r']
  · rw [if_neg hr, ofRing_eq_nil (h.ring_of_mem_pending r) hr, List.append_nil]

/-- A poll moves what is pending to the array, in order. -/
theorem Fifo.deliver {w : PollWorld} (h : w.Fifo) (hroom : w.submitted.length ≤ maxEvents)
    (r : Ring) : (w.deliver r).Fifo := by
  intro r'
  change ofRing r' (w.deliver r).buf.events ++ Function.update w.pending r [] r' =
    ofRing r' w.submitted
  rw [h.ofRing_deliver hroom]
  rcases eq_or_ne r' r with rfl | hr
  · rw [if_pos rfl, Function.update_self, List.append_nil]
  · rw [if_neg hr, Function.update_of_ne hr, h r']

/-! ### What each action does -/

variable {w w' : PollWorld}

/-- The signal comes once, sets the flag and interrupts a poll. -/
theorem step_signal_eq_some (h : w.step .signal = some w') :
    w.exiting = false ∧ w' = { w with exiting := true, pc := w.pc.interrupted } := by
  rw [step] at h
  split at h
  · exact absurd h (by simp)
  · rename_i hexiting
    exact ⟨eq_false_of_ne_true hexiting, (Option.some.inj h).symm⟩

/-- `main` reads the flag, starts a poll or finishes one. -/
theorem step_main_eq_some (h : w.step .main = some w') :
    (w.pc = .check ∧ w' = w.goto (if w.exiting then .sort else .call .cpu)) ∨
      (∃ r, w.pc = .call r ∧ w' = w.goto (.polling r)) ∨
        ∃ r, w.pc = .polling r ∧ w' = (w.deliver r).goto (.afterPoll r) := by
  rw [step] at h
  cases hpc : w.pc with
  | check =>
      rw [hpc] at h
      exact .inl ⟨rfl, (Option.some.inj h).symm⟩
  | call r =>
      rw [hpc] at h
      exact .inr (.inl ⟨r, rfl, (Option.some.inj h).symm⟩)
  | polling r =>
      rw [hpc] at h
      exact .inr (.inr ⟨r, rfl, (Option.some.inj h).symm⟩)
  | sort =>
      rw [hpc] at h
      exact absurd h (by simp)

/-- As long as everything fits, the rings are queues. -/
def FifoWhileRoom (w : PollWorld) : Prop := w.submitted.length ≤ maxEvents → w.Fifo

/-- Every action keeps the order of both rings, while the array has room. -/
theorem FifoWhileRoom.of_step {act : PollAct} (hw : w.FifoWhileRoom)
    (h : w.step act = some w') : w'.FifoWhileRoom := by
  cases act with
  | submit e =>
      obtain rfl := Option.some.inj h
      intro hroom
      refine (hw ?_).submit e
      have hlen : (w.submit e).submitted.length = w.submitted.length + 1 :=
        List.length_append
      omega
  | signal =>
      obtain ⟨-, rfl⟩ := step_signal_eq_some h
      exact hw
  | main =>
      rcases step_main_eq_some h with ⟨-, rfl⟩ | ⟨r, -, rfl⟩ | ⟨r, -, rfl⟩
      · exact hw
      · exact hw
      · exact fun hroom => (hw hroom).deliver hroom r

/-- **The rings are queues**: as long as everything fits, what a ring delivered and what it
holds are what was submitted to it, in order. -/
theorem FifoWhileRoom.of_run {acts : List PollAct} (h : runs acts = some w) :
    w.FifoWhileRoom :=
  ActionRun.run_invariant (I := FifoWhileRoom) (fun _ _ => rfl)
    (fun _ _ _ _ hu hstep => hu.of_step hstep) h

/-! ### After the signal -/

/-- What was delivered and is to be delivered after a signal that arrived in the state `w`:
a ring that is still to be polled delivers at least what it got before the signal, and a ring
that is not delivers nothing more. -/
structure Stopping (w u : PollWorld) : Prop where
  exiting : u.exiting = true
  grows : w.submitted <+: u.submitted
  fifo : u.FifoWhileRoom
  polled : u.submitted.length ≤ maxEvents → ∀ r, w.pc.interrupted.ToPoll r →
    u.pc.ToPoll r ∨ ofRing r w.submitted <+: ofRing r u.buf.events
  unpolled : u.submitted.length ≤ maxEvents → ∀ r, ¬ w.pc.interrupted.ToPoll r →
    ¬ u.pc.ToPoll r ∧ ofRing r u.buf.events = ofRing r w.buf.events

/-- When the signal has arrived. -/
theorem Stopping.of_signal (hw : w.FifoWhileRoom) (h : w.step .signal = some w') :
    Stopping w w' := by
  obtain ⟨-, rfl⟩ := step_signal_eq_some h
  exact ⟨rfl, List.prefix_refl _, hw, fun _ r hr => .inl hr, fun _ r hr => ⟨hr, rfl⟩⟩

/-- A poll that is not interrupted counts for its own ring only. -/
theorem Stopping.deliver {u : PollWorld} (h : Stopping w u) {r : Ring}
    (hpc : u.pc = .polling r) : Stopping w ((u.deliver r).goto (.afterPoll r)) := by
  refine ⟨h.exiting, h.grows, fun hroom => (h.fifo hroom).deliver hroom r, ?_, ?_⟩
  · intro hroom r' hr'
    change (LoopPc.afterPoll r).ToPoll r' ∨
      ofRing r' w.submitted <+: ofRing r' (u.deliver r).buf.events
    rw [(h.fifo hroom).ofRing_deliver hroom]
    rcases eq_or_ne r' r with rfl | hne
    · rw [if_pos rfl]
      exact .inr (h.grows.filter _)
    · rw [if_neg hne]
      rcases h.polled hroom r' hr' with hpoll | hpre
      · left
        rw [hpc] at hpoll
        cases r with
        | cpu => cases r' with
          | cpu => exact absurd rfl hne
          | gpu => rfl
        | gpu => exact absurd hpoll hne
      · exact .inr hpre
  · intro hroom r' hr'
    obtain ⟨hpoll, hsame⟩ := h.unpolled hroom r' hr'
    change ¬ (LoopPc.afterPoll r).ToPoll r' ∧
      ofRing r' (u.deliver r).buf.events = ofRing r' w.buf.events
    rw [(h.fifo hroom).ofRing_deliver hroom]
    rw [hpc] at hpoll
    cases r with
    | cpu => exact absurd trivial hpoll
    | gpu =>
        have hne : r' ≠ .gpu := hpoll
        rw [if_neg hne]
        exact ⟨id, hsame⟩

/-- Every action after the signal keeps what the signal left. -/
theorem Stopping.of_step {u v : PollWorld} {act : PollAct} (h : Stopping w u)
    (hstep : u.step act = some v) : Stopping w v := by
  cases act with
  | submit e =>
      have hfifo := h.fifo.of_step hstep
      obtain rfl := Option.some.inj hstep
      have hroom : (u.submit e).submitted.length ≤ maxEvents →
          u.submitted.length ≤ maxEvents := by
        have hlen : (u.submit e).submitted.length = u.submitted.length + 1 :=
          List.length_append
        omega
      exact ⟨h.exiting, h.grows.trans (List.prefix_append _ _), hfifo,
        fun hr => h.polled (hroom hr), fun hr => h.unpolled (hroom hr)⟩
  | signal =>
      obtain ⟨hfalse, -⟩ := step_signal_eq_some hstep
      exact absurd (h.exiting.symm.trans hfalse) (by simp)
  | main =>
      rcases step_main_eq_some hstep with ⟨hpc, rfl⟩ | ⟨r, hpc, rfl⟩ | ⟨r, hpc, rfl⟩
      · rw [if_pos h.exiting]
        refine ⟨h.exiting, h.grows, h.fifo, ?_, ?_⟩
        · intro hroom r hr
          have hpolled := h.polled hroom r hr
          rw [hpc] at hpolled
          exact hpolled
        · intro hroom r hr
          exact ⟨id, (h.unpolled hroom r hr).2⟩
      · -- the poll that was to be called is the one that is now going on
        have hsame : ∀ r', (LoopPc.call r).ToPoll r' ↔ (LoopPc.polling r).ToPoll r' := by
          intro r'
          cases r <;> exact Iff.rfl
        refine ⟨h.exiting, h.grows, h.fifo, ?_, ?_⟩
        · intro hroom r' hr'
          exact (h.polled hroom r' hr').imp_left fun hp => (hsame r').mp (hpc ▸ hp)
        · intro hroom r' hr'
          obtain ⟨hp, hbuf⟩ := h.unpolled hroom r' hr'
          exact ⟨fun hc => hp (hpc ▸ (hsame r').mpr hc), hbuf⟩
      · exact h.deliver hpc

/-- **Stopping is safe**: the loop is past its look at the flag and about to poll both rings;
or it is about to poll the second, and the first is empty; or both rings are empty. -/
def SafeToStop (w : PollWorld) : Prop :=
  match w.pc with
  | .call .cpu => True
  | .call .gpu => w.pending .cpu = []
  | _ => ∀ r, w.pending r = []

/-- Each ring is empty, or the loop is on the way to a poll of it that the signal does not
interrupt. -/
theorem safeToStop_iff :
    w.SafeToStop ↔ ∀ r, w.pending r = [] ∨ w.pc.interrupted.ToPoll r := by
  rw [SafeToStop]
  cases w.pc with
  | check => simp [LoopPc.interrupted, LoopPc.ToPoll]
  | polling r => simp [LoopPc.interrupted, LoopPc.ToPoll]
  | sort => simp [LoopPc.interrupted, LoopPc.ToPoll]
  | call r =>
      cases r with
      | cpu => simp [LoopPc.interrupted, LoopPc.ToPoll]
      | gpu =>
          constructor
          · intro h r
            cases r with
            | cpu => exact .inl h
            | gpu => exact .inr rfl
          · intro h
            refine (h .cpu).resolve_right ?_
            simp [LoopPc.interrupted, LoopPc.ToPoll]

/-- Nothing is missing when nothing of either ring is. -/
theorem subperm_of_forall_ofRing {events events' : List UnifiedEvent}
    (h : ∀ r, ofRing r events <+: ofRing r events') : events.Subperm events' :=
  ((perm_ofRing events).symm.subperm.trans
    ((h .cpu).sublist.subperm.append (h .gpu).sublist.subperm)).trans
      (perm_ofRing events').subperm

end PollWorld

/-- **When shutting down loses nothing**: everything that was submitted before the signal is
in the array when `qsort` runs, exactly when stopping was safe at the signal. -/
theorem collected_iff_safeToStop {pre post : List PollAct} {w w' v : PollWorld}
    (hpre : PollWorld.runs pre = some w) (hsignal : w.step .signal = some w')
    (hpost : ActionRun.run PollWorld.step w' post = some v) (hsort : v.pc = .sort)
    (hroom : v.submitted.length ≤ maxEvents) :
    w.submitted.Subperm v.buf.events ↔ w.SafeToStop := by
  have hfifo := PollWorld.FifoWhileRoom.of_run hpre
  have hstop : PollWorld.Stopping w v :=
    ActionRun.run_invariant (.of_signal hfifo hsignal)
      (fun _ _ _ _ hu hstep => hu.of_step hstep) hpost
  have hroom' : w.submitted.length ≤ maxEvents := hstop.grows.length_le.trans hroom
  rw [PollWorld.safeToStop_iff]
  constructor
  · intro hsub r
    rcases em (w.pc.interrupted.ToPoll r) with hr | hr
    · exact .inr hr
    · left
      have hle := (hsub.filter fun e => e.ring = r).length_le
      change (ofRing r w.submitted).length ≤ (ofRing r v.buf.events).length at hle
      rw [(hstop.unpolled hroom r hr).2, ← hfifo hroom' r, List.length_append] at hle
      exact List.length_eq_zero_iff.mp (by omega)
  · intro hsafe
    refine PollWorld.subperm_of_forall_ofRing fun r => ?_
    rcases em (w.pc.interrupted.ToPoll r) with hr | hr
    · refine (hstop.polled hroom r hr).resolve_left ?_
      rw [hsort]
      exact id
    · have hempty := (hsafe r).resolve_right hr
      have hqueue := hfifo hroom' r
      rw [hempty, List.append_nil] at hqueue
      rw [(hstop.unpolled hroom r hr).2, hqueue]

/-- A wakeup is submitted when the first poll is due, and the signal arrives. -/
def stopBeforePoll : List PollAct := [.main, .submit (.cpu (.wakeupAt 100 10))]

/-- The signal comes when the loop is about to poll, so the wakeup reaches the array. -/
theorem collected_iff_safeToStop_before_poll :
    ∃ w w' v, PollWorld.runs stopBeforePoll = some w ∧ w.step .signal = some w' ∧
      ActionRun.run PollWorld.step w' [.main, .main, .main, .main, .main] = some v ∧
      w.submitted = [.cpu (.wakeupAt 100 10)] ∧ w.buf.events = [] ∧
      w.submitted.Subperm v.buf.events :=
  ⟨_, _, _, rfl, rfl, rfl, rfl, rfl,
    (@collected_iff_safeToStop stopBeforePoll [.main, .main, .main, .main, .main] _ _ _
      rfl rfl rfl rfl (by decide)).mpr trivial⟩

/-- A call is submitted while the loop is inside its first poll. -/
def submitDuringPoll : List PollAct :=
  [.main, .main, .submit (.gpu (.streamSyncAt 100 100 10 0))]

/-- A signal inside a poll leaves the submitted call in its ring. -/
theorem stop_during_poll_loses_events :
    ∃ w v, PollWorld.runs submitDuringPoll = some w ∧ w.step .signal = some v ∧
      v.pc = .sort ∧ v.submitted.length ≤ maxEvents ∧
      w.submitted = [.gpu (.streamSyncAt 100 100 10 0)] ∧ v.buf.events = [] ∧
      ¬ w.submitted.Subperm v.buf.events := by
  refine ⟨_, _, rfl, rfl, rfl, by decide, rfl, rfl, ?_⟩
  intro hsub
  exact absurd (List.subperm_nil.mp hsub) (List.cons_ne_nil _ _)

end UnifiedTrace
