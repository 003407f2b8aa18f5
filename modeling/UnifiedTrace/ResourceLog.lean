import Mathlib.Data.Finset.Insert
import Mathlib.Data.Finset.Erase
import Mathlib.Data.Finset.Dedup

/-!
# Acquiring and Releasing Resources

A program acquires resources, uses them and releases them; its log is the list of what it did.
A resource can depend on another one, its parent: it can be acquired only while the parent is
held, and the parent can be released only when it is gone. A log that keeps to this has a run,
which yields the resources that are still held at the end.

The second half is about programs that stop at the first fatal failure, as a C function does
with `goto cleanup`: a state monad with exceptions, the rules for its pre- and postconditions,
and those for acquiring and using resources that are kept in variables.

## Main results

* `count_of_run`: what is acquired is released, or held at the end.
* `Closed.of_run`, `Closed.of_prefix`: while a resource is held its parent is.
* `run_releases`: releasing what is held, children before parents, leaves nothing.
* `Triple.bind`, `Triple.check`: the rules for sequencing and for a fatal failure.
* `assign_rule`, `call_rule`, `Holding.run_cleanup`: such a program keeps to the rules, and a
  clean-up of all its variables ends it well wherever it stopped.
-/

namespace ResourceLog

/-! ### Logs -/

/-- What a program does with a resource. -/
inductive Act (H : Type*)
  | acquire (h : H)
  | use (h : H)
  | release (h : H)
  deriving DecidableEq

section Logs

variable {H : Type*} [DecidableEq H] (parent : H → Option H)

/-- One action on the resources that are held; `none` if it is not allowed. -/
def step (held : Finset H) : Act H → Option (Finset H)
  | .acquire h => if h ∉ held ∧ ∀ p ∈ parent h, p ∈ held then some (insert h held) else none
  | .use h => if h ∈ held then some held else none
  | .release h =>
      if h ∈ held ∧ ∀ c ∈ held, parent c ≠ some h then some (held.erase h) else none

/-- The resources that are held after a log. -/
def run (held : Finset H) : List (Act H) → Option (Finset H)
  | [] => some held
  | a :: log => (step parent held a).bind fun held' => run held' log

variable {parent} {held held' : Finset H} {log log' : List (Act H)}

/-- A log splits at any point. -/
theorem run_append (log log' : List (Act H)) :
    run parent held (log ++ log') =
      (run parent held log).bind fun held' => run parent held' log' := by
  induction log generalizing held with
  | nil => rfl
  | cons a log ih =>
      rw [List.cons_append, run, run, Option.bind_assoc]
      exact Option.bind_congr fun held' _ => ih

/-- A log that goes on. -/
theorem run_append_of_run (h : run parent held log = some held') :
    run parent held (log ++ log') = run parent held' log' := by
  rw [run_append, h, Option.bind_some]

/-- The first act of a log. -/
theorem run_cons_eq_some {a : Act H} {held'' : Finset H} :
    run parent held (a :: log) = some held'' ↔
      ∃ held', step parent held a = some held' ∧ run parent held' log = some held'' :=
  Option.bind_eq_some_iff

/-- What an action does to the number of times a resource was acquired, released and is held. -/
theorem count_of_step {a : Act H} (hs : step parent held a = some held') (h : H) :
    [a].count (.acquire h) + (if h ∈ held then 1 else 0) =
      [a].count (.release h) + (if h ∈ held' then 1 else 0) := by
  cases a with
  | acquire g =>
      rw [step] at hs
      split_ifs at hs with hok
      obtain rfl := Option.some.inj hs
      rcases eq_or_ne g h with rfl | hne
      · simp [hok.1]
      · simp [hne, hne.symm]
  | use g =>
      rw [step] at hs
      split_ifs at hs
      obtain rfl := Option.some.inj hs
      simp
  | release g =>
      rw [step] at hs
      split_ifs at hs with hok
      obtain rfl := Option.some.inj hs
      rcases eq_or_ne g h with rfl | hne
      · simp [hok.1]
      · simp [hne, hne.symm]

/-- **Nothing gets lost**: a resource is acquired as often as it is released, once more if it is
held at the end. -/
theorem count_of_run (hr : run parent held log = some held') (h : H) :
    log.count (.acquire h) + (if h ∈ held then 1 else 0) =
      log.count (.release h) + (if h ∈ held' then 1 else 0) := by
  induction log generalizing held with
  | nil =>
      obtain rfl := Option.some.inj hr
      rfl
  | cons a log ih =>
      obtain ⟨mid, hs, hr⟩ := run_cons_eq_some.mp hr
      have hstep := count_of_step hs h
      have hrest := ih hr
      rw [← List.singleton_append, List.count_append, List.count_append]
      omega

variable (parent) in
/-- The parent of whatever is held is held. -/
def Closed (held : Finset H) : Prop := ∀ c ∈ held, ∀ p ∈ parent c, p ∈ held

/-- **Lifetimes nest**: a log keeps to it that the parent of what is held is held. -/
theorem Closed.of_run (hc : Closed parent held) (hr : run parent held log = some held') :
    Closed parent held' := by
  induction log generalizing held with
  | nil =>
      obtain rfl := Option.some.inj hr
      exact hc
  | cons a log ih =>
      obtain ⟨mid, hs, hr⟩ := run_cons_eq_some.mp hr
      refine ih (fun c hcmem p hp => ?_) hr
      cases a with
      | acquire g =>
          rw [step] at hs
          split_ifs at hs with hok
          obtain rfl := Option.some.inj hs
          rcases Finset.mem_insert.mp hcmem with rfl | hcmem
          · exact Finset.mem_insert_of_mem (hok.2 p hp)
          · exact Finset.mem_insert_of_mem (hc c hcmem p hp)
      | use g =>
          rw [step] at hs
          split_ifs at hs
          obtain rfl := Option.some.inj hs
          exact hc c hcmem p hp
      | release g =>
          rw [step] at hs
          split_ifs at hs with hok
          obtain rfl := Option.some.inj hs
          have hcheld := Finset.mem_of_mem_erase hcmem
          refine Finset.mem_erase.mpr ⟨?_, hc c hcheld p hp⟩
          rintro rfl
          exact hok.2 c hcheld hp

/-- The same at every moment of a legal log. -/
theorem Closed.of_prefix (hc : Closed parent held) (hr : run parent held log = some held')
    {pre : List (Act H)} (hpre : pre <+: log) :
    ∃ mid, run parent held pre = some mid ∧ Closed parent mid := by
  obtain ⟨rest, rfl⟩ := hpre
  rw [run_append] at hr
  obtain ⟨mid, hmid, -⟩ := Option.bind_eq_some_iff.mp hr
  exact ⟨mid, hmid, hc.of_run hmid⟩

/-- The releases of those resources of a list that are held. -/
def releases (held : Finset H) (order : List H) : List (Act H) :=
  (order.filter (· ∈ held)).map .release

omit [DecidableEq H] in
/-- What nothing depends on can be released first. -/
theorem pairwise_of_childless {front back : List H}
    (hfront : ∀ a ∈ front, ∀ b, parent b ≠ some a)
    (hback : back.Pairwise fun a b => parent b ≠ some a) :
    (front ++ back).Pairwise fun a b => parent b ≠ some a :=
  List.pairwise_append.mpr
    ⟨List.pairwise_of_forall_mem_list fun a ha b _ => hfront a ha b, hback,
      fun a ha b _ => hfront a ha b⟩

/-- **Cleaning up**: in an order that names every resource once, no parent before its child, the
releases empty what is held. -/
theorem run_releases {order : List H} (hnodup : order.Nodup)
    (horder : order.Pairwise fun a b => parent b ≠ some a) (hall : ∀ h ∈ held, h ∈ order)
    (hirrefl : ∀ h, parent h ≠ some h) :
    run parent held (releases held order) = some ∅ := by
  induction order generalizing held with
  | nil =>
      have hempty : held = ∅ := Finset.eq_empty_of_forall_notMem fun h hh => by
        cases hall h hh
      rw [hempty]
      rfl
  | cons a order ih =>
      obtain ⟨hnotMem, hnodup⟩ := List.nodup_cons.mp hnodup
      obtain ⟨hparent, horder⟩ := List.pairwise_cons.mp horder
      have hother : ∀ h ∈ held, h ≠ a → h ∈ order := fun h hh hne =>
        (List.mem_cons.mp (hall h hh)).resolve_left hne
      by_cases ha : a ∈ held
      · have hstep : step parent held (.release a) = some (held.erase a) := by
          refine if_pos ⟨ha, fun c hc => ?_⟩
          rcases eq_or_ne c a with rfl | hne
          · exact hirrefl c
          · exact hparent c (hother c hc hne)
        have hrest : releases held order = releases (held.erase a) order := by
          rw [releases, releases]
          congr 1
          refine List.filter_congr fun h hh => ?_
          have hne : h ≠ a := fun heq => hnotMem (heq ▸ hh)
          simp [hne]
        have hmem : decide (a ∈ held) = true := decide_eq_true ha
        rw [releases, List.filter_cons, if_pos hmem, List.map_cons, run, hstep, Option.bind_some]
        have hgoal := @ih (held.erase a) hnodup horder fun h hh =>
          hother h (Finset.mem_of_mem_erase hh) (Finset.ne_of_mem_erase hh)
        rwa [← hrest] at hgoal
      · rw [releases, List.filter_cons_of_neg (by simpa using ha)]
        exact ih hnodup horder fun h hh => hother h hh fun heq => ha (heq ▸ hh)

end Logs

/-! ### Programs that stop at a failure -/

/-- A program on a state, which can stop. -/
abbrev Prog (σ α : Type) := ExceptT Unit (StateM σ) α

/-- From a state with the precondition the program ends in one of the postconditions: the first
if it comes to its end, the second if it stops. -/
def Triple {σ α : Type} (P : σ → Prop) (m : Prog σ α) (Q : α → σ → Prop) (E : σ → Prop) : Prop :=
  ∀ s, P s → match m.run.run s with
    | (.ok a, s') => Q a s'
    | (.error (), s') => E s'

/-- Stop unless the condition holds. -/
def check {σ : Type} (ok : Bool) : Prog σ Unit := unless ok do throw ()

section Rules

variable {σ α β : Type} {P P' : σ → Prop} {Q : α → σ → Prop} {R : β → σ → Prop} {E : σ → Prop}

/-- A program that only returns. -/
theorem Triple.pure {a : α} (h : ∀ s, P s → Q a s) : Triple P (pure a : Prog σ α) Q E := h

/-- **Sequencing.** -/
theorem Triple.bind {m : Prog σ α} {f : α → Prog σ β} (hm : Triple P m Q E)
    (hf : ∀ a, Triple (Q a) (f a) R E) : Triple P (m >>= f) R E := by
  intro s hs
  have hfirst := hm s hs
  have hrun : (m >>= f).run.run s = ExceptT.bindCont f (m.run.run s).1 (m.run.run s).2 := rfl
  rw [hrun]
  rcases hms : m.run.run s with ⟨r, s'⟩
  rw [hms] at hfirst
  cases r with
  | error e => exact hfirst
  | ok a => exact hf a s' hfirst

/-- A stronger precondition and a weaker postcondition will do. -/
theorem Triple.mono {m : Prog σ α} {Q' : α → σ → Prop} (hm : Triple P m Q E)
    (hpre : ∀ s, P' s → P s) (hpost : ∀ a s, Q a s → Q' a s) : Triple P' m Q' E := by
  intro s hs
  have hrun := hm s (hpre s hs)
  rcases hms : m.run.run s with ⟨r, s'⟩
  rw [hms] at hrun
  cases r with
  | error e => exact hrun
  | ok a => exact hpost a s' hrun

/-- A fact that does not depend on the state. -/
theorem Triple.of_and {p : Prop} {m : Prog σ α} (h : p → Triple P m Q E) :
    Triple (fun s => p ∧ P s) m Q E := fun s hs => h hs.1 s hs.2

/-- The result of a call can be thrown away. -/
theorem Triple.discard {m : Prog σ α} {Q : σ → Prop} (hm : Triple P m (fun _ => Q) E) :
    Triple P (discard m) (fun _ => Q) E :=
  hm.bind fun _ => Triple.pure fun _ hs => hs

/-- A program that reads the state. -/
theorem Triple.get {f : σ → Prog σ β} (hf : ∀ t, Triple (fun s => P s ∧ s = t) (f t) R E) :
    Triple P (get >>= f) R E := fun s hs => hf s s ⟨hs, rfl⟩

/-- A change of the state. -/
theorem Triple.modify {g : σ → σ} {Q : σ → Prop} (h : ∀ s, P s → Q (g s)) :
    Triple P (modify g : Prog σ Unit) (fun _ => Q) E := h

/-- A check of something that is known before. -/
theorem Triple.check_pure {ok : Bool} {f : Unit → Prog σ β} (hE : ok = false → ∀ s, P s → E s)
    (hf : ok = true → Triple P (f ()) R E) : Triple P (ResourceLog.check ok >>= f) R E := by
  cases ok with
  | true => exact hf rfl
  | false => exact hE rfl

section Check

variable {m : Prog σ Bool} {ok : Bool} {Q : σ → Prop}
  (hm : Triple P m (fun b s => b = ok ∧ Q s) E) (hE : ok = false → ∀ s, Q s → E s)

include hm hE

/-- **A check**: behind it the answer was yes, and where the program stops it was no. -/
theorem Triple.check : Triple P (m >>= check) (fun _ s => ok = true ∧ Q s) E := by
  refine hm.bind fun b s => ?_
  rintro ⟨rfl, hs⟩
  cases b with
  | true => exact ⟨rfl, hs⟩
  | false => exact hE rfl s hs

/-- A check and what follows it. -/
theorem Triple.check_bind {f : Unit → Prog σ β} (hf : ok = true → Triple Q (f ()) R E) :
    Triple P (m >>= fun b => ResourceLog.check b >>= f) R E := by
  refine hm.bind fun b s => ?_
  rintro ⟨rfl, hs⟩
  cases b with
  | true => exact hf rfl s hs
  | false => exact hE rfl s hs

end Check

end Rules

/-! ### Programs that hold resources in variables -/

/-- The state of such a program: the variables that hold a resource, the log, and whatever else
there is. -/
structure Store (H ρ : Type) where
  vars : Finset H
  log : List (Act H)
  data : ρ

/-- Before the first call. -/
def Store.init {H ρ : Type} (data : ρ) : Store H ρ := ⟨∅, [], data⟩

section Holding

variable {H ρ : Type} [DecidableEq H]

/-- A call that returns a resource into its variable, unless it fails. -/
def assign (h : H) (ok : Bool) : Prog (Store H ρ) Bool := do
  if ok then
    modify fun s => { s with vars := insert h s.vars, log := s.log ++ [.acquire h] }
  return ok

/-- A call on a resource. -/
def call (h : H) (ok : Bool) : Prog (Store H ρ) Bool := do
  modify fun s => { s with log := s.log ++ [.use h] }
  return ok

/-- A change of the other variables. -/
def setData (f : ρ → ρ) : Prog (Store H ρ) Unit := modify fun s => { s with data := f s.data }

variable (parent : H → Option H) (rank : H → ℕ)

/-- The log is legal and leaves what the variables hold. Resources are acquired in the order of
their rank: only those below a bound were, and the listed ones are held for certain. -/
structure Holding (bound : ℕ) (must : List H) (D : ρ → Prop) (s : Store H ρ) : Prop where
  run_eq : run parent ∅ s.log = some s.vars
  rank_lt : ∀ h ∈ s.vars, rank h < bound
  mem_vars : ∀ h ∈ must, h ∈ s.vars
  data : D s.data

variable {parent rank} {bound : ℕ} {must : List H} {D : ρ → Prop} {E : Store H ρ → Prop} {h : H}
  {ok : Bool}

/-- Nothing is held at the start. -/
theorem Holding.init {d : ρ} (hd : D d) : Holding parent rank 0 [] D (.init d) :=
  ⟨rfl, fun h hh => absurd hh (Finset.notMem_empty h), fun _ hh => absurd hh List.not_mem_nil, hd⟩

/-- A looser bound, or fewer handles that must be held. -/
theorem Holding.mono {s : Store H ρ} (hs : Holding parent rank bound must D s) {bound' : ℕ}
    (hle : bound ≤ bound') {must' : List H} (hsub : must' ⊆ must) :
    Holding parent rank bound' must' D s :=
  ⟨hs.run_eq, fun g hg => (hs.rank_lt g hg).trans_le hle, fun g hg => hs.mem_vars g (hsub hg),
    hs.data⟩

/-- What is found to be held is held for certain. -/
theorem Holding.cons {s : Store H ρ} (hs : Holding parent rank bound must D s) (hh : h ∈ s.vars) :
    Holding parent rank bound (h :: must) D s :=
  ⟨hs.run_eq, hs.rank_lt, List.forall_mem_cons.mpr ⟨hh, hs.mem_vars⟩, hs.data⟩

/-- **Acquiring** a resource whose parent is held, when it is its turn. -/
theorem assign_rule (ok : Bool) (hrank : bound ≤ rank h) (hparent : ∀ p ∈ parent h, p ∈ must) :
    Triple (Holding parent rank bound must D) (assign h ok)
      (fun b s => b = ok ∧ if ok then Holding parent rank (rank h + 1) (h :: must) D s
        else Holding parent rank bound must D s) E := by
  cases ok with
  | false => exact fun s hs => ⟨rfl, hs⟩
  | true =>
      intro s hs
      have hnew : h ∉ s.vars := fun hmem => absurd (hs.rank_lt h hmem) (Nat.not_lt.mpr hrank)
      refine ⟨rfl, ?_, ?_, ?_, hs.data⟩
      · have hstep : step parent s.vars (.acquire h) = some (insert h s.vars) :=
          if_pos ⟨hnew, fun p hp => hs.mem_vars p (hparent p hp)⟩
        rw [run_append_of_run hs.run_eq, run, hstep]
        rfl
      · intro g hg
        rcases Finset.mem_insert.mp hg with rfl | hg
        · exact Nat.lt_succ_self _
        · exact ((hs.rank_lt g hg).trans_le hrank).trans (Nat.lt_succ_self _)
      · intro g hg
        rcases List.mem_cons.mp hg with rfl | hg
        · exact Finset.mem_insert_self _ _
        · exact Finset.mem_insert_of_mem (hs.mem_vars g hg)

/-- **Using** a resource that is held. -/
theorem call_rule (ok : Bool) (hmem : h ∈ must) :
    Triple (Holding parent rank bound must D) (call h ok)
      (fun b s => b = ok ∧ Holding parent rank bound must D s) E := by
  intro s hs
  refine ⟨rfl, ?_, hs.rank_lt, hs.mem_vars, hs.data⟩
  have hstep : step parent s.vars (.use h) = some s.vars := if_pos (hs.mem_vars h hmem)
  rw [run_append_of_run hs.run_eq, run, hstep]
  rfl

/-- A call whose answer is not looked at. -/
theorem discard_call_rule (hmem : h ∈ must) :
    Triple (Holding parent rank bound must D) (discard (call h ok))
      (fun _ => Holding parent rank bound must D) E :=
  ((call_rule ok hmem).mono (fun _ h => h) fun _ _ h => h.2).discard

/-- A resource that is taken if it can be had. -/
theorem discard_assign_rule {bound' : ℕ} (hrank : bound ≤ rank h) (hbound : rank h < bound')
    (hparent : ∀ p ∈ parent h, p ∈ must) :
    Triple (Holding parent rank bound must D) (discard (assign h ok))
      (fun _ => Holding parent rank bound' must D) E := by
  refine ((assign_rule ok hrank hparent).mono (fun _ h => h) fun _ s hs => ?_).discard
  split_ifs at hs with hok
  · exact hs.2.mono hbound (List.subset_cons_self _ _)
  · exact hs.2.mono (hrank.trans hbound.le) (List.Subset.refl _)

/-- Changing the data keeps what is held. -/
theorem setData_rule {f : ρ → ρ} {D' : ρ → Prop} (hf : ∀ d, D d → D' (f d)) :
    Triple (Holding parent rank bound must D) (setData f)
      (fun _ => Holding parent rank bound must D') E :=
  Triple.modify fun s hs => ⟨hs.run_eq, hs.rank_lt, hs.mem_vars, hf s.data hs.data⟩

section Needed

variable {β : Type} {f : Unit → Prog (Store H ρ) β} {R : β → Store H ρ → Prop}
  (hE : ok = false → ∀ s, Holding parent rank bound must D s → E s)

include hE

/-- A resource that the program cannot do without. -/
theorem assign_check_rule (hrank : bound ≤ rank h) (hparent : ∀ p ∈ parent h, p ∈ must)
    (hf : ok = true → Triple (Holding parent rank (rank h + 1) (h :: must) D) (f ()) R E) :
    Triple (Holding parent rank bound must D) (assign h ok >>= fun b => check b >>= f) R E := by
  refine (assign_rule ok hrank hparent).check_bind (fun hno s hs => ?_) fun hok => ?_
  · rw [hno] at hs
    exact hE hno s hs
  · rw [hok]
    exact hf hok

/-- The same at the end of a program. -/
theorem assign_check_last_rule (hrank : bound ≤ rank h) (hparent : ∀ p ∈ parent h, p ∈ must) :
    Triple (Holding parent rank bound must D) (assign h ok >>= check)
      (fun _ s => ok = true ∧ Holding parent rank (rank h + 1) (h :: must) D s) E := by
  refine (Triple.check (assign_rule ok hrank hparent) fun hno s hs => ?_).mono (fun _ h => h)
    fun _ s hs => ?_
  · rw [hno] at hs
    exact hE hno s hs
  · obtain ⟨hok, hs⟩ := hs
    rw [hok] at hs
    exact ⟨hok, hs⟩

/-- A call that must not fail. -/
theorem call_check_rule (hmem : h ∈ must)
    (hf : ok = true → Triple (Holding parent rank bound must D) (f ()) R E) :
    Triple (Holding parent rank bound must D) (call h ok >>= fun b => check b >>= f) R E :=
  (call_rule ok hmem).check_bind hE hf

end Needed

/-- **Cleaning up** ends whatever is held. -/
theorem Holding.run_cleanup {s : Store H ρ} (hs : Holding parent rank bound must D s)
    {order : List H} (hnodup : order.Nodup) (hall : ∀ h, h ∈ order)
    (horder : order.Pairwise fun a b => parent b ≠ some a) (hirrefl : ∀ h, parent h ≠ some h) :
    run parent ∅ (s.log ++ releases s.vars order) = some ∅ := by
  rw [run_append_of_run hs.run_eq]
  exact run_releases hnodup horder (fun h _ => hall h) hirrefl

end Holding

end ResourceLog
