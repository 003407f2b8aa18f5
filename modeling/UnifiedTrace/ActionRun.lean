import Mathlib.Data.List.Infix

/-!
# Runs of a Partial Step Function

A transition system is a partial function `step : σ → α → Option σ`: `none` means that
the action is not possible in the state. `run step s as` performs the actions in order.
The rules below are the only inductions on runs that a development needs: `run_invariant`
for what every step keeps, `run_history` for invariants that also speak of the actions
performed so far, and `run_filter` for a system that follows some of the actions of another.
-/

namespace ActionRun

variable {σ α : Type*} {step : σ → α → Option σ}

/-- Perform the actions in order; `none` as soon as one is not possible. -/
def run (step : σ → α → Option σ) : σ → List α → Option σ
  | s, [] => some s
  | s, a :: as => (step s a).bind fun t => run step t as

@[simp] theorem run_nil (s : σ) : run step s [] = some s := rfl

@[simp] theorem run_cons (s : σ) (a : α) (as : List α) :
    run step s (a :: as) = (step s a).bind fun t => run step t as := rfl

/-- A run splits at any point of its action list. -/
theorem run_append (s : σ) (as bs : List α) :
    run step s (as ++ bs) = (run step s as).bind fun t => run step t bs := by
  induction as generalizing s with
  | nil => rfl
  | cons a as ih =>
      rw [List.cons_append, run_cons, run_cons, Option.bind_assoc]
      exact Option.bind_congr fun t _ => ih t

/-- The state in the middle of a run. -/
theorem run_append_eq_some {s u : σ} {as bs : List α} :
    run step s (as ++ bs) = some u ↔
      ∃ t, run step s as = some t ∧ run step t bs = some u := by
  rw [run_append, Option.bind_eq_some_iff]

/-- The last step of a run. -/
theorem run_snoc_eq_some {s u : σ} {as : List α} {a : α} :
    run step s (as ++ [a]) = some u ↔
      ∃ t, run step s as = some t ∧ step t a = some u := by
  rw [run_append_eq_some]
  simp

/-- **The history rule.** A relation between the actions performed so far and the state
holds after a run if it holds at the start and every step of the run keeps it. -/
theorem run_history {I : List α → σ → Prop} {s t : σ} {as : List α} (h0 : I [] s)
    (hstep : ∀ pre a u v, pre ++ [a] <+: as → I pre u → step u a = some v →
      I (pre ++ [a]) v)
    (h : run step s as = some t) : I as t := by
  -- induction on the prefix performed so far
  suffices H : ∀ pre, pre <+: as → ∀ u, run step s pre = some u → I pre u from
    H as (List.prefix_refl as) t h
  intro pre
  induction pre using List.reverseRecOn with
  | nil =>
      intro _ u hu
      obtain rfl : s = u := Option.some.inj hu
      exact h0
  | append_singleton pre a ih =>
      intro hpre v hv
      obtain ⟨u, hu, hstep'⟩ := run_snoc_eq_some.mp hv
      have hpre' : pre <+: as := (List.prefix_append pre [a]).trans hpre
      exact hstep pre a u v hpre (ih hpre' u hu) hstep'

/-- **The invariant rule.** What the start satisfies and every action of the list keeps
holds after the run. -/
theorem run_invariant {I : σ → Prop} {s t : σ} {as : List α} (h0 : I s)
    (hstep : ∀ a ∈ as, ∀ u v, I u → step u a = some v → I v)
    (h : run step s as = some t) : I t := by
  refine run_history (I := fun _ => I) h0 ?_ h
  intro pre a u v hpre hu hv
  exact hstep a (hpre.subset (by simp)) u v hu hv

/-- **The projection rule.** Let a system follow another one on the actions that satisfy `p`
and stand still on the others. If both kinds of steps keep a relation between the states, then
the actions that satisfy `p` are a run of the following system, and its end is related. -/
theorem run_filter {τ : Type*} {step' : τ → α → Option τ} {R : σ → τ → Prop} {p : α → Bool}
    {s s' : σ} {t : τ} {as : List α} (h0 : R s t)
    (hskip : ∀ a ∈ as, ¬ p a = true → ∀ u v x, R u x → step u a = some v → R v x)
    (hfollow : ∀ a ∈ as, p a = true → ∀ u v x, R u x → step u a = some v →
      ∃ y, step' x a = some y ∧ R v y)
    (h : run step s as = some s') : ∃ t', run step' t (as.filter p) = some t' ∧ R s' t' := by
  refine run_history (I := fun pre u => ∃ x, run step' t (pre.filter p) = some x ∧ R u x)
    ⟨t, rfl, h0⟩ ?_ h
  rintro pre a u v hpre ⟨x, hx, hux⟩ hstep
  have ha : a ∈ as := hpre.subset (by simp)
  rw [List.filter_append]
  by_cases hp : p a = true
  · obtain ⟨y, hy, hvy⟩ := hfollow a ha hp u v x hux hstep
    rw [List.filter_cons_of_pos hp]
    exact ⟨y, run_snoc_eq_some.mpr ⟨x, hx, hy⟩, hvy⟩
  · rw [List.filter_cons_of_neg hp, List.filter_nil, List.append_nil]
    exact ⟨x, hx, hskip a ha hp u v x hux hstep⟩

/-- The place of an action at which a list of actions is split. -/
theorem take_length_of_split {l pre post : List α} {a : α}
    (h : l = pre ++ a :: post) :
    pre.length < l.length ∧ l[pre.length]? = some a ∧ l.take pre.length = pre := by
  subst h
  refine ⟨?_, ?_, List.take_left⟩
  · rw [List.length_append, List.length_cons]
    exact Nat.lt_add_of_pos_right (Nat.succ_pos _)
  · rw [List.getElem?_append_right (Nat.le_refl _), Nat.sub_self]
    rfl

end ActionRun
