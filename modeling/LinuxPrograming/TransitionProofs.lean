import Mathlib.Logic.Function.Basic

/-!
# Labelled step functions: runs, reachable states, invariants, simulations

A system is a partial step function `step : σ → α → Option σ`: in state `s` the action `a` is
either blocked (`none`) or leads to exactly one state.  Whatever the environment decides — which
process moves next, what a system call returns — is part of the action, so quantifying over
action lists is quantifying over interleavings and over outcomes at once.

* **`run`** executes a list of actions, **`runWhen`** does so while checking a side condition on
  every step; they are what a concrete trace evaluates.
* **`Reach step ok s₀`** is reachability through steps that all meet the side condition `ok`;
  `fun _ _ => True` gives plain reachability.
* **`Reach.invariant`** packages the induction over runs once; every safety result of a system
  is then "holds initially" and "one step keeps it".
* **`countSteps`** counts the steps of a run; `countSteps_balance` compares two such numbers.
* **`Throughout`** is a property of all states that a list of actions passes through;
  `throughout_iff_runWhen` gives the exact condition on the steps for it.
* **`Reach.simulate`** is forward simulation with stuttering.
* **`Reach.exhausts`** is the variant rule: a run whose steps all lower a number, or anything with a
  well-founded order (`Reach.exhausts_of_wellFounded`), can be completed; `length_le_of_runWhen`
  bounds its length, also with idle steps (`length_le_of_runWhen_idle`), `tally_of_runWhen` adds up
  what its steps cost, and `count_of_run` counts the steps of each thread.
-/

namespace Transition

variable {σ τ α β : Type}

/-- Execute a list of actions; `none` as soon as one of them is blocked. -/
def run (step : σ → α → Option σ) : σ → List α → Option σ
  | s, []      => some s
  | s, a :: as => (step s a).bind fun s' => run step s' as

@[simp] theorem run_nil (step : σ → α → Option σ) (s : σ) : run step s [] = some s := rfl

@[simp] theorem run_cons (step : σ → α → Option σ) (s : σ) (a : α) (as : List α) :
    run step s (a :: as) = (step s a).bind fun s' => run step s' as := rfl

/-- The states reached from `s₀` by steps that all meet `ok`. -/
inductive Reach (step : σ → α → Option σ) (ok : σ → α → Prop) (s₀ : σ) : σ → Prop where
  | init : Reach step ok s₀ s₀
  | next {s s' : σ} {a : α} :
      Reach step ok s₀ s → ok s a → step s a = some s' → Reach step ok s₀ s'

/-- Plain reachability: no side condition on the steps. -/
abbrev Reachable (step : σ → α → Option σ) (s₀ s : σ) : Prop :=
  Reach step (fun _ _ => True) s₀ s

/-- No admissible step is possible. -/
def Stuck (step : σ → α → Option σ) (ok : σ → α → Prop) (s : σ) : Prop :=
  ∀ a, ok s a → step s a = none

namespace Reach

variable {step : σ → α → Option σ} {ok ok' : σ → α → Prop} {s₀ s s' : σ}

/-- **The invariant rule.**  What holds initially and is kept by every admissible step holds in
    every state reached. -/
theorem invariant {Inv : σ → Prop} (hinit : Inv s₀)
    (hstep : ∀ s a s', Inv s → ok s a → step s a = some s' → Inv s')
    (h : Reach step ok s₀ s) : Inv s := by
  induction h with
  | init => exact hinit
  | next _ hok hs ih => exact hstep _ _ _ ih hok hs

/-- Weakening the side condition. -/
theorem mono (himp : ∀ s a, ok s a → ok' s a) (h : Reach step ok s₀ s) :
    Reach step ok' s₀ s := by
  induction h with
  | init => exact .init
  | next _ hok hs ih => exact .next ih (himp _ _ hok) hs

/-- A conditioned run is a run. -/
theorem reachable (h : Reach step ok s₀ s) : Reachable step s₀ s :=
  h.mono fun _ _ _ => trivial

theorem trans (h : Reach step ok s₀ s) (h' : Reach step ok s s') : Reach step ok s₀ s' := by
  induction h' with
  | init => exact h
  | next _ hok hs ih => exact .next ih hok hs

/-- **Forward simulation with stuttering.**  Each concrete step is matched by a run of the
    abstract system, so related states are reached in lock step. -/
theorem simulate {step' : τ → β → Option τ} {ok' : τ → β → Prop} {t₀ : τ} {R : σ → τ → Prop}
    (hinit : R s₀ t₀)
    (hstep : ∀ s t a s', R s t → ok s a → step s a = some s' →
      ∃ t', Reach step' ok' t t' ∧ R s' t')
    (h : Reach step ok s₀ s) : ∃ t, Reach step' ok' t₀ t ∧ R s t := by
  induction h with
  | init => exact ⟨t₀, .init, hinit⟩
  | next _ hok hs ih =>
      obtain ⟨t, ht, hR⟩ := ih
      obtain ⟨t', ht', hR'⟩ := hstep _ _ _ _ hR hok hs
      exact ⟨t', ht.trans ht', hR'⟩

/-- **The variant rule**, for any well-founded order.  When every admissible step lowers `μ`, a run
    can always be continued until no admissible step is left. -/
theorem exhausts_of_wellFounded {ι : Type} {r : ι → ι → Prop} (hwf : WellFounded r)
    (Inv : σ → Prop) (μ : σ → ι)
    (hkeep : ∀ s a s', Inv s → ok s a → step s a = some s' → Inv s')
    (hless : ∀ s a s', Inv s → ok s a → step s a = some s' → r (μ s') (μ s)) (hs : Inv s) :
    ∃ s', Reach step ok s s' ∧ Stuck step ok s' := by
  induction hn : μ s using hwf.induction generalizing s with
  | _ n ih =>
      subst hn
      by_cases hstuck : Stuck step ok s
      · exact ⟨s, .init, hstuck⟩
      · obtain ⟨a, hok, s₁, hs₁⟩ : ∃ a, ok s a ∧ ∃ s₁, step s a = some s₁ := by
          simpa [Stuck, Option.ne_none_iff_exists'] using hstuck
        obtain ⟨s', hs', hend⟩ := ih _ (hless s a s₁ hs hok hs₁) (hkeep s a s₁ hs hok hs₁) rfl
        exact ⟨s', Reach.trans (.next .init hok hs₁) hs', hend⟩

/-- The variant rule for a number. -/
theorem exhausts (Inv : σ → Prop) (μ : σ → Nat)
    (hkeep : ∀ s a s', Inv s → ok s a → step s a = some s' → Inv s')
    (hless : ∀ s a s', Inv s → ok s a → step s a = some s' → μ s' < μ s) (hs : Inv s) :
    ∃ s', Reach step ok s s' ∧ Stuck step ok s' :=
  exhausts_of_wellFounded Nat.lt_wfRel.wf Inv μ hkeep hless hs

end Reach

/-- Execute a list of actions, checking `ok` before each one. -/
def runWhen (step : σ → α → Option σ) (ok : σ → α → Prop) [∀ s a, Decidable (ok s a)] :
    σ → List α → Option σ
  | s, []      => some s
  | s, a :: as => if ok s a then (step s a).bind fun s' => runWhen step ok s' as else none

/-- `P` holds in every state that the actions pass through, the first and the last one included. -/
def Throughout (step : σ → α → Option σ) (P : σ → Prop) : σ → List α → Prop
  | s, []      => P s
  | s, a :: as => P s ∧ ∀ s', step s a = some s' → Throughout step P s' as

/-- The number of steps of a run that meet `p`. -/
def countSteps (step : σ → α → Option σ) (p : σ → α → Prop) [∀ s a, Decidable (p s a)] :
    σ → List α → Nat
  | _, []      => 0
  | s, a :: as =>
      (step s a).elim 0 fun s' => (if p s a then 1 else 0) + countSteps step p s' as

/-- **The balance rule.**  When every step adds to `g` what it counts for `p` and takes off what it
    counts for `q`, so does every run. -/
theorem countSteps_balance {step : σ → α → Option σ} {p q : σ → α → Prop}
    [∀ s a, Decidable (p s a)] [∀ s a, Decidable (q s a)] {g : σ → Nat}
    (hstep : ∀ s a s', step s a = some s' →
      g s' + (if q s a then 1 else 0) = g s + (if p s a then 1 else 0))
    {s s' : σ} {as : List α} (h : run step s as = some s') :
    g s' + countSteps step q s as = g s + countSteps step p s as := by
  induction as generalizing s with
  | nil => cases h; rfl
  | cons a as ih =>
      obtain ⟨u, hu, hrun⟩ := Option.bind_eq_some_iff.mp h
      have h₁ := hstep s a u hu
      have h₂ := ih hrun
      simp only [countSteps, hu, Option.elim_some]
      omega

/-- What a checked run evaluates to is reached by admissible steps. -/
theorem reach_of_runWhen {step : σ → α → Option σ} {ok : σ → α → Prop}
    [∀ s a, Decidable (ok s a)] {s s' : σ} {as : List α}
    (h : runWhen step ok s as = some s') : Reach step ok s s' := by
  induction as generalizing s with
  | nil => cases h; exact .init
  | cons a as ih =>
      rw [runWhen] at h
      by_cases hok : ok s a
      · rw [if_pos hok] at h
        obtain ⟨u, hu, hrun⟩ := Option.bind_eq_some_iff.mp h
        exact Reach.trans (.next .init hok hu) (ih hrun)
      · rw [if_neg hok] at h
        cases h

/-- A checked run is a run. -/
theorem run_of_runWhen {step : σ → α → Option σ} {ok : σ → α → Prop} [∀ s a, Decidable (ok s a)]
    {s s' : σ} {as : List α} (h : runWhen step ok s as = some s') : run step s as = some s' := by
  induction as generalizing s with
  | nil => exact h
  | cons a as ih =>
      rw [runWhen] at h
      split at h
      · obtain ⟨u, hu, hrun⟩ := Option.bind_eq_some_iff.mp h
        rw [run_cons, hu]
        exact ih hrun
      · cases h

/-- A run is a checked run in which nothing is checked. -/
theorem runWhen_of_run {step : σ → α → Option σ} {s s' : σ} {as : List α}
    (h : run step s as = some s') : runWhen step (fun _ _ => True) s as = some s' := by
  induction as generalizing s with
  | nil => exact h
  | cons a as ih =>
      obtain ⟨u, hu, hrun⟩ := Option.bind_eq_some_iff.mp h
      rw [runWhen, if_pos trivial, hu]
      exact ih hrun

theorem Throughout.head {step : σ → α → Option σ} {P : σ → Prop} {s : σ} {as : List α}
    (h : Throughout step P s as) : P s := by
  cases as with
  | nil => exact h
  | cons a as => exact h.1

/-- **The exact condition.**  When admissible steps keep what guarantees `P` and every other step
    ends in a state without `P`, a run has `P` throughout exactly if all its steps are
    admissible. -/
theorem throughout_iff_runWhen {step : σ → α → Option σ} {ok : σ → α → Prop}
    [∀ s a, Decidable (ok s a)] {J P : σ → Prop} (hP : ∀ s, J s → P s)
    (hkeep : ∀ s a s', J s → ok s a → step s a = some s' → J s')
    (hbreak : ∀ s a s', J s → ¬ ok s a → step s a = some s' → ¬ P s')
    {s s' : σ} {as : List α} (hs : J s) (h : run step s as = some s') :
    Throughout step P s as ↔ runWhen step ok s as = some s' := by
  induction as generalizing s with
  | nil =>
      cases h
      exact iff_of_true (hP _ hs) rfl
  | cons a as ih =>
      obtain ⟨u, hu, hrun⟩ := Option.bind_eq_some_iff.mp h
      have hthr : Throughout step P s (a :: as) ↔ Throughout step P u as := by
        rw [Throughout, hu]
        simp [hP s hs]
      rw [hthr, runWhen, hu, Option.bind_some]
      by_cases hok : ok s a
      · rw [if_pos hok]
        exact ih (hkeep s a u hs hok hu) hrun
      · rw [if_neg hok]
        exact iff_of_false (fun hc => hbreak s a u hs hok hu hc.head) (fun hc => by cases hc)

/-- **The variant rule with idle steps.**  When every admissible step lowers `μ`, except that one
    whose action has `p` may raise it by `k`, a run has at most `μ` steps and `k + 1` for each of
    these. -/
theorem length_le_of_runWhen_idle {step : σ → α → Option σ} {ok : σ → α → Prop}
    [∀ s a, Decidable (ok s a)] (Inv : σ → Prop) (μ : σ → Nat) (p : α → Bool) (k : Nat)
    (hkeep : ∀ s a s', Inv s → ok s a → step s a = some s' → Inv s')
    (hless : ∀ s a s', Inv s → ok s a → step s a = some s' →
      μ s' + 1 ≤ μ s + if p a then k + 1 else 0)
    {s s' : σ} {as : List α} (hs : Inv s) (h : runWhen step ok s as = some s') :
    as.length + μ s' ≤ μ s + (k + 1) * as.countP p := by
  induction as generalizing s with
  | nil =>
      cases h
      exact Nat.le_of_eq (Nat.zero_add _)
  | cons a as ih =>
      rw [runWhen] at h
      obtain ⟨hok, h⟩ := Option.ite_none_right_eq_some.mp h
      obtain ⟨u, hu, hrun⟩ := Option.bind_eq_some_iff.mp h
      have hu' := hless s a u hs hok hu
      have hrest := ih (hkeep s a u hs hok hu) hrun
      rw [List.length_cons, List.countP_cons]
      cases hp : p a with
      | true =>
          rw [hp, if_pos rfl] at hu'
          rw [if_pos rfl, Nat.mul_add, Nat.mul_one]
          omega
      | false =>
          rw [hp, if_neg (by simp)] at hu'
          rw [if_neg (by simp), Nat.add_zero (List.countP p as)]
          omega

/-- **The variant rule for runs.**  When every admissible step lowers `μ`, no run has more steps
    than that. -/
theorem length_le_of_runWhen {step : σ → α → Option σ} {ok : σ → α → Prop}
    [∀ s a, Decidable (ok s a)] (Inv : σ → Prop) (μ : σ → Nat)
    (hkeep : ∀ s a s', Inv s → ok s a → step s a = some s' → Inv s')
    (hless : ∀ s a s', Inv s → ok s a → step s a = some s' → μ s' < μ s)
    {s s' : σ} {as : List α} (hs : Inv s) (h : runWhen step ok s as = some s') :
    as.length + μ s' ≤ μ s := by
  have hidle := length_le_of_runWhen_idle Inv μ (fun _ => false) 0 hkeep
    (fun s a s' hs hok hstep => hless s a s' hs hok hstep) hs h
  rw [List.countP_false] at hidle
  exact hidle

/-- **The tally rule.**  When every admissible step adds to `g` whether the action has `p`, a run
    adds the number of its actions that have. -/
theorem tally_of_runWhen {step : σ → α → Option σ} {ok : σ → α → Prop}
    [∀ s a, Decidable (ok s a)] (Inv : σ → Prop) (g : σ → Nat) (p : α → Bool)
    (hkeep : ∀ s a s', Inv s → ok s a → step s a = some s' → Inv s')
    (hadd : ∀ s a s', Inv s → ok s a → step s a = some s' → g s' = g s + if p a then 1 else 0)
    {s s' : σ} {as : List α} (hs : Inv s) (h : runWhen step ok s as = some s') :
    g s' = g s + as.countP p := by
  induction as generalizing s with
  | nil =>
      cases h
      rfl
  | cons a as ih =>
      rw [runWhen] at h
      obtain ⟨hok, h⟩ := Option.ite_none_right_eq_some.mp h
      obtain ⟨u, hu, hrun⟩ := Option.bind_eq_some_iff.mp h
      rw [ih (hkeep s a u hs hok hu) hrun, hadd s a u hs hok hu, List.countP_cons]
      omega

/-- **The rule for threads**, when an action is the thread that moves.  When a step takes one off the
    weight of its thread and leaves that of the others alone, a run has as many steps of a thread as
    it takes off its weight. -/
theorem count_of_run [DecidableEq α] {step : σ → α → Option σ} (Inv : σ → Prop)
    (weight : σ → α → Nat) (hkeep : ∀ s p s', Inv s → step s p = some s' → Inv s')
    (hself : ∀ s p s', Inv s → step s p = some s' → weight s' p + 1 = weight s p)
    (hother : ∀ s p s' q, Inv s → step s p = some s' → q ≠ p → weight s' q = weight s q)
    {s s' : σ} {ps : List α} (hs : Inv s) (h : run step s ps = some s') (p : α) :
    ps.count p + weight s' p = weight s p := by
  induction ps generalizing s with
  | nil =>
      cases h
      rw [List.count_nil, Nat.zero_add]
  | cons q ps ih =>
      obtain ⟨u, hu, hrun⟩ := Option.bind_eq_some_iff.mp h
      have hrest := ih (hkeep s q u hs hu) hrun
      by_cases hqp : q = p
      · subst hqp
        have hweight := hself s q u hs hu
        rw [List.count_cons_self]
        omega
      · rw [List.count_cons_of_ne hqp, hrest]
        exact hother s q u p hs hu (Ne.symm hqp)

/-- What a run evaluates to is reachable. -/
theorem reachable_of_run {step : σ → α → Option σ} {s s' : σ} {as : List α}
    (h : run step s as = some s') : Reachable step s s' := by
  induction as generalizing s with
  | nil => cases h; exact .init
  | cons a as ih =>
      obtain ⟨u, hu, hrun⟩ := Option.bind_eq_some_iff.mp h
      exact Reach.trans (.next .init trivial hu) (ih hrun)

/-- A fact observed on an evaluated run is a fact about some reachable state. -/
theorem reachable_of_run_map {γ : Type} (step : σ → α → Option σ) (s : σ) (as : List α)
    (f : σ → γ) {c : γ} (h : (run step s as).map f = some c) :
    ∃ s', Reachable step s s' ∧ f s' = c := by
  obtain ⟨s', hs', hf⟩ := Option.map_eq_some_iff.mp h
  exact ⟨s', reachable_of_run hs', hf⟩

/-- The same for a checked run. -/
theorem reach_of_runWhen_map {γ : Type} (step : σ → α → Option σ) (ok : σ → α → Prop)
    [∀ s a, Decidable (ok s a)] (s : σ) (as : List α) (f : σ → γ) {c : γ}
    (h : (runWhen step ok s as).map f = some c) : ∃ s', Reach step ok s s' ∧ f s' = c := by
  obtain ⟨s', hs', hf⟩ := Option.map_eq_some_iff.mp h
  exact ⟨s', reach_of_runWhen hs', hf⟩

end Transition
