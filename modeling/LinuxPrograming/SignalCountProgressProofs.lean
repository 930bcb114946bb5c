import LinuxPrograming.SignalCountProofs

/-!
# How the counting of signals ends (`5-Signal/task3.c`)

The parent sends a fixed number of signals and then only waits, so that nothing goes on for ever;
what differs from run to run is where the child stands when nothing moves any more.

* **`Bounds`** — in every run the child has counted no more than has been sent.
* **`weight_step`** — every step brings the two processes closer to their end.
* **`counting_settles`** — the three ways in which every run ends.
-/

namespace SignalCount

open Transition

variable {N : Nat} {s s' : State}

/-! ## What holds in every run -/

/-- The child is on its way to `exit` only with enough counted. -/
def Child.Counted (N : Nat) (c : Child) : Prop :=
  match c.ctrl with
  | .running .exit | .handler .exit | .exited => N ≤ c.count
  | _ => True

/-- **The invariant of all runs.** -/
structure Bounds (N : Nat) (s : State) : Prop where
  parent  : s.parent.Ok N
  counted : s.child.Counted N
  sent    : s.child.count + s.child.uncounted ≤ s.parent.sent
  waited  : s.parent.ctrl = .done → s.child.ctrl.ended = true

theorem Bounds.forked (N : Nat) : Bounds N forked where
  parent := Nat.zero_le N
  counted := trivial
  sent := Nat.le_refl 0
  waited := fun h => by cases h

/-- The most steps that the parent has left, and five of the child for each signal to send. -/
def Parent.weight (N : Nat) (p : Parent) : Nat :=
  match p.ctrl with
  | .test => 7 * (N - p.count) + 2
  | .kill => 7 * (N - p.count) + 8
  | .waitpid => 1
  | .done => 0

def ChildPoint.weight : ChildPoint → Nat
  | .sigaction => 4
  | .test => 3
  | .pause => 2
  | .paused | .exit => 1

/-- The most steps that the child has left, if no signal arrives. -/
def ChildCtrl.weight : ChildCtrl → Nat
  | .running p => p.weight
  | .handler back => back.resume.weight + 1
  | .exited | .killed => 0

def Child.weight (c : Child) : Nat := c.ctrl.weight + if c.pending then 5 else 0

def State.weight (N : Nat) (s : State) : Nat := s.parent.weight N + s.child.weight

/-- `kill` may make a signal pending, and does nothing else to the child. -/
theorem kill_child (c : Child) (N : Nat) :
    (c.Counted N → c.kill.Counted N) ∧ c.kill.count = c.count ∧
      c.kill.uncounted ≤ c.uncounted + 1 ∧ c.kill.ctrl = c.ctrl ∧
      c.kill.weight ≤ c.weight + 5 := by
  rw [Child.kill]
  cases hend : c.ctrl.ended with
  | true =>
      rw [if_pos rfl]
      exact ⟨id, rfl, Nat.le_succ _, rfl, Nat.le_add_right _ _⟩
  | false =>
      rw [if_neg (by simp)]
      refine ⟨id, rfl, ?_, rfl, ?_⟩
      · show 1 + c.ctrl.handling ≤ c.pending.toNat + c.ctrl.handling + 1
        omega
      · show c.ctrl.weight + 5 ≤ c.ctrl.weight + (if c.pending then 5 else 0) + 5
        omega

/-- **A step of the parent.** -/
theorem Bounds.parent_step (hB : Bounds N s) (h : parent_entry N s = some s') :
    Bounds N s' ∧ s'.weight N < s.weight N := by
  obtain ⟨hp, hc, hsent, hwaited⟩ := hB
  rw [parent_entry] at h
  rw [Parent.Ok] at hp
  rw [Parent.sent] at hsent
  cases hctrl : s.parent.ctrl with
  | test =>
      rw [hctrl] at h hp hsent
      cases h
      have hp' : s.parent.count ≤ N := hp
      have hweight : s.weight N = 7 * (N - s.parent.count) + 2 + s.child.weight := by
        rw [State.weight, Parent.weight, hctrl]
      rw [hweight]
      by_cases hlt : s.parent.count < N
      · rw [if_pos hlt]
        refine ⟨⟨⟨Nat.succ_pos _, hlt⟩, hc, hsent, fun h => (by cases h)⟩, ?_⟩
        show 7 * (N - (s.parent.count + 1)) + 8 + s.child.weight < _
        omega
      · rw [if_neg hlt]
        refine ⟨⟨Nat.le_antisymm hp' (Nat.le_of_not_lt hlt), hc, hsent, fun h => (by cases h)⟩, ?_⟩
        show 1 + s.child.weight < _
        omega
  | kill =>
      rw [hctrl] at h hp hsent
      cases h
      obtain ⟨hpos, hle⟩ : 0 < s.parent.count ∧ s.parent.count ≤ N := hp
      obtain ⟨hcounted, hcount, huncounted, -, hweight⟩ := kill_child s.child N
      have hsent' : s.child.count + s.child.uncounted ≤ s.parent.count - 1 := hsent
      refine ⟨⟨hle, hcounted hc, ?_, fun h => (by cases h)⟩, ?_⟩
      · show s.child.kill.count + s.child.kill.uncounted ≤ s.parent.count
        omega
      · rw [State.weight, State.weight, Parent.weight, Parent.weight, hctrl]
        show 7 * (N - s.parent.count) + 2 + s.child.kill.weight
          < 7 * (N - s.parent.count) + 8 + s.child.weight
        omega
  | waitpid =>
      rw [hctrl] at h hp hsent
      obtain ⟨hend, heq⟩ := Option.ite_none_right_eq_some.mp h
      cases heq
      refine ⟨⟨hp, hc, hsent, fun _ => hend⟩, ?_⟩
      rw [State.weight, State.weight, Parent.weight, Parent.weight, hctrl]
      exact Nat.add_lt_add_right Nat.zero_lt_one _
  | done =>
      rw [hctrl] at h
      cases h

/-- **A step of the child.** -/
theorem child_entry_step {c c' : Child} {ok : Bool} (hc : c.Counted N)
    (h : child_entry N c ok = some c') :
    c'.Counted N ∧ c'.count + c'.uncounted = c.count + c.uncounted ∧ c'.weight < c.weight ∧
      c.ctrl.ended = false := by
  rw [child_entry] at h
  obtain ⟨ctrl, count, pending, handled⟩ := c
  cases ctrl with
  | running p =>
      cases p with
      | sigaction =>
          cases h
          exact ⟨trivial, rfl, Nat.add_lt_add_right (Nat.lt_succ_self 3) _, rfl⟩
      | test =>
          cases h
          by_cases hlt : count < N
          · simp only [if_pos hlt]
            exact ⟨trivial, rfl, Nat.add_lt_add_right (Nat.lt_succ_self 2) _, rfl⟩
          · simp only [if_neg hlt]
            exact ⟨Nat.le_of_not_lt hlt, rfl, Nat.add_lt_add_right (by decide : 1 < 3) _, rfl⟩
      | pause =>
          cases h
          exact ⟨trivial, rfl, Nat.add_lt_add_right (Nat.lt_succ_self 1) _, rfl⟩
      | paused => cases h
      | exit =>
          cases h
          exact ⟨hc, rfl, Nat.add_lt_add_right Nat.zero_lt_one _, rfl⟩
  | handler back =>
      cases h
      refine ⟨?_, ?_, Nat.add_lt_add_right (Nat.lt_succ_self _) _, rfl⟩
      · cases back with
        | exit => exact Nat.le_succ_of_le hc
        | _ => exact trivial
      · show count + 1 + (pending.toNat + 0) = count + (pending.toNat + 1)
        omega
  | exited | killed => cases h

/-- **A delivery.** -/
theorem deliver_steps {c c' : Child} (hc : c.Counted N) (h : deliver c = some c') :
    c'.Counted N ∧ c'.count + c'.uncounted ≤ c.count + c.uncounted ∧ c'.weight < c.weight ∧
      c.ctrl.ended = false := by
  rw [deliver] at h
  obtain ⟨ctrl, count, pending, handled⟩ := c
  cases ctrl with
  | running p =>
      obtain ⟨hpending, heq⟩ := Option.ite_none_right_eq_some.mp h
      simp only at hpending heq
      subst hpending
      cases handled with
      | true =>
          cases heq
          refine ⟨?_, Nat.le_refl _, ?_, rfl⟩
          · cases p with
            | exit => exact hc
            | _ => exact trivial
          · show p.resume.weight + 1 + 0 < p.weight + 5
            cases p <;> decide
      | false =>
          cases heq
          refine ⟨trivial, ?_, Nat.succ_pos _, rfl⟩
          show count + (0 + 0) ≤ count + (1 + 0)
          omega
  | handler back | exited | killed => cases h

/-- The child changes while it has not ended. -/
theorem Bounds.child_changes (hB : Bounds N s) {c : Child} (hc : c.Counted N)
    (hsent : c.count + c.uncounted ≤ s.child.count + s.child.uncounted)
    (hless : c.weight < s.child.weight) (hlive : s.child.ctrl.ended = false) :
    Bounds N { s with child := c } ∧ ({ s with child := c } : State).weight N < s.weight N := by
  refine ⟨⟨hB.parent, hc, Nat.le_trans hsent hB.sent, ?_⟩, Nat.add_lt_add_left hless _⟩
  intro hdone
  cases hlive.symm.trans (hB.waited hdone)

/-- **One step of the system.** -/
theorem weight_step {a : Act} (hB : Bounds N s) (h : SignalCount.step N s a = some s') :
    Bounds N s' ∧ s'.weight N < s.weight N := by
  cases a with
  | parent => exact hB.parent_step h
  | child ok =>
      obtain ⟨c, hc, rfl⟩ := Option.map_eq_some_iff.mp h
      obtain ⟨hcounted, hsum, hless, hlive⟩ := child_entry_step hB.counted hc
      exact hB.child_changes hcounted (Nat.le_of_eq hsum) hless hlive
  | deliver =>
      obtain ⟨c, hc, rfl⟩ := Option.map_eq_some_iff.mp h
      obtain ⟨hcounted, hsum, hless, hlive⟩ := deliver_steps hB.counted hc
      exact hB.child_changes hcounted hsum hless hlive

/-! ## At rest -/

/-- A child that cannot go on has ended, or is in `pause` with nothing pending. -/
theorem child_at_rest {c : Child} (hchild : child_entry N c true = none)
    (hdeliver : deliver c = none) :
    c.ctrl.ended = true ∨ (c.ctrl = .running .paused ∧ c.pending = false) := by
  obtain ⟨ctrl, count, pending, handled⟩ := c
  rw [child_entry] at hchild
  rw [deliver] at hdeliver
  cases ctrl with
  | running p =>
      cases p with
      | paused =>
          refine .inr ⟨rfl, ?_⟩
          cases pending with
          | false => rfl
          | true => cases handled <;> cases hdeliver
      | _ => cases hchild
  | handler back => cases hchild
  | exited | killed => exact .inl rfl

/-- A parent that cannot go on is through, or waits for a child that has not ended. -/
theorem parent_at_rest (h : parent_entry N s = none) :
    s.parent.ctrl = .done ∨ (s.parent.ctrl = .waitpid ∧ s.child.ctrl.ended = false) := by
  rw [parent_entry] at h
  cases hctrl : s.parent.ctrl with
  | done => exact .inl rfl
  | waitpid =>
      simp only [hctrl] at h
      refine .inr ⟨rfl, ?_⟩
      cases hend : s.child.ctrl.ended with
      | false => rfl
      | true =>
          rw [hend, if_pos rfl] at h
          cases h
  | test | kill =>
      rw [hctrl] at h
      cases h

/-- No more is sent than the loop asks for. -/
theorem Parent.Ok.sent_le {p : Parent} (hp : p.Ok N) : p.sent ≤ N := by
  rw [Parent.Ok] at hp
  rw [Parent.sent]
  cases hc : p.ctrl with
  | test =>
      rw [hc] at hp
      exact hp
  | kill =>
      rw [hc] at hp
      exact Nat.le_trans (Nat.sub_le _ _) hp.2
  | waitpid | done =>
      rw [hc] at hp
      exact Nat.le_of_eq hp

/-- **HOW THE COUNTING ENDS.**  In every order of the steps, with `N` signals, the two processes
    take at most `7 * N + 6` steps, and the child never counts more than `N`.  When neither can move,
    the child has exited with all `N` counted, or it has been killed, and the parent has waited for
    it; or the two wait for each other for ever. -/
theorem counting_settles {as : List Act} (h : run (SignalCount.step N) forked as = some s) :
    as.length ≤ 7 * N + 6 ∧ s.child.count ≤ N ∧
    (Transition.Stuck (SignalCount.step N) (fun _ _ => True) s →
      (s.parent.ctrl = .done ∧ s.child.ctrl = .exited ∧ s.child.count = N) ∨
      (s.parent.ctrl = .done ∧ s.child.ctrl = .killed) ∨ Stuck s) := by
  have hB : Bounds N s :=
    (reachable_of_run h).invariant (.forked N) fun _ _ _ hB _ hs => (weight_step hB hs).1
  have hcount : s.child.count ≤ N :=
    Nat.le_trans (Nat.le_add_right _ _) (Nat.le_trans hB.sent hB.parent.sent_le)
  refine ⟨?_, hcount, ?_⟩
  · have hlen := length_le_of_runWhen (Bounds N) (State.weight N)
      (fun _ _ _ hB _ hs => (weight_step hB hs).1) (fun _ _ _ hB _ hs => (weight_step hB hs).2)
      (.forked N) (runWhen_of_run h)
    have hforked : SignalCount.forked.weight N = 7 * (N - 0) + 2 + (4 + 0) := rfl
    omega
  · intro hstuck
    have hparent : parent_entry N s = none := hstuck .parent trivial
    have hchild : child_entry N s.child true = none :=
      Option.map_eq_none_iff.mp (hstuck (.child true) trivial)
    have hdeliver : deliver s.child = none :=
      Option.map_eq_none_iff.mp (hstuck .deliver trivial)
    rcases child_at_rest hchild hdeliver with hend | ⟨hpaused, hpending⟩
    · have hdone : s.parent.ctrl = .done := by
        rcases parent_at_rest hparent with hdone | ⟨-, hlive⟩
        · exact hdone
        · cases hend.symm.trans hlive
      have hcounted := hB.counted
      rw [Child.Counted] at hcounted
      cases hc : s.child.ctrl with
      | exited =>
          rw [hc] at hcounted
          exact .inl ⟨hdone, rfl, Nat.le_antisymm hcount hcounted⟩
      | killed => exact .inr (.inl ⟨hdone, rfl⟩)
      | running p | handler back =>
          rw [hc] at hend
          cases hend
    · refine .inr (.inr ⟨?_, hpaused, hpending⟩)
      rcases parent_at_rest hparent with hdone | ⟨hwait, -⟩
      · have hend := hB.waited hdone
        rw [hpaused] at hend
        cases hend
      · exact hwait

/-- The theorem where all five signals are counted, the last one too late. -/
theorem counting_settles_in_the_gap : ∃ s, run (SignalCount.step 5) forked lastInTheGap = some s ∧
    Transition.Stuck (SignalCount.step 5) (fun _ _ => True) s ∧ s.child.count = 5 ∧ Stuck s := by
  obtain ⟨s, hs, hf⟩ := Option.map_eq_some_iff.mp
    (show (run (SignalCount.step 5) forked lastInTheGap).map
        (fun s => (s.parent.ctrl, s.child.ctrl, s.child.pending, s.child.count))
      = some (.waitpid, .running .paused, false, 5) by decide +kernel)
  simp only [Prod.mk.injEq] at hf
  obtain ⟨hwait, hpaused, hpending, hcount⟩ := hf
  have hstuck : Transition.Stuck (SignalCount.step 5) (fun _ _ => True) s := by
    intro a _
    cases a with
    | parent => simp [SignalCount.step, parent_entry, hwait, hpaused, ChildCtrl.ended]
    | child ok => simp [SignalCount.step, child_entry, hpaused]
    | deliver => simp [SignalCount.step, deliver, hpaused, hpending]
  refine ⟨s, hs, hstuck, hcount, ?_⟩
  rcases (counting_settles hs).2.2 hstuck with ⟨hdone, -⟩ | ⟨hdone, -⟩ | hends
  · cases hdone.symm.trans hwait
  · cases hdone.symm.trans hwait
  · exact hends

end SignalCount
