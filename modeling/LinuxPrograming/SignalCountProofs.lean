import LinuxPrograming.TransitionProofs

/-!
# Counting signals (`5-Signal/task3.c`)

The parent sends `SIGUSR1` to its child `N` times and waits for it; the child installs a handler
that counts, and pauses until it has counted `N`.  Standard signals do not queue: a signal that is
sent while the same one is pending is lost.

Three orders of the steps go wrong: a signal that is delivered before `sigaction` kills the child, a
signal that is sent while one is pending is never counted, and the last signal may be delivered
after the child has tested its counter and before it pauses.

* **`Inv`** — every signal sent has been counted, is pending or is being handled.
* **`counting_completes`** — in a run in which none of the three happens the child is not killed,
  and the two processes never wait for each other.
* **`races_go_wrong`** — each of the two is broken by some order of the steps.
-/

namespace SignalCount

open Transition

/-! ## The program -/

/-- Where the child is in `child_entry`: before the statement that the point names, or blocked in
    `pause`. -/
inductive ChildPoint where
  | sigaction
  | test
  | pause
  | paused
  | exit
deriving DecidableEq

/-- The child runs `child_entry`, or the handler, which returns to a point, or has ended. -/
inductive ChildCtrl where
  | running (p : ChildPoint)
  | handler (back : ChildPoint)
  | exited
  | killed
deriving DecidableEq

/-- The child: where it is, its `count`, whether `SIGUSR1` is pending and whether it is handled. -/
structure Child where
  ctrl    : ChildCtrl
  count   : Nat
  pending : Bool
  handled : Bool
deriving DecidableEq

/-- Where the parent is in `parent_entry`. -/
inductive ParentCtrl where
  | test
  | kill
  | waitpid
  | done
deriving DecidableEq

/-- The parent and its own copy of `count`. -/
structure Parent where
  ctrl  : ParentCtrl
  count : Nat
deriving DecidableEq

structure State where
  parent : Parent
  child  : Child
deriving DecidableEq

/-- A step of the parent, a step of the child, whose `sigaction` succeeds or not, or the delivery of
    the pending signal to the child. -/
inductive Act where
  | parent
  | child (ok : Bool)
  | deliver
deriving DecidableEq

/-- The child has ended. -/
def ChildCtrl.ended : ChildCtrl → Bool
  | .exited | .killed => true
  | _ => false

/-- `kill(child, SIGUSR1)`: it succeeds on a child that has ended and not been waited for. -/
def Child.kill (c : Child) : Child := if c.ctrl.ended then c else { c with pending := true }

/-- `parent_entry`. -/
def parent_entry (N : Nat) (s : State) : Option State :=
  match s.parent.ctrl with
  | .test =>
      some { s with parent :=
        if s.parent.count < N then ⟨.kill, s.parent.count + 1⟩ else ⟨.waitpid, s.parent.count⟩ }
  | .kill => some ⟨⟨.test, s.parent.count⟩, s.child.kill⟩
  | .waitpid =>
      if s.child.ctrl.ended then some { s with parent := ⟨.done, s.parent.count⟩ } else none
  | .done => none

/-- `pause` returns after the handler. -/
def ChildPoint.resume : ChildPoint → ChildPoint
  | .paused => .test
  | p => p

/-- `child_entry` and `handle_usr1`; a failed `sigaction` is only logged. -/
def child_entry (N : Nat) (c : Child) (ok : Bool) : Option Child :=
  match c.ctrl with
  | .running .sigaction => some { c with ctrl := .running .test, handled := ok }
  | .running .test => some { c with ctrl := .running (if c.count < N then .pause else .exit) }
  | .running .pause => some { c with ctrl := .running .paused }
  | .running .paused => none
  | .running .exit => some { c with ctrl := .exited }
  | .handler back => some { c with ctrl := .running back.resume, count := c.count + 1 }
  | .exited | .killed => none

/-- The pending signal is delivered, except in the handler, which has every signal blocked: the
    handler is called, or the default action is taken. -/
def deliver (c : Child) : Option Child :=
  match c.ctrl with
  | .running p =>
      if c.pending then
        if c.handled then some { c with ctrl := .handler p, pending := false }
        else some { c with ctrl := .killed, pending := false }
      else none
  | _ => none

def step (N : Nat) (s : State) : Act → Option State
  | .parent => parent_entry N s
  | .child ok => (child_entry N s.child ok).map fun c => { s with child := c }
  | .deliver => (deliver s.child).map fun c => { s with child := c }

/-- After `fork`. -/
def forked : State := ⟨⟨.test, 0⟩, ⟨.running .sigaction, 0, false, false⟩⟩

/-- The parent waits for the child, and the child for a signal that nobody will send. -/
def Stuck (s : State) : Prop :=
  s.parent.ctrl = .waitpid ∧ s.child.ctrl = .running .paused ∧ s.child.pending = false

/-- A step that takes part in none of the three races: a signal is not sent while one is pending,
    not delivered before it is handled, and the last one not between the test and `pause`. -/
def Timely (N : Nat) (s : State) : Act → Prop
  | .parent => s.parent.ctrl = .kill → s.child.pending = false
  | .child _ => True
  | .deliver => s.child.handled = true ∧
      (s.child.count + 1 = N → s.child.ctrl ≠ .running .pause)

instance (N : Nat) (s : State) (a : Act) : Decidable (Timely N s a) := by
  cases a <;> unfold Timely <;> infer_instance

/-! ## The invariant -/

/-- The signals that the parent has sent. -/
def Parent.sent (p : Parent) : Nat :=
  match p.ctrl with
  | .kill => p.count - 1
  | _ => p.count

/-- The signals that are being handled. -/
def ChildCtrl.handling : ChildCtrl → Nat
  | .handler _ => 1
  | _ => 0

/-- The signals that have arrived and not been counted. -/
def Child.uncounted (c : Child) : Nat := c.pending.toNat + c.ctrl.handling

/-- Where the parent may be with its counter. -/
def Parent.Ok (N : Nat) (p : Parent) : Prop :=
  match p.ctrl with
  | .test => p.count ≤ N
  | .kill => 0 < p.count ∧ p.count ≤ N
  | .waitpid | .done => p.count = N

/-- Where the child may be with its counter; on its way to `pause` it still has to count. -/
def Child.Ok (N : Nat) (c : Child) : Prop :=
  match c.ctrl with
  | .running .sigaction | .running .test => True
  | .running .pause | .running .paused => c.count < N
  | .running .exit | .exited => N ≤ c.count
  | .handler .pause => c.count + 1 < N
  | .handler .exit => N ≤ c.count
  | .handler _ => True
  | .killed => False

/-- Every signal sent has been counted, is pending or is being handled. -/
structure Inv (N : Nat) (s : State) : Prop where
  parent : s.parent.Ok N
  child  : s.child.Ok N
  ledger : s.parent.sent = s.child.count + s.child.uncounted

theorem Inv.forked (N : Nat) : Inv N forked := ⟨Nat.zero_le N, trivial, rfl⟩

/-- A child that is not killed and has ended has counted everything. -/
theorem Child.Ok.counted {N : Nat} {c : Child} (h : c.Ok N) (hend : c.ctrl.ended = true) :
    N ≤ c.count := by
  rw [Child.Ok] at h
  cases hc : c.ctrl with
  | exited =>
      rw [hc] at h
      exact h
  | killed =>
      rw [hc] at h
      exact h.elim
  | running p | handler p =>
      rw [hc] at hend
      cases hend

/-- One step of the parent. -/
theorem Inv.parent_step {N : Nat} {s s' : State} (hI : Inv N s)
    (hok : s.parent.ctrl = .kill → s.child.pending = false)
    (h : parent_entry N s = some s') : Inv N s' := by
  obtain ⟨hp, hc, hledger⟩ := hI
  rw [parent_entry] at h
  rw [Parent.Ok] at hp
  rw [Parent.sent] at hledger
  cases hctrl : s.parent.ctrl with
  | test =>
      rw [hctrl] at h hp hledger
      cases h
      by_cases hlt : s.parent.count < N
      · rw [if_pos hlt]
        exact ⟨⟨Nat.succ_pos _, hlt⟩, hc, hledger⟩
      · rw [if_neg hlt]
        exact ⟨Nat.le_antisymm hp (Nat.le_of_not_lt hlt), hc, hledger⟩
  | kill =>
      rw [hctrl] at h hp hledger
      cases h
      have hpending := hok hctrl
      have hp' : 0 < s.parent.count ∧ s.parent.count ≤ N := hp
      have hledger' : s.parent.count - 1 = s.child.count + s.child.uncounted := hledger
      have halive : s.child.ctrl.ended = false := by
        -- the child has not counted `N` signals, of which the parent has not sent as many
        by_contra hend
        have := hc.counted (by simpa using hend)
        omega
      have hkill : s.child.kill = { s.child with pending := true } := by
        rw [Child.kill]
        rw [halive]
        rfl
      refine ⟨hp'.2, ?_, ?_⟩
      · show s.child.kill.Ok N
        rw [hkill]
        exact hc
      · have hone : s.child.kill.uncounted = s.child.uncounted + 1 := by
          rw [hkill]
          unfold Child.uncounted
          rw [hpending]
          show 1 + s.child.ctrl.handling = 0 + s.child.ctrl.handling + 1
          omega
        have hsame : s.child.kill.count = s.child.count := by rw [hkill]
        show s.parent.count = s.child.kill.count + s.child.kill.uncounted
        omega
  | waitpid =>
      rw [hctrl] at h hp hledger
      obtain ⟨-, heq⟩ := Option.ite_none_right_eq_some.mp h
      cases heq
      exact ⟨hp, hc, hledger⟩
  | done =>
      rw [hctrl] at h
      cases h

/-- One step of the child. -/
theorem child_step {N : Nat} {c c' : Child} {ok : Bool} (hc : c.Ok N)
    (h : child_entry N c ok = some c') :
    c'.Ok N ∧ c'.count + c'.uncounted = c.count + c.uncounted := by
  rw [child_entry] at h
  obtain ⟨ctrl, count, pending, handled⟩ := c
  cases ctrl with
  | running p =>
      cases p with
      | sigaction =>
          cases h
          exact ⟨trivial, rfl⟩
      | test =>
          cases h
          by_cases hlt : count < N
          · refine ⟨?_, by simp [Child.uncounted, ChildCtrl.handling]⟩
            simp only [if_pos hlt]
            exact hlt
          · refine ⟨?_, by simp [Child.uncounted, ChildCtrl.handling]⟩
            simp only [if_neg hlt]
            exact Nat.le_of_not_lt hlt
      | pause =>
          cases h
          exact ⟨hc, rfl⟩
      | paused => cases h
      | exit =>
          cases h
          exact ⟨hc, rfl⟩
  | handler back =>
      cases h
      constructor
      · cases back with
        | sigaction | test | paused => exact trivial
        | pause => exact hc
        | exit => exact Nat.le_succ_of_le hc
      · show count + 1 + (pending.toNat + 0) = count + (pending.toNat + 1)
        omega
  | exited | killed => cases h

/-- One delivery. -/
theorem deliver_step {N : Nat} {c c' : Child} (hc : c.Ok N) (hhandled : c.handled = true)
    (hlast : c.count + 1 = N → c.ctrl ≠ .running .pause) (h : deliver c = some c') :
    c'.Ok N ∧ c'.count + c'.uncounted = c.count + c.uncounted := by
  rw [deliver] at h
  obtain ⟨ctrl, count, pending, handled⟩ := c
  cases ctrl with
  | running p =>
      simp only at h hhandled hlast
      rw [hhandled] at h
      obtain ⟨hpending, heq⟩ := Option.ite_none_right_eq_some.mp h
      cases heq
      refine ⟨?_, by rw [hpending]; rfl⟩
      cases p with
      | sigaction | test | paused => exact trivial
      | pause =>
          -- the one delivery that would be the last does not happen here
          have hlt : count < N := hc
          have hne : count + 1 ≠ N := fun heq => hlast heq rfl
          show count + 1 < N
          omega
      | exit => exact hc
  | handler back | exited | killed => cases h

/-- One step that takes part in no race. -/
theorem Inv.step {N : Nat} {s s' : State} {a : Act} (hI : Inv N s) (hok : Timely N s a)
    (h : SignalCount.step N s a = some s') : Inv N s' := by
  cases a with
  | parent => exact hI.parent_step hok h
  | child ok =>
      obtain ⟨c, hc, rfl⟩ := Option.map_eq_some_iff.mp h
      obtain ⟨hok', hsum⟩ := child_step hI.child hc
      exact ⟨hI.parent, hok', hI.ledger.trans hsum.symm⟩
  | deliver =>
      obtain ⟨c, hc, rfl⟩ := Option.map_eq_some_iff.mp h
      obtain ⟨hok', hsum⟩ := deliver_step hI.child hok.1 hok.2 hc
      exact ⟨hI.parent, hok', hI.ledger.trans hsum.symm⟩

/-! ## Runs -/

/-- **COUNTING COMPLETES WITHOUT A RACE**: in every state of a run in which no signal is sent while
    one is pending, none is delivered before it is handled, and the last one is not delivered
    between the test and `pause`, the child has not been killed, and the two do not wait for each
    other. -/
theorem counting_completes {N : Nat} {s : State}
    (h : Reach (step N) (Timely N) forked s) : s.child.ctrl ≠ .killed ∧ ¬ Stuck s := by
  have hI : Inv N s := h.invariant (.forked N) fun _ _ _ hI hok hs => hI.step hok hs
  obtain ⟨hp, hc, hledger⟩ := hI
  constructor
  · intro hk
    rw [Child.Ok] at hc
    rw [hk] at hc
    exact hc
  -- all have been sent and none is on its way, so the child has counted them all
  · rintro ⟨hwait, hpaused, hpending⟩
    rw [Parent.Ok] at hp
    rw [Child.Ok] at hc
    unfold Parent.sent Child.uncounted at hledger
    rw [hwait] at hp hledger
    rw [hpaused] at hc hledger
    rw [hpending] at hledger
    have hp' : s.parent.count = N := hp
    have hc' : s.child.count < N := hc
    have hledger' : s.parent.count = s.child.count + (0 + 0) := hledger
    omega

/-- The parent sends a signal when the child is in `pause`, and the child counts it. -/
def oneSignal : List Act :=
  [.child true, .child true, .parent, .parent, .deliver, .child true]

/-- The theorem for two signals that are counted one after the other. -/
theorem two_signals_counted : ∃ s, Reach (step 2) (Timely 2) forked s
    ∧ (s.child.count = 2 ∧ s.child.ctrl = .exited)
    ∧ s.child.ctrl ≠ .killed ∧ ¬ Stuck s := by
  obtain ⟨s, hs, hf⟩ : ∃ s, Reach (step 2) (Timely 2) forked s
      ∧ (s.child.count, s.child.ctrl) = (2, .exited) :=
    reach_of_runWhen_map _ _ _
      (.child true :: oneSignal ++ oneSignal ++ [.child true, .child true]) _ (by decide +kernel)
  rw [Prod.mk.injEq] at hf
  exact ⟨s, hs, hf, counting_completes hs⟩

/-- Four signals are counted before the child tests its counter, the fifth one between the test and
    `pause`. -/
def lastInTheGap : List Act :=
  .child true :: (List.replicate 4 [.parent, .parent, .deliver, .child true]).flatten
    ++ [.child true, .parent, .parent, .deliver, .child true, .child true, .parent]

/-- **THE RACES GO WRONG**: with the code's five signals one order of the steps kills the child, and
    another one leaves the two waiting for each other. -/
theorem races_go_wrong :
    ¬ (∀ (N : Nat) (s : State), 0 < N → Reachable (step N) forked s →
        s.child.ctrl ≠ .killed ∧ ¬ Stuck s)
    ∧ (∃ s, Reachable (step 5) forked s ∧ s.child.ctrl = .killed)
    ∧ ∃ s, Reachable (step 5) forked s ∧ Stuck s := by
  have hkilled : ∃ s, Reachable (step 5) forked s ∧ s.child.ctrl = .killed :=
    reachable_of_run_map _ _ [.parent, .parent, .deliver] _ (by decide +kernel)
  obtain ⟨s, hs, hf⟩ : ∃ s, Reachable (step 5) forked s
      ∧ (s.parent.ctrl, s.child.ctrl, s.child.pending) = (.waitpid, .running .paused, false) :=
    reachable_of_run_map _ _ lastInTheGap _ (by decide +kernel)
  simp only [Prod.mk.injEq] at hf
  refine ⟨?_, hkilled, s, hs, hf⟩
  intro hall
  obtain ⟨s', hs', hk⟩ := hkilled
  exact (hall 5 s' (by decide) hs').1 hk

end SignalCount
