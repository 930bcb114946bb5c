import Mathlib.Data.Fintype.BigOperators
import LinuxPrograming.TransitionProofs
import LinuxPrograming.BinaryLockProofs
import LinuxPrograming.ByteStreamProofs

/-!
# A counter under a mutex (`4-Thread/task2.c`)

Each thread adds one to `shared_counter`, `K` times, and holds the mutex while it does.  The
addition is a read and a write, so a step is one call, one read or one write.

* **`Inv`** — who is inside, what it has read, and how many increments have been written.
* **`counter_counts`** — with the mutex free the counter is the number of completed iterations, and
  in the end it is the number of threads times `K`; both modulo `2 ^ 32`, the range of a `uint32_t`.
-/

namespace SharedCounter

open Transition BinaryLock

/-! ## The program -/

/-- Where a thread is in iteration `i` of `entry`: before the call or access that the control point
    names. -/
inductive EntryCtrl where
  | test (i : UInt32)
  | lock (i : UInt32)
  | read (i : UInt32)
  | write (i value : UInt32)
  | unlock (i : UInt32)
  | done
deriving DecidableEq

/-- The globals of the program and its threads.  `completed` (ghost) counts the iterations that a
    thread has been through. -/
structure State (ι : Type) where
  lock           : Option ι
  shared_counter : UInt32
  ctrl           : ι → EntryCtrl
  completed      : ι → Nat

variable {ι : Type} [DecidableEq ι]

def State.goto (s : State ι) (p : ι) (c : EntryCtrl) : State ι :=
  { s with ctrl := Function.update s.ctrl p c }

/-- The next step of thread `p` in `entry`, whose loop runs while `i < K`. -/
def entry (K : Nat) (s : State ι) (p : ι) : Option (State ι) :=
  match s.ctrl p with
  | .test i        => some (s.goto p (if i.toNat < K then .lock i else .done))
  | .lock i        => if s.lock = none then some { s.goto p (.read i) with lock := some p } else none
  | .read i        => some (s.goto p (.write i s.shared_counter))
  | .write i value => some { s.goto p (.unlock i) with shared_counter := value + 1 }
  | .unlock i      =>
      some { s.goto p (.test (i + 1)) with
        lock := none, completed := Function.update s.completed p (s.completed p + 1) }
  | .done          => none

/-- The initialized globals, and no thread has taken a step. -/
def opening : State ι := ⟨none, 0, fun _ => .test 0, fun _ => 0⟩

/-! ## The invariant -/

/-- Between `pthread_mutex_lock` and `pthread_mutex_unlock`. -/
def EntryCtrl.holds : EntryCtrl → Bool
  | .read _ | .write _ _ | .unlock _ => true
  | _ => false

/-- The increment that has been written in an iteration that is not completed. -/
def EntryCtrl.stored : EntryCtrl → Nat
  | .unlock _ => 1
  | _ => 0

/-- The increments that thread `p` has written. -/
def State.increments (s : State ι) (p : ι) : Nat := s.completed p + (s.ctrl p).stored

/-- The loop index against the number of completed iterations.  The index wraps, so the two agree
    only if the bound is in the range of the index; otherwise the loop never ends. -/
def EntryCtrl.Index (K completed : Nat) : EntryCtrl → Prop
  | .test i => completed % 2 ^ 32 = i.toNat ∧ (K < 2 ^ 32 → completed ≤ K)
  | .lock i | .read i | .write i _ | .unlock i =>
      completed % 2 ^ 32 = i.toNat ∧ (K < 2 ^ 32 → completed < K)
  | .done => completed = K

/-- **The invariant.** -/
structure Inv [Fintype ι] (K : Nat) (s : State ι) : Prop where
  lock  : OwnedBy s.lock fun p => (s.ctrl p).holds = true
  value : ∀ p i v, s.ctrl p = .write i v → v = s.shared_counter
  index : ∀ p, (s.ctrl p).Index K (s.completed p)
  count : s.shared_counter.toNat = (Finset.univ.sum s.increments) % 2 ^ 32

omit [DecidableEq ι] in
theorem stored_of_outside {c : EntryCtrl} (h : c.holds = false) : c.stored = 0 := by
  cases c <;> first | rfl | cases h

namespace Inv

variable [Fintype ι] {K : Nat} {s s' : State ι} {p : ι}

/-- **What has to be checked of a step of `p`**: its own part, and that it changes the counter only
    while it holds the mutex and by what it has added to its increments. -/
theorem of_move (hI : Inv K s) (hctrl : ∀ q, q ≠ p → s'.ctrl q = s.ctrl q)
    (hcompleted : ∀ q, q ≠ p → s'.completed q = s.completed q)
    (hlock : OwnedBy s'.lock fun q => (s'.ctrl q).holds = true)
    (hvalue : ∀ i v, s'.ctrl p = .write i v → v = s'.shared_counter)
    (hkeep : s'.shared_counter = s.shared_counter ∨ (s.ctrl p).holds = true)
    (hindex : (s'.ctrl p).Index K (s'.completed p))
    (hcount : (s'.shared_counter.toNat + s.increments p) % 2 ^ 32
      = (s.shared_counter.toNat + s'.increments p) % 2 ^ 32) : Inv K s' := by
  refine ⟨hlock, ?_, ?_, ?_⟩
  · intro q i v hq
    by_cases hqp : q = p
    · subst hqp
      exact hvalue i v hq
    · rw [hctrl q hqp] at hq
      rw [hI.value q i v hq]
      refine (hkeep.resolve_right ?_).symm
      -- two threads would be inside
      intro hp
      exact hqp (hI.lock.unique hp (by rw [hq]; rfl))
  · intro q
    by_cases hqp : q = p
    · subst hqp
      exact hindex
    · rw [hctrl q hqp, hcompleted q hqp]
      exact hI.index q
  · have hsum := sum_replace (f := s'.increments) (g := s.increments) p fun q hq => by
      rw [State.increments, State.increments, hctrl q hq, hcompleted q hq]
    have hold := hI.count
    have hlt := s'.shared_counter.toNat_lt
    omega

omit [DecidableEq ι] in
theorem opening (K : Nat) : Inv K (opening (ι := ι)) where
  lock  := fun p => iff_of_false (by simp [SharedCounter.opening, EntryCtrl.holds])
    (by simp [SharedCounter.opening])
  value := fun p i v h => by cases h
  index := fun p => ⟨rfl, fun _ => Nat.zero_le K⟩
  count := by
    have hnone : Finset.univ.sum (SharedCounter.opening (ι := ι)).increments = 0 :=
      Finset.sum_eq_zero fun p _ => rfl
    rw [hnone]
    rfl

/-- What the moved thread holds, when it holds the mutex as before. -/
theorem lock_keep (hI : Inv K s) {c : EntryCtrl} (hc : c.holds = (s.ctrl p).holds) :
    OwnedBy s.lock fun q => (Function.update s.ctrl p c q).holds = true := by
  refine hI.lock.keep ?_
  intro q
  by_cases hqp : q = p
  · subst hqp
    rw [Function.update_self, hc]
  · rw [Function.update_of_ne hqp]

/-- A step of `p` inside `entry` that changes neither the counter nor the mutex. -/
theorem goto (hI : Inv K s) {c : EntryCtrl} (hc : c.holds = (s.ctrl p).holds)
    (hstored : c.stored = (s.ctrl p).stored)
    (hvalue : ∀ i v, c = .write i v → v = s.shared_counter)
    (hindex : c.Index K (s.completed p)) : Inv K (s.goto p c) := by
  have hself : (s.goto p c).ctrl p = c := Function.update_self ..
  refine hI.of_move (p := p) (fun q hq => Function.update_of_ne hq ..) (fun _ _ => rfl)
    (hI.lock_keep hc) ?_ (Or.inl rfl) ?_ ?_
  · rw [hself]
    exact hvalue
  · rw [hself]
    exact hindex
  · have hsame : (s.goto p c).increments p = s.increments p := by
      rw [State.increments, State.increments, hself, hstored]
      rfl
    rw [hsame]
    rfl

/-- **A step of any thread keeps the invariant.** -/
theorem step (hI : Inv K s) (h : entry K s p = some s') : Inv K s' := by
  have hindex := hI.index p
  cases hc : s.ctrl p with
  | test i =>
      rw [hc] at hindex
      obtain ⟨hmod, hle⟩ := hindex
      rw [entry, hc] at h
      cases h
      have hi := i.toNat_lt
      by_cases hlt : i.toNat < K
      · rw [if_pos hlt]
        exact hI.goto (by rw [hc]; rfl) (by rw [hc]; rfl) (fun i v h => (by cases h))
          ⟨hmod, by omega⟩
      · rw [if_neg hlt]
        have hend : s.completed p = K := by omega
        exact hI.goto (by rw [hc]; rfl) (by rw [hc]; rfl) (fun i v h => (by cases h)) hend
  | lock i =>
      rw [hc] at hindex
      rw [entry, hc] at h
      obtain ⟨hfree, h⟩ := Option.ite_none_right_eq_some.mp h
      cases h
      have hself : (s.goto p (.read i)).ctrl p = .read i := Function.update_self ..
      refine hI.of_move (p := p) (fun q hq => Function.update_of_ne hq ..) (fun _ _ => rfl)
        ?_ ?_ (Or.inl rfl) (by rw [hself]; exact hindex) ?_
      · refine (hfree ▸ hI.lock).acquire ?_
        intro q
        by_cases hqp : q = p
        · subst hqp
          exact iff_of_true (by rw [hself]; rfl) (Or.inl rfl)
        · simp [State.goto, hqp]
      · intro j v hw
        cases hself.symm.trans hw
      · simp [State.increments, State.goto, hc, EntryCtrl.stored]
  | read i =>
      rw [hc] at hindex
      rw [entry, hc] at h
      cases h
      refine hI.goto (by rw [hc]; rfl) (by rw [hc]; rfl) ?_ hindex
      intro j v hw
      cases hw
      rfl
  | write i value =>
      rw [hc] at hindex
      rw [entry, hc] at h
      cases h
      -- nobody else has been inside since the read
      have hvalue : value = s.shared_counter := hI.value p i value hc
      have hself : (s.goto p (.unlock i)).ctrl p = .unlock i := Function.update_self ..
      refine hI.of_move (p := p) (fun q hq => Function.update_of_ne hq ..) (fun _ _ => rfl)
        (hI.lock_keep (by rw [hc]; rfl)) ?_ (Or.inr (by rw [hc]; rfl))
        (by rw [hself]; exact hindex) ?_
      · intro j v hw
        cases hself.symm.trans hw
      · have hinc : s.increments p = s.completed p := by rw [State.increments, hc]; rfl
        simp only [State.increments, State.goto, Function.update_self, EntryCtrl.stored, hc, hvalue,
          UInt32.toNat_add, UInt32.toNat_one]
        omega
  | unlock i =>
      rw [hc] at hindex
      obtain ⟨hmod, hlt⟩ := hindex
      rw [entry, hc] at h
      cases h
      have hself : (s.goto p (.test (i + 1))).ctrl p = .test (i + 1) := Function.update_self ..
      refine hI.of_move (p := p) (fun q hq => Function.update_of_ne hq ..)
        (fun q hq => Function.update_of_ne hq ..) ?_ ?_ (Or.inl rfl) ?_ ?_
      · refine hI.lock.release (p := p) (by rw [hc]; rfl) ?_
        intro q
        by_cases hqp : q = p
        · subst hqp
          exact iff_of_false (by rw [hself]; exact fun h => by cases h) (fun h => h.1 rfl)
        · simp [State.goto, hqp]
      · intro j v hw
        cases hself.symm.trans hw
      · simp only [State.goto, Function.update_self, EntryCtrl.Index, UInt32.toNat_add,
          UInt32.toNat_one]
        omega
      · simp [State.increments, State.goto, hc, EntryCtrl.stored]
  | done => rw [entry, hc] at h; cases h

end Inv

/-! ## No increment is lost -/

/-- **NO INCREMENT IS LOST.**  With the mutex free `shared_counter` is the number of completed
    iterations modulo `2 ^ 32`, whoever ran in between; when all `T` threads have finished that
    is `T * K`. -/
theorem counter_counts [Fintype ι] {K : Nat} {s : State ι} (h : Reachable (entry K) opening s) :
    (s.lock = none → s.shared_counter.toNat = (Finset.univ.sum s.completed) % 2 ^ 32) ∧
    ((∀ p, s.ctrl p = .done) →
      s.shared_counter.toNat = (Fintype.card ι * K) % 2 ^ 32) := by
  have hI : Inv K s := h.invariant (Inv.opening K) fun _ _ _ hI _ hs => hI.step hs
  have hfree : (∀ p, (s.ctrl p).holds = false) →
      s.shared_counter.toNat = (Finset.univ.sum s.completed) % 2 ^ 32 := by
    intro hout
    rw [hI.count]
    have hsame : s.increments = s.completed := by
      funext p
      rw [State.increments, stored_of_outside (hout p), Nat.add_zero]
    rw [hsame]
  constructor
  · intro hlock
    refine hfree ?_
    intro p
    exact Bool.eq_false_iff.mpr ((hlock ▸ hI.lock).outside_of_free p)
  · intro hdone
    rw [hfree fun p => by rw [hdone p]; rfl]
    have hK : ∀ p, s.completed p = K := by
      intro p
      have hindex := hI.index p
      rw [hdone p] at hindex
      exact hindex
    simp [hK]

/-- The theorem for two threads with two iterations each, in an order in which each one waits for
    the mutex while the other is inside. -/
theorem counter_counts_two : ∃ s : State Bool, Reachable (entry 2) opening s ∧
    (∀ p, s.ctrl p = .done) ∧ s.shared_counter.toNat = (Fintype.card Bool * 2) % 2 ^ 32 := by
  obtain ⟨s, hs, hf⟩ : ∃ s : State Bool, Reachable (entry 2) opening s ∧
      (s.ctrl false, s.ctrl true) = (.done, .done) :=
    reachable_of_run_map _ _
      [false, true, false, false, false, false, true, true, false, true, true, false, false, false,
        false, false, true, true, true, true, true, true] _ (by decide +kernel)
  simp only [Prod.mk.injEq] at hf
  have hdone : ∀ p, s.ctrl p = .done := by
    intro p
    cases p with
    | false => exact hf.1
    | true => exact hf.2
  exact ⟨s, hs, hdone, (counter_counts hs).2 hdone⟩

end SharedCounter
