import LinuxPrograming.CounterProofs

/-!
# The threads of the counter come to an end (`4-Thread/task2.c`)

* **`weight_self`**, **`weight_other`** — a step takes one off what its thread has left to do.
* **`counter_completes`** — no thread takes more than `5 * K + 1` steps, there is no deadlock, and
  the counter ends at the number of threads times `K`.
-/

namespace SharedCounter

open Transition BinaryLock

variable {ι : Type} [DecidableEq ι] [Fintype ι] {K : Nat} {s s' : State ι} {p : ι}

/-- The steps that a thread has left, with `completed` iterations behind it. -/
def EntryCtrl.weight (K completed : Nat) : EntryCtrl → Nat
  | .test _ => 5 * (K - completed) + 1
  | .lock _ => 5 * (K - completed)
  | .read _ => 5 * (K - completed) - 1
  | .write _ _ => 5 * (K - completed) - 2
  | .unlock _ => 5 * (K - completed) - 3
  | .done => 0

def State.weight (K : Nat) (s : State ι) (p : ι) : Nat := (s.ctrl p).weight K (s.completed p)

omit [Fintype ι] in
theorem weight_goto (s : State ι) (p : ι) (c : EntryCtrl) :
    (s.goto p c).weight K p = c.weight K (s.completed p) :=
  congrArg (EntryCtrl.weight K (s.completed p)) (Function.update_self ..)

/-- A step of `p` takes one off. -/
theorem weight_self (hK : K < 2 ^ 32) (hI : Inv K s) (h : entry K s p = some s') :
    s'.weight K p + 1 = s.weight K p := by
  have hindex := hI.index p
  cases hc : s.ctrl p with
  | test i =>
      rw [hc] at hindex
      obtain ⟨hmod, hle⟩ := hindex
      rw [entry, hc] at h
      cases h
      have hle := hle hK
      rw [weight_goto, State.weight, hc]
      by_cases hlt : i.toNat < K
      · rw [if_pos hlt]
        rfl
      · rw [if_neg hlt]
        have hend : s.completed p = K := by omega
        show 0 + 1 = 5 * (K - s.completed p) + 1
        rw [hend, Nat.sub_self]
  | lock i =>
      rw [hc] at hindex
      have hlt := hindex.2 hK
      rw [entry, hc] at h
      obtain ⟨-, h⟩ := Option.ite_none_right_eq_some.mp h
      cases h
      show (s.goto p (.read i)).weight K p + 1 = s.weight K p
      rw [weight_goto, State.weight, hc]
      show 5 * (K - s.completed p) - 1 + 1 = 5 * (K - s.completed p)
      omega
  | read i =>
      rw [hc] at hindex
      have hlt := hindex.2 hK
      rw [entry, hc] at h
      cases h
      rw [weight_goto, State.weight, hc]
      show 5 * (K - s.completed p) - 2 + 1 = 5 * (K - s.completed p) - 1
      omega
  | write i value =>
      rw [hc] at hindex
      have hlt := hindex.2 hK
      rw [entry, hc] at h
      cases h
      show (s.goto p (.unlock i)).weight K p + 1 = s.weight K p
      rw [weight_goto, State.weight, hc]
      show 5 * (K - s.completed p) - 3 + 1 = 5 * (K - s.completed p) - 2
      omega
  | unlock i =>
      rw [hc] at hindex
      have hlt := hindex.2 hK
      rw [entry, hc] at h
      cases h
      rw [State.weight, State.weight, hc]
      show (Function.update s.ctrl p (.test (i + 1)) p).weight K
        (Function.update s.completed p (s.completed p + 1) p) + 1 = _
      rw [Function.update_self, Function.update_self]
      show 5 * (K - (s.completed p + 1)) + 1 + 1 = 5 * (K - s.completed p) - 3
      omega
  | done => rw [entry, hc] at h; cases h

omit [Fintype ι] in
/-- What a step of `p` leaves alone. -/
theorem entry_frame (h : entry K s p = some s') {q : ι} (hq : q ≠ p) :
    s'.ctrl q = s.ctrl q ∧ s'.completed q = s.completed q := by
  rw [entry] at h
  cases hc : s.ctrl p with
  | lock i =>
      rw [hc] at h
      obtain ⟨-, h⟩ := Option.ite_none_right_eq_some.mp h
      cases h
      exact ⟨Function.update_of_ne hq .., rfl⟩
  | unlock i =>
      rw [hc] at h
      cases h
      exact ⟨Function.update_of_ne hq .., Function.update_of_ne hq ..⟩
  | done => rw [hc] at h; cases h
  | _ =>
      rw [hc] at h
      cases h
      exact ⟨Function.update_of_ne hq .., rfl⟩

/-- When no thread can move, all have finished. -/
theorem Inv.done_of_stuck (hI : Inv K s) (hstuck : ∀ p, entry K s p = none) (p : ι) :
    s.ctrl p = .done := by
  -- the holder of the mutex could move
  have hout : ∀ q, (s.ctrl q).holds = false := by
    intro q
    have hnone := hstuck q
    rw [entry] at hnone
    cases hc : s.ctrl q with
    | test i => rfl
    | lock i => rfl
    | done => rfl
    | _ => rw [hc] at hnone; cases hnone
  have hfree : s.lock = none := by
    cases hl : s.lock with
    | none => rfl
    | some q => cases ((hI.lock q).mpr hl).symm.trans (hout q)
  have hnone := hstuck p
  rw [entry] at hnone
  cases hc : s.ctrl p with
  | lock i =>
      simp only [hc, if_pos hfree] at hnone
      cases hnone
  | done => rfl
  | _ => rw [hc] at hnone; cases hnone

/-- **ALL THREADS FINISH.**  In every order a thread takes at most `5 * K + 1` steps; when no thread
    can move, each has taken them all, and the counter is the number of threads times `K`. -/
theorem counter_completes (hK : K < 2 ^ 32) {ps : List ι}
    (h : run (entry K) opening ps = some s) :
    (∀ p, ps.count p ≤ 5 * K + 1) ∧
      ((∀ p, entry K s p = none) →
        (∀ p, s.ctrl p = .done ∧ ps.count p = 5 * K + 1) ∧
        s.shared_counter.toNat = (Fintype.card ι * K) % 2 ^ 32) := by
  have hcount : ∀ p, ps.count p + s.weight K p = 5 * K + 1 :=
    count_of_run (Inv K) (State.weight K) (fun _ _ _ hI hs => hI.step hs)
      (fun _ _ _ hI hs => weight_self hK hI hs)
      (fun s p s' q _ hs hq => by
        obtain ⟨hctrl, hcompleted⟩ := entry_frame hs hq
        rw [State.weight, State.weight, hctrl, hcompleted])
      (Inv.opening K) h
  have hreach := reachable_of_run h
  have hI : Inv K s := hreach.invariant (Inv.opening K) fun _ _ _ hI _ hs => hI.step hs
  refine ⟨fun p => (hcount p) ▸ Nat.le_add_right .., fun hstuck => ?_⟩
  have hdone := hI.done_of_stuck hstuck
  refine ⟨fun p => ⟨hdone p, ?_⟩, ?_⟩
  · have hp := hcount p
    rw [State.weight, hdone p] at hp
    exact hp
  · have hincrements : ∀ p, s.increments p = K := by
      intro p
      have hindex := hI.index p
      rw [hdone p] at hindex
      rw [State.increments, hdone p]
      exact hindex
    rw [hI.count, Finset.sum_const_nat fun p _ => hincrements p, Finset.card_univ]

/-- The theorem for two threads with one iteration each, the one after the other. -/
theorem counter_completes_two : ∃ s : State Bool,
    run (entry 1) opening (List.replicate 6 false ++ List.replicate 6 true) = some s ∧
      (List.replicate 6 false ++ List.replicate 6 true).count false ≤ 5 * 1 + 1 := by
  have hrun : ((run (entry 1) opening (List.replicate 6 false ++ List.replicate 6 true)).isSome
      = true) := by decide +kernel
  obtain ⟨s, hs⟩ := Option.isSome_iff_exists.mp hrun
  exact ⟨s, hs, (counter_completes (K := 1) (by decide) hs).1 false⟩

end SharedCounter
