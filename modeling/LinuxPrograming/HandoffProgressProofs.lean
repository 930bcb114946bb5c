import LinuxPrograming.HandoffWakeProofs

/-!
# How the handoff ends (`4-Thread/task3.c`)

The customer needs as many values as the producer writes, and each value that is overwritten is one
that it does not get.  So the program comes to an end if no value is overwritten, and otherwise the
customer waits for ever, and `main` waits for it in `pthread_join`.

* **`Tally`** — how many values have been written and logged, by where the threads are.
* **`weight_step`** — beside spurious wake-ups, every step brings the threads closer to their end.
* **`handoff_settles`** — the two ways in which every run ends.
-/

namespace Handoff

open Transition

/-! ## Logged values have been written -/

@[simp] theorem written_nil : written [] = [] := rfl
@[simp] theorem logged_nil : logged [] = [] := rfl

/-- A part of a history from its start is a history. -/
theorem Fresh.of_append {h h' : List Event} (hF : Fresh (h ++ h')) : Fresh h := by
  intro pre v post heq
  refine hF pre v (post ++ h') ?_
  rw [heq, List.append_assoc, List.cons_append]

/-- The values logged are some of those written, in their order. -/
theorem Fresh.logged_sublist {h : List Event} (hF : Fresh h) :
    (logged h).Sublist (written h) := by
  induction hlen : h.length using Nat.strongRecOn generalizing h with
  | ind k ih =>
      subst hlen
      rcases List.eq_nil_or_concat h with rfl | ⟨pre, e, rfl⟩
      · exact List.Sublist.refl _
      · rw [List.concat_eq_append] at hF ih ⊢
        have hpre : Fresh pre := hF.of_append
        cases e with
        | wrote v =>
            rw [written_wrote, logged_wrote]
            refine (ih pre.length ?_ hpre rfl).trans (List.sublist_append_left _ _)
            rw [List.length_append, List.length_singleton]
            exact Nat.lt_succ_self _
        | logged v =>
            -- the write of the value is directly in front of its log
            obtain ⟨earlier, rfl⟩ := hF pre v [] rfl
            rw [written_logged, logged_logged, written_wrote, logged_wrote]
            refine (ih earlier.length ?_ hpre.of_append rfl).append (List.Sublist.refl [v])
            rw [List.length_append, List.length_append, List.length_singleton]
            omega

/-! ## Where the threads are -/

/-- The number of values written, and that the rounds go up to `n`. -/
def ProducerCtrl.Stands (n count : Nat) : ProducerCtrl → Prop
  | .test i => count = i ∧ i ≤ n
  | .lock i | .write i => count = i ∧ i < n
  | .ready i | .signal i | .unlock i => count = i + 1 ∧ i < n
  | .done => count = n

/-- The number of values logged, and that the rounds go up to `n`. -/
def CustomerCtrl.Stands (n count : Nat) : CustomerCtrl → Prop
  | .test i => count = i ∧ i ≤ n
  | .lock i | .check i | .wait i | .asleep i | .woken i | .log i => count = i ∧ i < n
  | .clear i | .unlock i => count = i + 1 ∧ i < n
  | .done => count = n

/-- The steps that the producer has left, and three for each signal. -/
def ProducerCtrl.weight (n : Nat) : ProducerCtrl → Nat
  | .test i => 9 * (n - i) + 1
  | .lock i => 9 * (n - i)
  | .write i => 9 * (n - i) - 1
  | .ready i => 9 * (n - i) - 2
  | .signal i => 9 * (n - i) - 3
  | .unlock i => 9 * (n - i) - 7
  | .done => 0

/-- The most steps that the customer has left, unless it is woken up once more. -/
def CustomerCtrl.weight (n : Nat) : CustomerCtrl → Nat
  | .test i => 7 * (n - i) + 1
  | .lock i | .woken i => 7 * (n - i)
  | .check i => 7 * (n - i) - 1
  | .wait i => 7 * (n - i) - 2
  | .asleep i | .log i => 7 * (n - i) - 3
  | .clear i => 7 * (n - i) - 4
  | .unlock i => 7 * (n - i) - 5
  | .done => 0

def State.weight (n : Nat) (s : State) : Nat := s.producer.weight n + s.customer.weight n

/-- A spurious wake-up. -/
def Act.spurious : Act → Bool
  | .wake => true
  | _ => false

/-- The counts of both threads. -/
structure Tally (n : Nat) (s : State) : Prop where
  wrote  : s.producer.Stands n (written s.history).length
  logged : s.customer.Stands n (logged s.history).length

theorem Tally.opening (n : Nat) : Tally n Handoff.opening where
  wrote := ⟨rfl, Nat.zero_le n⟩
  logged := ⟨rfl, Nat.zero_le n⟩

theorem signalled_stands {n count : Nat} {c : CustomerCtrl} (h : c.Stands n count) :
    c.signalled.Stands n count := by
  cases c with
  | asleep i => exact h
  | _ => exact h

/-- A signal costs the customer at most the way back to the flag. -/
theorem signalled_weight (n : Nat) (c : CustomerCtrl) : c.signalled.weight n ≤ c.weight n + 3 := by
  cases c with
  | asleep i =>
      show 7 * (n - i) ≤ 7 * (n - i) - 3 + 3
      omega
  | _ => exact Nat.le_add_right _ _

variable {n : Nat} {s s' : State}

/-- The producer moves on and logs nothing. -/
theorem Tally.producer_moves (hT : Tally n s) {c : ProducerCtrl}
    (hcust : s'.customer = s.customer)
    (hlogged : Handoff.logged s'.history = Handoff.logged s.history)
    (hc : s'.producer = c) (hstands : c.Stands n (written s'.history).length)
    (hless : c.weight n < s.producer.weight n) : Tally n s' ∧ s'.weight n < s.weight n := by
  refine ⟨⟨?_, ?_⟩, ?_⟩
  · rw [hc]
    exact hstands
  · rw [hcust, hlogged]
    exact hT.logged
  · rw [State.weight, State.weight, hcust, hc]
    exact Nat.add_lt_add_right hless _

/-- The customer moves on and writes nothing. -/
theorem Tally.customer_moves (hT : Tally n s) {c : CustomerCtrl} (hprod : s'.producer = s.producer)
    (hwritten : written s'.history = written s.history) (hc : s'.customer = c)
    (hstands : c.Stands n (Handoff.logged s'.history).length)
    (hless : c.weight n < s.customer.weight n) : Tally n s' ∧ s'.weight n < s.weight n := by
  refine ⟨⟨?_, ?_⟩, ?_⟩
  · rw [hprod, hwritten]
    exact hT.wrote
  · rw [hc]
    exact hstands
  · rw [State.weight, State.weight, hprod, hc]
    exact Nat.add_lt_add_left hless _

/-- **A step of the producer.** -/
theorem Tally.producerStep {rand : Nat} (hT : Tally n s)
    (h : Handoff.producer n rand s = some s') : Tally n s' ∧ s'.weight n < s.weight n := by
  have hw := hT.wrote
  rw [Handoff.producer] at h
  cases hc : s.producer with
  | test i =>
      rw [hc] at hw h
      cases h
      obtain ⟨hcount, hle⟩ := hw
      by_cases hlt : i < n
      · rw [if_pos hlt]
        exact hT.producer_moves rfl rfl rfl ⟨hcount, hlt⟩ (by rw [hc]; exact Nat.lt_succ_self _)
      · rw [if_neg hlt]
        exact hT.producer_moves rfl rfl rfl
          (hcount.trans (Nat.le_antisymm hle (Nat.le_of_not_lt hlt)))
          (by rw [hc]; exact Nat.succ_pos _)
  | lock i =>
      rw [hc] at hw
      simp only [hc] at h
      obtain ⟨-, heq⟩ := Option.ite_none_right_eq_some.mp h
      cases heq
      have hlt : i < n := hw.2
      refine hT.producer_moves rfl rfl rfl hw ?_
      rw [hc]
      show 9 * (n - i) - 1 < 9 * (n - i)
      omega
  | write i =>
      rw [hc] at hw h
      cases h
      obtain ⟨hcount, hlt⟩ := hw
      refine hT.producer_moves rfl (logged_wrote ..) rfl ⟨?_, hlt⟩ ?_
      · rw [written_wrote, List.length_append, hcount, List.length_singleton]
      · rw [hc]
        show 9 * (n - i) - 2 < 9 * (n - i) - 1
        omega
  | ready i =>
      rw [hc] at hw h
      cases h
      have hlt : i < n := hw.2
      refine hT.producer_moves rfl rfl rfl hw ?_
      rw [hc]
      show 9 * (n - i) - 3 < 9 * (n - i) - 2
      omega
  | signal i =>
      rw [hc] at hw h
      cases h
      refine ⟨⟨hw, signalled_stands hT.logged⟩, ?_⟩
      have hwoken := signalled_weight n s.customer
      have hlt : i < n := hw.2
      rw [State.weight, State.weight, hc]
      show 9 * (n - i) - 7 + s.customer.signalled.weight n < 9 * (n - i) - 3 + s.customer.weight n
      omega
  | unlock i =>
      rw [hc] at hw h
      cases h
      have hlt : i < n := hw.2
      refine hT.producer_moves rfl rfl rfl hw ?_
      rw [hc]
      show 9 * (n - (i + 1)) + 1 < 9 * (n - i) - 7
      omega
  | done =>
      rw [hc] at h
      cases h

/-- **A step of the customer.** -/
theorem Tally.customerStep (hT : Tally n s) (h : Handoff.customer n s = some s') :
    Tally n s' ∧ s'.weight n < s.weight n := by
  have hl := hT.logged
  rw [Handoff.customer] at h
  cases hc : s.customer with
  | test i =>
      rw [hc] at hl h
      cases h
      obtain ⟨hcount, hle⟩ := hl
      by_cases hlt : i < n
      · rw [if_pos hlt]
        exact hT.customer_moves rfl rfl rfl ⟨hcount, hlt⟩ (by rw [hc]; exact Nat.lt_succ_self _)
      · rw [if_neg hlt]
        exact hT.customer_moves rfl rfl rfl
          (hcount.trans (Nat.le_antisymm hle (Nat.le_of_not_lt hlt)))
          (by rw [hc]; exact Nat.succ_pos _)
  | lock i | woken i =>
      rw [hc] at hl
      simp only [hc] at h
      obtain ⟨-, heq⟩ := Option.ite_none_right_eq_some.mp h
      cases heq
      have hlt : i < n := hl.2
      refine hT.customer_moves rfl rfl rfl hl ?_
      rw [hc]
      show 7 * (n - i) - 1 < 7 * (n - i)
      omega
  | check i =>
      rw [hc] at hl h
      cases h
      have hlt : i < n := hl.2
      cases hready : s.data_ready with
      | true =>
          refine hT.customer_moves rfl rfl rfl hl ?_
          rw [hc]
          show 7 * (n - i) - 3 < 7 * (n - i) - 1
          omega
      | false =>
          refine hT.customer_moves rfl rfl rfl hl ?_
          rw [hc]
          show 7 * (n - i) - 2 < 7 * (n - i) - 1
          omega
  | wait i =>
      rw [hc] at hl h
      cases h
      have hlt : i < n := hl.2
      refine hT.customer_moves rfl rfl rfl hl ?_
      rw [hc]
      show 7 * (n - i) - 3 < 7 * (n - i) - 2
      omega
  | asleep i | done =>
      rw [hc] at h
      cases h
  | log i =>
      rw [hc] at hl h
      cases h
      obtain ⟨hcount, hlt⟩ := hl
      refine hT.customer_moves rfl (written_logged ..) rfl ⟨?_, hlt⟩ ?_
      · rw [logged_logged, List.length_append, hcount, List.length_singleton]
      · rw [hc]
        show 7 * (n - i) - 4 < 7 * (n - i) - 3
        omega
  | clear i =>
      rw [hc] at hl h
      cases h
      have hlt : i < n := hl.2
      refine hT.customer_moves rfl rfl rfl hl ?_
      rw [hc]
      show 7 * (n - i) - 5 < 7 * (n - i) - 4
      omega
  | unlock i =>
      rw [hc] at hl h
      cases h
      have hlt : i < n := hl.2
      refine hT.customer_moves rfl rfl rfl hl ?_
      rw [hc]
      show 7 * (n - (i + 1)) + 1 < 7 * (n - i) - 5
      omega

/-- **One step of the system.**  A spurious wake-up costs the customer the way back to the flag. -/
theorem weight_step {a : Act} (hT : Tally n s) (h : Handoff.step n s a = some s') :
    Tally n s' ∧ s'.weight n + 1 ≤ s.weight n + if a.spurious then 3 + 1 else 0 := by
  cases a with
  | producer rand => exact hT.producerStep h
  | customer => exact hT.customerStep h
  | wake =>
      have hl := hT.logged
      rw [Handoff.step] at h
      cases hc : s.customer with
      | asleep i =>
          rw [hc] at hl h
          cases h
          refine ⟨⟨hT.wrote, hl⟩, ?_⟩
          have hwoken := signalled_weight n (.asleep i)
          rw [State.weight, State.weight, hc]
          show s.producer.weight n + (CustomerCtrl.asleep i).signalled.weight n + 1
            ≤ s.producer.weight n + _ + 4
          omega
      | _ =>
          simp only [hc] at h
          cases h

/-! ## At rest -/

/-- The holder of the mutex can move. -/
theorem free_of_stuck (hA : Alert s) (hproducer : Handoff.producer n 0 s = none)
    (hcustomer : Handoff.customer n s = none) : s.lock = none := by
  cases hlock : s.lock with
  | none => rfl
  | some t =>
      exfalso
      cases t with
      | producer =>
          have hholds := hA.producer.mpr hlock
          rw [Handoff.producer] at hproducer
          cases hc : s.producer with
          | write i | ready i | signal i | unlock i =>
              rw [hc] at hproducer
              cases hproducer
          | test i | lock i | done =>
              rw [hc] at hholds
              cases hholds
      | customer =>
          have hholds := hA.customer.mpr hlock
          rw [Handoff.customer] at hcustomer
          cases hc : s.customer with
          | check i | wait i | log i | clear i | unlock i =>
              rw [hc] at hcustomer
              cases hcustomer
          | test i | lock i | asleep i | woken i | done =>
              rw [hc] at hholds
              cases hholds

/-- With the mutex free only a producer that is through stands still … -/
theorem producer_done (hfree : s.lock = none) (h : Handoff.producer n 0 s = none) :
    s.producer = .done := by
  rw [Handoff.producer] at h
  cases hc : s.producer with
  | done => rfl
  | lock i =>
      simp only [hc, hfree, if_true] at h
      cases h
  | _ =>
      rw [hc] at h
      cases h

/-- … and a customer that is through or asleep. -/
theorem customer_done_or_asleep (hfree : s.lock = none) (h : Handoff.customer n s = none) :
    s.customer = .done ∨ ∃ i, s.customer = .asleep i := by
  rw [Handoff.customer] at h
  cases hc : s.customer with
  | done => exact .inl rfl
  | asleep i => exact .inr ⟨i, rfl⟩
  | lock i | woken i =>
      simp only [hc, hfree, if_true] at h
      cases h
  | _ =>
      rw [hc] at h
      cases h

/-- The producer is through and the flag is lowered: whatever wakes the customer up, it goes back to
    sleep. -/
structure LeftWaiting (i : Nat) (history : List Event) (s : State) : Prop where
  producer : s.producer = .done
  lowered  : s.data_ready = false
  customer : s.customer = .asleep i ∨ s.customer = .woken i ∨ s.customer = .check i ∨
    s.customer = .wait i
  history  : s.history = history

theorem LeftWaiting.step {i : Nat} {history : List Event} {a : Act}
    (hL : LeftWaiting i history s) (h : Handoff.step n s a = some s') :
    LeftWaiting i history s' := by
  obtain ⟨hdone, hdown, hcustomer, hhistory⟩ := hL
  cases a with
  | producer rand =>
      rw [Handoff.step, Handoff.producer, hdone] at h
      cases h
  | customer =>
      rw [Handoff.step, Handoff.customer] at h
      rcases hcustomer with hc | hc | hc | hc
      · rw [hc] at h
        cases h
      · rw [hc] at h
        obtain ⟨-, heq⟩ := Option.ite_none_right_eq_some.mp h
        cases heq
        exact ⟨hdone, hdown, .inr (.inr (.inl rfl)), hhistory⟩
      · rw [hc, hdown] at h
        cases h
        exact ⟨hdone, rfl, .inr (.inr (.inr rfl)), hhistory⟩
      · rw [hc] at h
        cases h
        exact ⟨hdone, hdown, .inl rfl, hhistory⟩
  | wake =>
      rw [Handoff.step] at h
      rcases hcustomer with hc | hc | hc | hc <;> rw [hc] at h <;> cases h
      exact ⟨hdone, hdown, .inr (.inl rfl), hhistory⟩

/-- It is never through, and logs nothing more. -/
theorem LeftWaiting.for_ever {i : Nat} {history : List Event} (hL : LeftWaiting i history s)
    (h : Reachable (Handoff.step n) s s') : s'.customer ≠ .done ∧ s'.history = history := by
  have hL' : LeftWaiting i history s' := h.invariant hL fun _ _ _ hL _ hs => hL.step hs
  refine ⟨?_, hL'.history⟩
  intro hdone
  rcases hL'.customer with hc | hc | hc | hc <;> cases hc.symm.trans hdone

/-- **HOW THE HANDOFF ENDS.**  In every order of the steps, with `n` rounds, the threads take at
    most `16 * n + 2` steps, beside four for each spurious wake-up.  When only such a wake-up is left
    the producer has written its `n` values, and either the customer is through and has logged all
    of them, or it has logged fewer and sleeps on a lowered flag; then it never logs anything more,
    whatever wakes it up. -/
theorem handoff_settles {as : List Act} (h : run (step n) opening as = some s) :
    as.length ≤ 16 * n + 2 + 4 * as.countP Act.spurious ∧
    (Stuck (step n) (fun _ a => a ≠ .wake) s →
      s.producer = .done ∧ (written s.history).length = n ∧
      (logged s.history).Sublist (written s.history) ∧
      ((s.customer = .done ∧ logged s.history = written s.history) ∨
        ((logged s.history).length < n ∧ s.customer = .asleep (logged s.history).length ∧
          s.data_ready = false ∧
          ∀ s', Reachable (step n) s s' → s'.customer ≠ .done ∧ s'.history = s.history))) := by
  have hreach := reachable_of_run h
  have hA : Alert s := hreach.invariant Alert.opening fun _ _ _ hA _ hs => hA.step hs
  have hT : Tally n s :=
    hreach.invariant (Tally.opening n) fun _ _ _ hT _ hs => (weight_step hT hs).1
  constructor
  · have hlen := length_le_of_runWhen_idle (Tally n) (State.weight n) Act.spurious 3
      (fun _ _ _ hT _ hs => (weight_step hT hs).1) (fun _ _ _ hT _ hs => (weight_step hT hs).2)
      (Tally.opening n) (runWhen_of_run h)
    have hopening : Handoff.opening.weight n = 9 * (n - 0) + 1 + (7 * (n - 0) + 1) := rfl
    omega
  · intro hstuck
    have hproducer : Handoff.producer n 0 s = none :=
      hstuck (.producer 0) (fun h => (by cases h))
    have hcustomer : Handoff.customer n s = none := hstuck .customer (fun h => (by cases h))
    have hfree := free_of_stuck hA hproducer hcustomer
    have hdone := producer_done hfree hproducer
    have hwrote := hT.wrote
    rw [hdone] at hwrote
    have hsub := hA.fresh.logged_sublist
    refine ⟨hdone, hwrote, hsub, ?_⟩
    have hlogged := hT.logged
    rcases customer_done_or_asleep hfree hcustomer with hc | ⟨i, hc⟩
    · rw [hc] at hlogged
      exact .inl ⟨hc, hsub.eq_of_length (hlogged.trans hwrote.symm)⟩
    · rw [hc] at hlogged
      obtain ⟨hcount, hlt⟩ := hlogged
      rw [hcount]
      have hdown : s.data_ready = false := by
        rw [Bool.eq_false_iff]
        intro hup
        have hsignal := hA.notified (by rw [hc]; rfl) hup
        rw [hdone] at hsignal
        cases hsignal
      have hleft : LeftWaiting i s.history s := ⟨hdone, hdown, .inl hc, rfl⟩
      exact .inr ⟨hlt, hc, hdown, fun s' hs' => hleft.for_ever hs'⟩

/-- The theorem where the second value overwrites the first one: the customer logs it and sleeps. -/
theorem handoff_settles_stranded : ∃ s, Reachable (step 2) opening s ∧
    Stuck (step 2) (fun _ a => a ≠ .wake) s ∧ s.history = [.wrote 5, .wrote 7, .logged 7] ∧
    ∀ s', Reachable (step 2) s s' → s'.customer ≠ .done ∧ s'.history = s.history := by
  obtain ⟨s, hs, hf⟩ := Option.map_eq_some_iff.mp
    (show (run (step 2) opening (overtaken ++ .producer 0 :: List.replicate 6 .customer)).map
        (fun s => (s.producer, s.customer, s.history))
      = some (.done, .asleep 1, [.wrote 5, .wrote 7, .logged 7]) by decide +kernel)
  simp only [Prod.mk.injEq] at hf
  obtain ⟨hdone, hasleep, hhistory⟩ := hf
  have hstuck : Stuck (step 2) (fun _ a => a ≠ .wake) s := by
    intro a ha
    cases a with
    | producer rand => simp only [step, producer, hdone]
    | customer => simp only [step, customer, hasleep]
    | wake => exact absurd rfl ha
  refine ⟨s, reachable_of_run hs, hstuck, hhistory, ?_⟩
  obtain ⟨-, -, -, ⟨hend, -⟩ | ⟨-, -, -, hever⟩⟩ := (handoff_settles hs).2 hstuck
  · rw [hasleep] at hend
    cases hend
  · exact hever

end Handoff
