import LinuxPrograming.HandoffProofs

/-!
# What the mutex and the flag give in every run (`4-Thread/task3.c`)

The producer may overwrite a value, but two things never go wrong, whatever the order of steps and
however often the customer wakes up for no reason.

* **`Alert`** — the customer waits on a lowered flag only, and `data` has been written last.
* **`no_wakeup_lost`** — a customer asleep on a raised flag is still to be signalled, by a producer
  that holds the mutex; and each logged value was written since the log before it.
-/

namespace Handoff

open Transition

/-! ## Written, then logged -/

/-- Directly before each log of a value stands the write of that value. -/
def Fresh (h : List Event) : Prop :=
  ∀ pre v post, h = pre ++ .logged v :: post → ∃ earlier, pre = earlier ++ [.wrote v]

theorem Fresh.nil : Fresh [] := by
  intro pre v post h
  cases pre <;> cases h

/-- A longer history is judged by its last event alone. -/
theorem Fresh.snoc {h : List Event} {e : Event} (hF : Fresh h)
    (he : ∀ v, e = .logged v → ∃ earlier, h = earlier ++ [.wrote v]) : Fresh (h ++ [e]) := by
  intro pre v post heq
  rcases List.eq_nil_or_concat post with rfl | ⟨post, last, rfl⟩
  · obtain ⟨rfl, hlast⟩ := List.append_inj' heq rfl
    exact he v (List.cons.inj hlast).1
  · have heq' : h ++ [e] = (pre ++ .logged v :: post) ++ [last] := by
      rw [heq, List.concat_eq_append, List.append_assoc]
      rfl
    exact hF pre v post (List.append_inj' heq' rfl).1

/-! ## The invariant of all runs -/

/-- The customer has seen the flag down, and waits next. -/
def CustomerCtrl.waiting : CustomerCtrl → Bool
  | .wait _ => true
  | _ => false

/-- The customer is inside `pthread_cond_wait` and has not been unblocked. -/
def CustomerCtrl.sleeping : CustomerCtrl → Bool
  | .asleep _ => true
  | _ => false

/-- The producer has raised the flag, and signals next. -/
def ProducerCtrl.signalling : ProducerCtrl → Bool
  | .signal _ => true
  | _ => false

@[simp] theorem signalled_holds (c : CustomerCtrl) : c.signalled.holds = c.holds := by
  cases c <;> rfl
@[simp] theorem signalled_logging (c : CustomerCtrl) : c.signalled.logging = c.logging := by
  cases c <;> rfl
@[simp] theorem signalled_clearing (c : CustomerCtrl) : c.signalled.clearing = c.clearing := by
  cases c <;> rfl
@[simp] theorem signalled_waiting (c : CustomerCtrl) : c.signalled.waiting = c.waiting := by
  cases c <;> rfl
@[simp] theorem signalled_sleeping (c : CustomerCtrl) : c.signalled.sleeping = false := by
  cases c <;> rfl

/-- **The invariant of all runs.** -/
structure Alert (s : State) : Prop where
  producer : s.producer.holds = true ↔ s.lock = some .producer
  customer : s.customer.holds = true ↔ s.lock = some .customer
  raised   : s.customer.logging = true ∨ s.customer.clearing = true → s.data_ready = true
  lowered  : s.customer.waiting = true → s.data_ready = false
  notified : s.customer.sleeping = true → s.data_ready = true → s.producer.signalling = true
  latest   : s.unread = true → ∃ h, s.history = h ++ [.wrote s.data]
  fresh    : Fresh s.history

namespace Alert

variable {s s' : State}

/-- A holder of the mutex keeps the other one out. -/
theorem customer_out (hA : Alert s) (h : s.lock ≠ some .customer) : s.customer.holds = false :=
  Bool.eq_false_iff.mpr fun hc => h (hA.customer.mp hc)

theorem producer_out (hA : Alert s) (h : s.lock ≠ some .producer) : s.producer.holds = false :=
  Bool.eq_false_iff.mpr fun hp => h (hA.producer.mp hp)

/-- Outside the mutex the customer is not about to wait. -/
theorem waiting_of_outside {c : CustomerCtrl} (h : c.holds = false) : c.waiting = false := by
  cases c <;> first | rfl | cases h

/-- Outside the mutex the producer is not about to signal. -/
theorem signalling_of_outside {c : ProducerCtrl} (h : c.holds = false) : c.signalling = false := by
  cases c <;> first | rfl | cases h

/-- The producer moves to `c` and leaves the shared variables alone. -/
theorem producer_moves (hA : Alert s) {c : ProducerCtrl} {lock : Option Thread}
    (hp : c.holds = true ↔ lock = some .producer)
    (hc : s.customer.holds = true ↔ lock = some .customer)
    (hstoring : c.storing = s.producer.storing) (hquiet : s.producer.signalling = false) :
    Alert { s with lock := lock, producer := c } := by
  refine ⟨hp, hc, hA.raised, hA.lowered, ?_, ?_, hA.fresh⟩
  · intro hsleep hup
    rw [hA.notified hsleep hup] at hquiet
    cases hquiet
  · intro hunread
    refine hA.latest ?_
    rw [← hunread]
    simp only [State.unread, hstoring]

/-- The customer moves to `c`, awake, and leaves the shared variables alone. -/
theorem customer_moves (hA : Alert s) {c : CustomerCtrl} {lock : Option Thread}
    (hp : s.producer.holds = true ↔ lock = some .producer)
    (hc : c.holds = true ↔ lock = some .customer) (hclearing : c.clearing = s.customer.clearing)
    (hlogging : c.logging = true → s.data_ready = true)
    (hwaiting : c.waiting = true → s.data_ready = false)
    (hsleeping : c.sleeping = true → s.data_ready = false) :
    Alert { s with lock := lock, customer := c } := by
  refine ⟨hp, hc, ?_, hwaiting, ?_, ?_, hA.fresh⟩
  · rintro (hlog | hclear)
    · exact hlogging hlog
    · exact hA.raised (Or.inr (hclearing ▸ hclear))
  · intro hsleep hup
    rw [show s.data_ready = true from hup] at hsleeping
    cases hsleeping hsleep
  · intro hunread
    refine hA.latest ?_
    rw [← hunread]
    simp only [State.unread, hclearing]

/-- **A step of the producer keeps the invariant.** -/
theorem producerStep {n rand : Nat} (hA : Alert s) (h : Handoff.producer n rand s = some s') :
    Alert s' := by
  have hprod := hA.producer
  cases hc : s.producer with
  | test i =>
      rw [hc] at hprod
      rw [Handoff.producer, hc] at h
      cases h
      refine hA.producer_moves ?_ hA.customer ?_ (by rw [hc]; rfl)
      · rw [← hprod]
        split <;> rfl
      · rw [hc]
        split <;> rfl
  | lock i =>
      rw [Handoff.producer, hc] at h
      obtain ⟨hfree, h⟩ := Option.ite_none_right_eq_some.mp h
      cases h
      have hcust : s.customer.holds = false := hA.customer_out (by rw [hfree]; simp)
      exact hA.producer_moves (iff_of_true rfl rfl) (iff_of_false (by simp [hcust]) (by simp))
        (by rw [hc]; rfl) (by rw [hc]; rfl)
  | write i =>
      rw [hc] at hprod
      rw [Handoff.producer, hc] at h
      cases h
      refine ⟨hprod, hA.customer, hA.raised, hA.lowered, ?_, fun _ => ⟨_, rfl⟩, ?_⟩
      · intro hsleep hup
        have hsig := hA.notified hsleep hup
        rw [hc] at hsig
        cases hsig
      · exact hA.fresh.snoc fun v hv => (by cases hv)
  | ready i =>
      rw [hc] at hprod
      rw [Handoff.producer, hc] at h
      cases h
      -- the producer holds the mutex, so the customer is not about to wait on the old flag
      have hcust : s.customer.holds = false := hA.customer_out (by rw [hprod.mp rfl]; simp)
      refine ⟨hprod, hA.customer, fun _ => rfl, ?_, fun _ _ => rfl, ?_, hA.fresh⟩
      · intro hw
        cases (waiting_of_outside hcust).symm.trans hw
      · intro _
        exact hA.latest (by simp [State.unread, hc, ProducerCtrl.storing])
  | signal i =>
      rw [hc] at hprod
      rw [Handoff.producer, hc] at h
      cases h
      refine ⟨hprod, ?_, ?_, ?_, ?_, ?_, hA.fresh⟩
      · simpa using hA.customer
      · simpa using hA.raised
      · simpa using hA.lowered
      · intro hsleep
        cases (signalled_sleeping s.customer).symm.trans hsleep
      · intro hunread
        exact hA.latest (by simpa [State.unread, hc, ProducerCtrl.storing] using hunread)
  | unlock i =>
      rw [hc] at hprod
      rw [Handoff.producer, hc] at h
      cases h
      have hcust : s.customer.holds = false := hA.customer_out (by rw [hprod.mp rfl]; simp)
      exact hA.producer_moves (iff_of_false (by simp [ProducerCtrl.holds]) (by simp))
        (iff_of_false (by simp [hcust]) (by simp)) (by rw [hc]; rfl) (by rw [hc]; rfl)
  | done => rw [Handoff.producer, hc] at h; cases h

/-- **A step of the customer keeps the invariant.** -/
theorem customerStep {n : Nat} (hA : Alert s) (h : Handoff.customer n s = some s') :
    Alert s' := by
  have hcust := hA.customer
  cases hc : s.customer with
  | test i =>
      rw [hc] at hcust
      rw [Handoff.customer, hc] at h
      cases h
      by_cases hlt : i < n
      · rw [if_pos hlt]
        exact hA.customer_moves hA.producer hcust (by rw [hc]; rfl) (fun h => by cases h)
          (fun h => by cases h) (fun h => by cases h)
      · rw [if_neg hlt]
        exact hA.customer_moves hA.producer hcust (by rw [hc]; rfl) (fun h => by cases h)
          (fun h => by cases h) (fun h => by cases h)
  | lock i | woken i =>
      rw [Handoff.customer, hc] at h
      obtain ⟨hfree, h⟩ := Option.ite_none_right_eq_some.mp h
      cases h
      have hprod : s.producer.holds = false := hA.producer_out (by rw [hfree]; simp)
      exact hA.customer_moves (iff_of_false (by simp [hprod]) (by simp)) (iff_of_true rfl rfl)
        (by rw [hc]; rfl) (fun h => by cases h) (fun h => by cases h) (fun h => by cases h)
  | check i =>
      rw [hc] at hcust
      rw [Handoff.customer, hc] at h
      cases h
      by_cases hup : s.data_ready = true
      · rw [if_pos hup]
        exact hA.customer_moves hA.producer hcust (by rw [hc]; rfl) (fun _ => hup)
          (fun h => by cases h) (fun h => by cases h)
      · rw [if_neg hup]
        exact hA.customer_moves hA.producer hcust (by rw [hc]; rfl) (fun h => by cases h)
          (fun _ => Bool.eq_false_iff.mpr hup) (fun h => by cases h)
  | wait i =>
      rw [hc] at hcust
      rw [Handoff.customer, hc] at h
      cases h
      have hprod : s.producer.holds = false := hA.producer_out (by rw [hcust.mp rfl]; simp)
      -- it falls asleep in the step that gives the mutex back, with the flag down
      exact hA.customer_moves (iff_of_false (by simp [hprod]) (by simp))
        (iff_of_false (by simp [CustomerCtrl.holds]) (by simp)) (by rw [hc]; rfl)
        (fun h => by cases h) (fun h => by cases h) (fun _ => hA.lowered (by rw [hc]; rfl))
  | asleep i => rw [Handoff.customer, hc] at h; cases h
  | log i =>
      rw [hc] at hcust
      rw [Handoff.customer, hc] at h
      cases h
      have hprod : s.producer.holds = false := hA.producer_out (by rw [hcust.mp rfl]; simp)
      have hup : s.data_ready = true := hA.raised (Or.inl (by rw [hc]; rfl))
      obtain ⟨earlier, hlast⟩ := hA.latest (by simp [State.unread, hc, hup, CustomerCtrl.clearing])
      refine ⟨hA.producer, hcust, fun _ => hup, fun h => (by cases h), fun h => (by cases h), ?_, ?_⟩
      · intro hunread
        simp [State.unread, CustomerCtrl.clearing, Inv.idle_producer hprod] at hunread
      · refine hA.fresh.snoc ?_
        intro v hv
        cases hv
        exact ⟨earlier, hlast⟩
  | clear i =>
      rw [hc] at hcust
      rw [Handoff.customer, hc] at h
      cases h
      have hprod : s.producer.holds = false := hA.producer_out (by rw [hcust.mp rfl]; simp)
      refine ⟨hA.producer, hcust, ?_, fun h => (by cases h), fun h => (by cases h), ?_, hA.fresh⟩
      · rintro (hlog | hclear)
        · cases hlog
        · cases hclear
      · intro hunread
        simp [State.unread, Inv.idle_producer hprod] at hunread
  | unlock i =>
      rw [hc] at hcust
      rw [Handoff.customer, hc] at h
      cases h
      have hprod : s.producer.holds = false := hA.producer_out (by rw [hcust.mp rfl]; simp)
      exact hA.customer_moves (iff_of_false (by simp [hprod]) (by simp))
        (iff_of_false (by simp [CustomerCtrl.holds]) (by simp)) (by rw [hc]; rfl)
        (fun h => by cases h) (fun h => by cases h) (fun h => by cases h)
  | done => rw [Handoff.customer, hc] at h; cases h

/-- **One step of anybody keeps the invariant**, a spurious wake-up included. -/
theorem step {n : Nat} {a : Act} (hA : Alert s) (h : Handoff.step n s a = some s') : Alert s' := by
  cases a with
  | producer rand => exact hA.producerStep h
  | customer => exact hA.customerStep h
  | wake =>
      have hcust := hA.customer
      cases hc : s.customer with
      | asleep i =>
          rw [hc] at hcust
          rw [Handoff.step, hc] at h
          cases h
          exact hA.customer_moves hA.producer hcust (by rw [hc]; rfl) (fun h => by cases h)
            (fun h => by cases h) (fun h => by cases h)
      | _ => rw [Handoff.step, hc] at h; cases h

theorem opening : Alert Handoff.opening where
  producer := iff_of_false (by decide) (by decide)
  customer := iff_of_false (by decide) (by decide)
  raised   := fun h => h.elim (fun h => by cases h) (fun h => by cases h)
  lowered  := fun h => by cases h
  notified := fun h => by cases h
  latest   := fun h => by cases h
  fresh    := Fresh.nil

end Alert

/-! ## No wake-up is lost, and no value is read twice -/

/-- **NO WAKE-UP IS LOST.**  With the mutex free the customer is not asleep on a raised flag.  Each
    value the customer logs was written after its previous log: between the write and the log
    there is no other log, nor another write. -/
theorem no_wakeup_lost {n : Nat} {s : State} (h : Reachable (step n) opening s) :
    (s.lock = none → s.data_ready = true → ∀ i, s.customer ≠ .asleep i) ∧
    ∀ pre v post, s.history = pre ++ .logged v :: post →
      ∃ earlier, pre = earlier ++ [.wrote v] := by
  have hA : Alert s := h.invariant Alert.opening fun _ _ _ hA _ hs => hA.step hs
  refine ⟨?_, hA.fresh⟩
  intro hfree hup i hasleep
  have hsig := hA.notified (by rw [hasleep]; rfl) hup
  -- whoever is about to signal holds the mutex
  have hout := hA.producer_out (by rw [hfree]; simp)
  rw [Alert.signalling_of_outside hout] at hsig
  cases hsig

/-- The theorem where the customer, asleep since the start, wakes up once for no reason, sleeps
    again, is signalled and logs. -/
theorem no_wakeup_lost_once : ∃ s, Reachable (step 1) opening s ∧
    s.history = [.wrote 5, .logged 5] ∧ ∃ earlier, [Event.wrote 5] = earlier ++ [.wrote 5] := by
  obtain ⟨s, hs, hf⟩ : ∃ s, Reachable (step 1) opening s ∧ s.history = [.wrote 5, .logged 5] :=
    reachable_of_run_map _ _
      (List.replicate 4 .customer ++ .wake :: List.replicate 3 .customer
        ++ List.replicate 6 (.producer 5) ++ List.replicate 4 .customer) _ (by decide +kernel)
  exact ⟨s, hs, hf, (no_wakeup_lost hs).2 [.wrote 5] 5 [] hf⟩

end Handoff
