import LinuxPrograming.TransitionProofs

/-!
# One slot, one flag, one condition variable (`4-Thread/task3.c`)

The producer puts a value into `data`, raises `data_ready` and signals; the customer waits for the
flag, logs the value and lowers the flag.  A step is one call or one access to the shared
variables; `log_info` and `sleep` only delay.

The customer waits for the flag to go up.  Nothing waits for it to go down: the producer's next
round may overwrite a value the customer has been signalled for and has not read yet.

* **`Handoff.Inv`** — while the producer never writes over an unread value, what has been written is
  what has been logged, followed by at most one value, which is in `data`.
* **`handoff_in_order`** — under that condition nothing is lost and nobody is left waiting.
* **`overwritten_value`**, **`stranded_customer`** — without it, both go wrong.
-/

namespace Handoff

open Transition

/-! ## The program -/

inductive Thread where
  | producer
  | customer
deriving DecidableEq

/-- Where the producer is in round `i`: before the call or access that the control point names. -/
inductive ProducerCtrl where
  | test (i : Nat)
  | lock (i : Nat)
  | write (i : Nat)
  | ready (i : Nat)
  | signal (i : Nat)
  | unlock (i : Nat)
  | done
deriving DecidableEq

/-- Where the customer is in round `i`.  `asleep` is inside `pthread_cond_wait`, with the mutex
    released; `woken` is inside it as well, but unblocked and waiting for the mutex. -/
inductive CustomerCtrl where
  | test (i : Nat)
  | lock (i : Nat)
  | check (i : Nat)
  | wait (i : Nat)
  | asleep (i : Nat)
  | woken (i : Nat)
  | log (i : Nat)
  | clear (i : Nat)
  | unlock (i : Nat)
  | done
deriving DecidableEq

/-- What has happened to `data` (ghost). -/
inductive Event where
  | wrote (v : Nat)
  | logged (v : Nat)
deriving DecidableEq

structure State where
  lock       : Option Thread
  data       : Nat
  data_ready : Bool
  producer   : ProducerCtrl
  customer   : CustomerCtrl
  history    : List Event

/-- Who moves.  The producer's step carries the result of `rand()`, and `wake` is a spurious
    wake-up. -/
inductive Act where
  | producer (rand : Nat)
  | customer
  | wake

/-- `pthread_cond_signal`: a customer in the wait is unblocked. -/
def CustomerCtrl.signalled : CustomerCtrl → CustomerCtrl
  | .asleep i => .woken i
  | c         => c

/-- The producer, with `n` rounds. -/
def producer (n rand : Nat) (s : State) : Option State :=
  match s.producer with
  | .test i   => some { s with producer := if i < n then .lock i else .done }
  | .lock i   =>
      if s.lock = none then some { s with lock := some .producer, producer := .write i } else none
  | .write i  =>
      some { s with data := rand % 100, producer := .ready i,
                    history := s.history ++ [.wrote (rand % 100)] }
  | .ready i  => some { s with data_ready := true, producer := .signal i }
  | .signal i => some { s with customer := s.customer.signalled, producer := .unlock i }
  | .unlock i => some { s with lock := none, producer := .test (i + 1) }
  | .done     => none

/-- The customer, with `n` rounds. -/
def customer (n : Nat) (s : State) : Option State :=
  match s.customer with
  | .test i   => some { s with customer := if i < n then .lock i else .done }
  | .lock i   =>
      if s.lock = none then some { s with lock := some .customer, customer := .check i } else none
  | .check i  => some { s with customer := if s.data_ready then .log i else .wait i }
  | .wait i   => some { s with lock := none, customer := .asleep i }
  | .asleep _ => none
  | .woken i  =>
      if s.lock = none then some { s with lock := some .customer, customer := .check i } else none
  | .log i    => some { s with customer := .clear i, history := s.history ++ [.logged s.data] }
  | .clear i  => some { s with data_ready := false, customer := .unlock i }
  | .unlock i => some { s with lock := none, customer := .test (i + 1) }
  | .done     => none

/-- One step of a thread, or a spurious wake-up. -/
def step (n : Nat) (s : State) : Act → Option State
  | .producer rand => producer n rand s
  | .customer      => customer n s
  | .wake          =>
      match s.customer with
      | .asleep i => some { s with customer := .woken i }
      | _         => none

/-- The initialized globals, and both threads before their first round.  `main` only creates and
    joins them, the customer first; a thread may be as slow as it likes about its first step. -/
def opening : State := ⟨none, 0, false, .test 0, .test 0, []⟩

/-! ## Written and logged -/

/-- The values the producer wrote, in order. -/
def written (h : List Event) : List Nat :=
  h.filterMap fun
    | .wrote v  => some v
    | .logged _ => none

/-- The values the customer logged, in order. -/
def logged (h : List Event) : List Nat :=
  h.filterMap fun
    | .wrote _  => none
    | .logged v => some v

@[simp] theorem written_wrote (h : List Event) (v : Nat) :
    written (h ++ [.wrote v]) = written h ++ [v] := by simp [written]
@[simp] theorem written_logged (h : List Event) (v : Nat) :
    written (h ++ [.logged v]) = written h := by simp [written]
@[simp] theorem logged_wrote (h : List Event) (v : Nat) :
    logged (h ++ [.wrote v]) = logged h := by simp [logged]
@[simp] theorem logged_logged (h : List Event) (v : Nat) :
    logged (h ++ [.logged v]) = logged h ++ [v] := by simp [logged]

/-- The producer is through, the customer is not, and it sleeps with nothing to wake it. -/
def Stranded (n : Nat) (s : State) : Prop :=
  s.producer = .done ∧ (∃ i, i < n ∧ s.customer = .asleep i) ∧ s.data_ready = false

/-- The producer does not write `data` while `data_ready` is up. -/
def WritesWhenTaken (s : State) : Act → Prop
  | .producer _ => ∀ i, s.producer = .write i → s.data_ready = false
  | _           => True

/-! ## The invariant -/

/-- The producer is between `pthread_mutex_lock` and `pthread_mutex_unlock`. -/
def ProducerCtrl.holds : ProducerCtrl → Bool
  | .write _ | .ready _ | .signal _ | .unlock _ => true
  | _ => false

/-- The customer has the mutex; it has not while it waits on the condition. -/
def CustomerCtrl.holds : CustomerCtrl → Bool
  | .check _ | .wait _ | .log _ | .clear _ | .unlock _ => true
  | _ => false

/-- The producer has written `data` and not raised the flag yet. -/
def ProducerCtrl.storing : ProducerCtrl → Bool
  | .ready _ => true
  | _ => false

/-- The customer has seen the flag up, and logs next. -/
def CustomerCtrl.logging : CustomerCtrl → Bool
  | .log _ => true
  | _ => false

/-- The customer has logged the value and not lowered the flag yet. -/
def CustomerCtrl.clearing : CustomerCtrl → Bool
  | .clear _ => true
  | _ => false

/-- The number of values written, by where the producer is. -/
def ProducerCtrl.Wrote (n count : Nat) : ProducerCtrl → Prop
  | .test i | .lock i | .write i => count = i
  | .ready i | .signal i | .unlock i => count = i + 1
  | .done => n ≤ count

/-- The number of values logged, by where the customer is. -/
def CustomerCtrl.Logged (count : Nat) : CustomerCtrl → Prop
  | .test i | .lock i | .check i | .wait i | .asleep i | .woken i | .log i => count = i
  | .clear i | .unlock i => count = i + 1
  | .done => True

/-- `data` holds a value that the customer has not logged. -/
def State.unread (s : State) : Bool :=
  s.producer.storing || (s.data_ready && !s.customer.clearing)

/-- **The invariant of runs that never write over an unread value.** -/
structure Inv (n : Nat) (s : State) : Prop where
  producer : s.producer.holds = true ↔ s.lock = some .producer
  customer : s.customer.holds = true ↔ s.lock = some .customer
  raised   : s.customer.logging = true ∨ s.customer.clearing = true → s.data_ready = true
  wrote    : s.producer.Wrote n (written s.history).length
  logged   : s.customer.Logged (logged s.history).length
  slot     : written s.history = Handoff.logged s.history ++ if s.unread then [s.data] else []

namespace Inv

variable {n : Nat} {s s' : State}

/-- A holder of the mutex keeps the other thread out. -/
theorem customer_out (hI : Inv n s) (h : s.lock ≠ some .customer) : s.customer.holds = false :=
  Bool.eq_false_iff.mpr fun hc => h (hI.customer.mp hc)

theorem producer_out (hI : Inv n s) (h : s.lock ≠ some .producer) : s.producer.holds = false :=
  Bool.eq_false_iff.mpr fun hp => h (hI.producer.mp hp)

/-- Outside the mutex the customer neither logs nor clears. -/
theorem idle_customer {c : CustomerCtrl} (h : c.holds = false) :
    c.logging = false ∧ c.clearing = false := by
  cases c <;> first | exact ⟨rfl, rfl⟩ | cases h

/-- Outside the mutex the producer stores nothing. -/
theorem idle_producer {c : ProducerCtrl} (h : c.holds = false) : c.storing = false := by
  cases c <;> first | rfl | cases h

/-- The producer moves to `c` and leaves the shared variables alone. -/
theorem producer_moves (hI : Inv n s) {c : ProducerCtrl} {lock : Option Thread}
    (hp : c.holds = true ↔ lock = some .producer)
    (hc : s.customer.holds = true ↔ lock = some .customer)
    (hstoring : c.storing = s.producer.storing)
    (hwrote : c.Wrote n (written s.history).length) :
    Inv n { s with lock := lock, producer := c } := by
  refine ⟨hp, hc, hI.raised, hwrote, hI.logged, ?_⟩
  have hunread : ({ s with lock := lock, producer := c } : State).unread = s.unread := by
    simp [State.unread, hstoring]
  rw [hunread]
  exact hI.slot

/-- The customer moves to `c` and leaves the shared variables alone. -/
theorem customer_moves (hI : Inv n s) {c : CustomerCtrl} {lock : Option Thread}
    (hp : s.producer.holds = true ↔ lock = some .producer)
    (hc : c.holds = true ↔ lock = some .customer)
    (hclearing : c.clearing = s.customer.clearing)
    (hraised : c.logging = true → s.data_ready = true)
    (hlogged : c.Logged (Handoff.logged s.history).length) :
    Inv n { s with lock := lock, customer := c } := by
  refine ⟨hp, hc, ?_, hI.wrote, hlogged, ?_⟩
  · rintro (hlog | hclear)
    · exact hraised hlog
    · exact hI.raised (Or.inr (hclearing ▸ hclear))
  · have hunread : ({ s with lock := lock, customer := c } : State).unread = s.unread := by
      simp [State.unread, hclearing]
    rw [hunread]
    exact hI.slot

/-- **A step of the producer keeps the invariant**, if it does not write over an unread value. -/
theorem producerStep {rand : Nat} (hI : Inv n s)
    (hok : ∀ i, s.producer = .write i → s.data_ready = false)
    (h : Handoff.producer n rand s = some s') : Inv n s' := by
  have hw := hI.wrote
  have hprod := hI.producer
  have hslot := hI.slot
  cases hc : s.producer with
  | done => rw [Handoff.producer, hc] at h; cases h
  | test i =>
      rw [hc] at hw hprod
      rw [Handoff.producer, hc] at h
      cases h
      by_cases hlt : i < n
      · rw [if_pos hlt]
        exact hI.producer_moves hprod hI.customer (by rw [hc]; rfl) hw
      · rw [if_neg hlt]
        exact hI.producer_moves hprod hI.customer (by rw [hc]; rfl)
          (show n ≤ _ from hw ▸ Nat.le_of_not_lt hlt)
  | lock i =>
      rw [hc] at hw
      rw [Handoff.producer, hc] at h
      obtain ⟨hfree, h⟩ := Option.ite_none_right_eq_some.mp h
      cases h
      have hcust : s.customer.holds = false := hI.customer_out (by rw [hfree]; simp)
      exact hI.producer_moves (iff_of_true rfl rfl) (iff_of_false (by simp [hcust]) (by simp))
        (by rw [hc]; rfl) hw
  | write i =>
      rw [hc] at hw hprod
      rw [Handoff.producer, hc] at h
      cases h
      have hdown : s.data_ready = false := hok i hc
      -- nothing is unread, so the new value is the only one
      simp only [State.unread, hc, ProducerCtrl.storing, hdown, Bool.false_and, Bool.or_self,
        Bool.false_eq_true, if_false, List.append_nil] at hslot
      refine ⟨hprod, hI.customer, hI.raised, ?_, ?_, ?_⟩
      · show (written (s.history ++ [.wrote (rand % 100)])).length = i + 1
        rw [written_wrote, List.length_append, hw]
        rfl
      · show s.customer.Logged (Handoff.logged (s.history ++ [.wrote (rand % 100)])).length
        rw [logged_wrote]
        exact hI.logged
      · simp only [State.unread, ProducerCtrl.storing, Bool.true_or, if_true, written_wrote,
          logged_wrote, hslot]
  | ready i =>
      rw [hc] at hw hprod
      rw [Handoff.producer, hc] at h
      cases h
      have hcust : s.customer.holds = false := hI.customer_out (by rw [hprod.mp rfl]; simp)
      simp only [State.unread, hc, ProducerCtrl.storing, Bool.true_or, if_true] at hslot
      refine ⟨hprod, hI.customer, fun _ => rfl, hw, hI.logged, ?_⟩
      simp only [State.unread, ProducerCtrl.storing, (idle_customer hcust).2, Bool.not_false,
        Bool.and_self, Bool.or_true, if_true]
      exact hslot
  | signal i =>
      rw [hc] at hw hprod
      rw [Handoff.producer, hc] at h
      cases h
      have hstep := hI.producer_moves (c := .unlock i) hprod hI.customer (by rw [hc]; rfl) hw
      -- waking the customer changes none of what the invariant looks at
      cases hcust : s.customer with
      | asleep j =>
          have hlog := hI.logged
          have hheld := hI.customer
          rw [hcust] at hlog hheld
          exact hstep.customer_moves (c := .woken j) hprod hheld (by rw [hcust]; rfl)
            (fun h => by cases h) hlog
      | _ => rw [hcust] at hstep; exact hstep
  | unlock i =>
      rw [hc] at hw hprod
      rw [Handoff.producer, hc] at h
      cases h
      have hcust : s.customer.holds = false := hI.customer_out (by rw [hprod.mp rfl]; simp)
      exact hI.producer_moves (iff_of_false (by simp [ProducerCtrl.holds]) (by simp))
        (iff_of_false (by simp [hcust]) (by simp)) (by rw [hc]; rfl) hw

/-- **A step of the customer keeps the invariant.** -/
theorem customerStep (hI : Inv n s) (h : Handoff.customer n s = some s') : Inv n s' := by
  have hl := hI.logged
  have hcust := hI.customer
  have hslot := hI.slot
  cases hc : s.customer with
  | asleep i => rw [Handoff.customer, hc] at h; cases h
  | done => rw [Handoff.customer, hc] at h; cases h
  | test i =>
      rw [hc] at hl hcust
      rw [Handoff.customer, hc] at h
      cases h
      by_cases hlt : i < n
      · rw [if_pos hlt]
        exact hI.customer_moves hI.producer hcust (by rw [hc]; rfl) (fun h => by cases h) hl
      · rw [if_neg hlt]
        exact hI.customer_moves hI.producer hcust (by rw [hc]; rfl) (fun h => by cases h) trivial
  | lock i | woken i =>
      rw [hc] at hl
      rw [Handoff.customer, hc] at h
      obtain ⟨hfree, h⟩ := Option.ite_none_right_eq_some.mp h
      cases h
      have hprod : s.producer.holds = false := hI.producer_out (by rw [hfree]; simp)
      exact hI.customer_moves (iff_of_false (by simp [hprod]) (by simp)) (iff_of_true rfl rfl)
        (by rw [hc]; rfl) (fun h => by cases h) hl
  | check i =>
      rw [hc] at hl hcust
      rw [Handoff.customer, hc] at h
      cases h
      by_cases hready : s.data_ready = true
      · rw [if_pos hready]
        exact hI.customer_moves hI.producer hcust (by rw [hc]; rfl) (fun _ => hready) hl
      · rw [if_neg hready]
        exact hI.customer_moves hI.producer hcust (by rw [hc]; rfl) (fun h => by cases h) hl
  | wait i | unlock i =>
      rw [hc] at hl hcust
      rw [Handoff.customer, hc] at h
      cases h
      have hprod : s.producer.holds = false := hI.producer_out (by rw [hcust.mp rfl]; simp)
      exact hI.customer_moves (iff_of_false (by simp [hprod]) (by simp))
        (iff_of_false (by simp [CustomerCtrl.holds]) (by simp)) (by rw [hc]; rfl)
        (fun h => by cases h) hl
  | log i =>
      rw [hc] at hl hcust
      rw [Handoff.customer, hc] at h
      cases h
      have hup : s.data_ready = true := hI.raised (Or.inl (by rw [hc]; rfl))
      have hprod : s.producer.holds = false := hI.producer_out (by rw [hcust.mp rfl]; simp)
      -- the one unread value is the one logged
      simp only [State.unread, hc, idle_producer hprod, CustomerCtrl.clearing, hup, Bool.not_false,
        Bool.and_self, Bool.or_true, if_true] at hslot
      refine ⟨hI.producer, hcust, fun _ => hup, ?_, ?_, ?_⟩
      · show s.producer.Wrote n (written (s.history ++ [.logged s.data])).length
        rw [written_logged]
        exact hI.wrote
      · show (Handoff.logged (s.history ++ [.logged s.data])).length = i + 1
        rw [logged_logged, List.length_append, hl]
        rfl
      · simp only [State.unread, idle_producer hprod, CustomerCtrl.clearing, Bool.not_true,
          Bool.and_false, Bool.or_self, Bool.false_eq_true, if_false, List.append_nil,
          written_logged, logged_logged]
        exact hslot
  | clear i =>
      rw [hc] at hl hcust
      rw [Handoff.customer, hc] at h
      cases h
      simp only [State.unread, hc, CustomerCtrl.clearing, Bool.not_true, Bool.and_false,
        Bool.or_false] at hslot
      refine ⟨hI.producer, hcust, fun h => h.elim (fun h => by cases h) (fun h => by cases h),
        hI.wrote, hl, ?_⟩
      simp only [State.unread, Bool.false_and, Bool.or_false]
      exact hslot

/-- **One step of anybody keeps the invariant.** -/
theorem step {a : Act} (hI : Inv n s) (hok : WritesWhenTaken s a)
    (h : Handoff.step n s a = some s') : Inv n s' := by
  cases a with
  | producer rand => exact hI.producerStep hok h
  | customer => exact hI.customerStep h
  | wake =>
      have hl := hI.logged
      have hcust := hI.customer
      cases hc : s.customer with
      | asleep i =>
          rw [hc] at hl hcust
          rw [Handoff.step, hc] at h
          cases h
          exact hI.customer_moves hI.producer hcust (by rw [hc]; rfl) (fun h => by cases h) hl
      | _ => rw [Handoff.step, hc] at h; cases h

end Inv

theorem Inv.opening (n : Nat) : Inv n opening where
  producer := iff_of_false (by decide) (by decide)
  customer := iff_of_false (by decide) (by decide)
  raised   := fun h => h.elim (fun h => by cases h) (fun h => by cases h)
  wrote    := rfl
  logged   := rfl
  slot     := rfl

/-! ## In order, or not -/

/-- **NOTHING IS LOST IF THE PRODUCER WAITS ITS TURN.**  In every run in which the producer writes
    `data` only while `data_ready` is down, the customer logs a prefix of what has been written,
    and it is never left asleep after the producer has finished. -/
theorem handoff_in_order {n : Nat} {s : State} (h : Reach (step n) WritesWhenTaken opening s) :
    logged s.history <+: written s.history ∧ ¬ Stranded n s := by
  have hI : Inv n s := h.invariant (Inv.opening n) fun _ _ _ hI hok hs => hI.step hok hs
  refine ⟨⟨_, hI.slot.symm⟩, ?_⟩
  rintro ⟨hdone, ⟨i, hlt, hasleep⟩, hdown⟩
  have hwrote := hI.wrote
  have hlogged := hI.logged
  have hslot := hI.slot
  rw [hdone] at hwrote
  rw [hasleep] at hlogged
  -- with the flag down, everything written has been logged
  simp only [State.unread, hdone, hdown, ProducerCtrl.storing, Bool.false_and, Bool.or_self,
    Bool.false_eq_true, if_false, List.append_nil] at hslot
  rw [hslot, show (logged s.history).length = i from hlogged] at hwrote
  exact absurd hlt (Nat.not_lt_of_le hwrote)

instance (s : State) (a : Act) : Decidable (WritesWhenTaken s a) := by
  cases a with
  | producer rand =>
      cases hc : s.producer with
      | write i =>
          exact decidable_of_iff (s.data_ready = false)
            ⟨fun h j _ => h, fun h => h i hc⟩
      | _ => exact isTrue fun j hj => nomatch hc.symm.trans hj
  | customer => exact isTrue trivial
  | wake => exact isTrue trivial

/-- One round of each thread, in turn. -/
def inTurn (rand : Nat) : List Act :=
  List.replicate 6 (.producer rand) ++ List.replicate 6 .customer

/-- The theorem after two rounds in turn. -/
theorem two_rounds_in_order : ∃ s, Reach (step 2) WritesWhenTaken opening s ∧
    logged s.history = [5, 7] ∧ logged s.history <+: written s.history ∧ ¬ Stranded 2 s := by
  obtain ⟨s, hs, hf⟩ : ∃ s, Reach (step 2) WritesWhenTaken opening s ∧
      logged s.history = [5, 7] :=
    reach_of_runWhen_map _ _ _ (inTurn 5 ++ inTurn 7) _ (by decide +kernel)
  exact ⟨s, hs, hf, handoff_in_order hs⟩

/-- Two rounds of the producer before the customer, asleep since the start, gets the mutex. -/
def overtaken : List Act :=
  List.replicate 4 .customer ++ List.replicate 6 (.producer 5) ++ List.replicate 6 (.producer 7)
    ++ List.replicate 3 .customer

/-- **A value is overwritten**: with the code's ten rounds the customer logs the second value and
    never sees the first. -/
theorem overwritten_value :
    ¬ ∀ (n : Nat) (s : State), Reachable (step n) opening s →
      logged s.history <+: written s.history ∧ ¬ Stranded n s := by
  intro hall
  obtain ⟨s, hs, hf⟩ : ∃ s, Reachable (step 10) opening s ∧
      (logged s.history, written s.history) = ([7], [5, 7]) :=
    reachable_of_run_map _ _ overtaken _ (by decide +kernel)
  have hprefix := (hall 10 s hs).1
  rw [show logged s.history = [7] from congrArg Prod.fst hf,
    show written s.history = [5, 7] from congrArg Prod.snd hf] at hprefix
  exact absurd hprefix (by decide)

/-- **The customer is left waiting**: with two rounds, after the same start, the producer finishes
    and the customer sleeps on a lowered flag. -/
theorem stranded_customer : ∃ s, Reachable (step 2) opening s ∧ Stranded 2 s := by
  obtain ⟨s, hs, hf⟩ : ∃ s, Reachable (step 2) opening s ∧
      (s.producer, s.customer, s.data_ready) = (.done, .asleep 1, false) :=
    reachable_of_run_map _ _
      (overtaken ++ .producer 0 :: List.replicate 6 .customer) _ (by decide +kernel)
  simp only [Prod.mk.injEq] at hf
  obtain ⟨hdone, hasleep, hdown⟩ := hf
  exact ⟨s, hs, hdone, ⟨1, by decide, hasleep⟩, hdown⟩

end Handoff
