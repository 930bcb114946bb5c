import Mathlib.Data.List.Perm.Basic
import Mathlib.Algebra.BigOperators.Group.Finset.Basic
import Mathlib.Data.Fintype.Card
import LinuxPrograming.ByteStreamProofs
import LinuxPrograming.WorkerShutdownProofs

/-!
# Accepted tasks are printed (`7-Queue/`)

As long as no `SIGINT` is sent and no call of the worker fails for good, the worker stays in its
loop.  `mq_receive` may report `EAGAIN` or `EINTR` at any time, and a dispatcher may fail; a full
queue only keeps a dispatcher waiting until the worker has taken a message.

* **`Accounted`** — the tasks in the books are those of the dispatchers whose `mq_send` succeeded.
* **`accepted_tasks_printed`** — the number of steps is bounded but for fruitless receives, there is
  no deadlock, and in the end there is one line for each dispatcher that reports success.
* **`worker_drains`** — left alone, the worker prints what waits, in the order of the queue.
-/

namespace TaskQueue

open Transition CmnBase

variable {ι : Type} {attr : MqAttr} {dumpcore : Option String} {argv : ι → List CString}

/-! ## The dispatchers that succeed -/

/-- The dispatcher's `mq_send` has succeeded: it reports success, or is about to. -/
def DispatcherCtrl.succeeded : DispatcherCtrl → Bool
  | .mq_close status => status == EXIT_SUCCESS
  | .ended e => e == .exit EXIT_SUCCESS
  | _ => false

/-- The most steps that a dispatcher has left, and four of the worker for the message that it may
    send. -/
def DispatcherCtrl.weight : DispatcherCtrl → Nat
  | .start => 8
  | .mq_open _ => 7
  | .mq_send _ => 6
  | .mq_close _ => 1
  | .ended _ => 0

/-- What a dispatcher with these arguments asks for. -/
def Asks (argv : ι → List CString) (i : ι) (e : TaskEntry) : Prop :=
  ∃ m, request (argv i) = some m ∧ e.prio = m.prio.toNat ∧ e.val = m.body

/-- The line that shows a message as it was sent. -/
def lineOf (e : TaskEntry) : Line := ⟨e.prio, e.val⟩

/-- Messages that do not fill the buffer are shown as they were sent. -/
theorem output_eq {es : List TaskEntry} {ls : List Line} (h : List.Forall₂ (Shows attr) es ls)
    (hshort : ∀ e ∈ es, e.val.length < attr.mq_msgsize) : ls = es.map lineOf := by
  induction h with
  | nil => rfl
  | @cons e l es ls hshows _ ih =>
      obtain ⟨hprio, htext⟩ := hshows
      have hl : l = lineOf e := by
        obtain ⟨prio, text⟩ := l
        rw [lineOf, ← htext (hshort e List.mem_cons_self), ← hprio]
      rw [List.map_cons, ← hl, ← ih fun e he => hshort e (List.mem_cons_of_mem _ he)]

/-- `terminate` does not report success. -/
theorem not_succeeded_terminate (useExit3 : Bool) :
    (DispatcherCtrl.ended (terminate dumpcore EXIT_FAILURE useExit3)).succeeded = false := by
  have hfailed : (terminate dumpcore EXIT_FAILURE useExit3).Failed :=
    terminate_failed dumpcore useExit3 (by decide)
  rw [DispatcherCtrl.succeeded, beq_eq_false_iff_ne]
  intro heq
  rw [heq] at hfailed
  exact hfailed rfl

variable [DecidableEq ι] {s s' : State ι}

/-- **What a step of a dispatcher does**: it moves on without touching the queue, or it sends its
    message. -/
theorem dispatcherStep_cases {i : ι} {ok : Bool}
    (h : dispatcherStep attr dumpcore argv s i ok = some s') :
    (∃ c, s' = s.move i c ∧ c.weight < (s.dispatcher i).weight ∧
      c.succeeded = (s.dispatcher i).succeeded) ∨
    (∃ m, s.dispatcher i = .mq_send m ∧
      s' = { s.move i (.mq_close 0) with queue := s.queue.arrive m.prio.toNat m.body }) := by
  rw [dispatcherStep] at h
  cases hc : s.dispatcher i with
  | start =>
      simp only [hc] at h
      split at h
      · cases h
        exact .inl ⟨_, rfl, Nat.succ_pos 7, not_succeeded_terminate false⟩
      · cases h
        exact .inl ⟨_, rfl, Nat.lt_succ_self 7, rfl⟩
  | mq_open m =>
      simp only [hc] at h
      split at h
      · obtain ⟨-, heq⟩ := Option.ite_none_right_eq_some.mp h
        cases heq
        exact .inl ⟨_, rfl, Nat.lt_succ_self 6, rfl⟩
      · cases h
        exact .inl ⟨_, rfl, Nat.succ_pos 6, rfl⟩
  | mq_send m =>
      simp only [hc] at h
      cases hs : TaskQueue.mq_send ok m with
      | none =>
          rw [hs] at h
          cases h
          exact .inl ⟨_, rfl, (by decide : 1 < 6), rfl⟩
      | some m' =>
          rw [hs] at h
          obtain ⟨rfl, -, -⟩ := mq_send_eq_some.mp hs
          obtain ⟨-, heq⟩ := Option.ite_none_right_eq_some.mp h
          cases heq
          exact .inr ⟨m, rfl, rfl⟩
  | mq_close status =>
      simp only [hc] at h
      cases h
      refine .inl ⟨_, rfl, Nat.lt_succ_self 0, ?_⟩
      rw [DispatcherCtrl.succeeded, DispatcherCtrl.succeeded]
      by_cases hstatus : status = EXIT_SUCCESS
      · rw [hstatus]
        rfl
      · rw [beq_eq_false_iff_ne.mpr hstatus, beq_eq_false_iff_ne]
        intro heq
        exact hstatus (Ending.exit.inj heq)
  | ended e =>
      simp only [hc] at h
      cases h

/-- The senders of what has arrived, each once: the dispatchers that succeeded. -/
def Accounted (argv : ι → List CString) (s : State ι) : Prop :=
  ∃ senders : List ι, senders.Nodup ∧ (∀ i, i ∈ senders ↔ (s.dispatcher i).succeeded = true) ∧
    List.Forall₂ (Asks argv) senders s.queue.arrived

omit [DecidableEq ι] in
theorem Accounted.fresh (linked : Bool) : Accounted argv (State.fresh linked) := by
  refine ⟨[], List.nodup_nil, ?_, .nil⟩
  intro i
  refine iff_of_false List.not_mem_nil ?_
  intro h
  cases h

omit [DecidableEq ι] in
/-- The worker and `SIGINT` leave it alone. -/
theorem Accounted.frame (hA : Accounted argv s) (hd : s'.dispatcher = s.dispatcher)
    (hq : s'.queue.arrived = s.queue.arrived) : Accounted argv s' := by
  rw [Accounted, hd, hq]
  exact hA

/-- One step of a dispatcher. -/
theorem Accounted.dispatcher_step {i : ι} {ok : Bool} (hA : Accounted argv s)
    (hD : DispatcherInv attr argv s) (h : dispatcherStep attr dumpcore argv s i ok = some s') :
    Accounted argv s' := by
  obtain ⟨senders, hnd, hmem, hasks⟩ := hA
  rcases dispatcherStep_cases h with ⟨c, rfl, -, hsucc⟩ | ⟨m, hc, rfl⟩
  · refine ⟨senders, hnd, ?_, hasks⟩
    intro j
    rw [hmem]
    show _ ↔ (Function.update s.dispatcher i c j).succeeded = true
    by_cases hj : j = i
    · subst hj
      rw [Function.update_self, hsucc]
    · rw [Function.update_of_ne hj]
  · -- `i` has not been among the senders
    have hi : i ∉ senders := by
      intro hin
      have hsucc := (hmem i).mp hin
      rw [hc] at hsucc
      cases hsucc
    have hstage := hD.stage i
    rw [hc] at hstage
    refine ⟨senders ++ [i], ?_, ?_, ?_⟩
    · refine List.nodup_append.mpr ⟨hnd, List.nodup_singleton i, ?_⟩
      intro j hj k hk heq
      rw [List.mem_singleton.mp hk] at heq
      exact hi (heq ▸ hj)
    · intro j
      rw [List.mem_append, List.mem_singleton, hmem]
      show _ ↔ (Function.update s.dispatcher i (.mq_close 0) j).succeeded = true
      by_cases hj : j = i
      · subst hj
        rw [Function.update_self]
        exact iff_of_true (.inr rfl) rfl
      · rw [Function.update_of_ne hj]
        exact or_iff_left hj
    · exact List.rel_append hasks (.cons ⟨m, hstage, rfl, rfl⟩ .nil)

/-- One step of the system. -/
theorem Accounted.step {a : Act ι} (hA : Accounted argv s) (hD : DispatcherInv attr argv s)
    (h : TaskQueue.step attr dumpcore argv s a = some s') : Accounted argv s' := by
  cases a with
  | worker error heap =>
      obtain ⟨hd, hq⟩ := workerStep_frame h
      refine hA.frame hd ?_
      rcases hq with heq | hserve
      · rw [heq]
      · exact arrived_of_serve hserve
  | dispatcher i ok => exact hA.dispatcher_step hD h
  | sigint =>
      obtain ⟨hd, hq⟩ := sigintStep_frame h
      exact hA.frame hd (by rw [hq])

theorem Accounted.reachable {linked : Bool}
    (h : Reachable (TaskQueue.step attr dumpcore argv) (State.fresh linked) s) :
    Accounted argv s := by
  induction h with
  | init => exact .fresh linked
  | next hreach _ hs ih => exact ih.step (Inv.reachable hreach).dispatchers hs

/-! ## The worker stays in its loop -/

/-- The most steps that the worker has left before it asks for a message. -/
def WorkerCtrl.weight : WorkerCtrl → Nat
  | .sigaction => 5
  | .mq_open => 4
  | .mq_getattr | .terminateString => 3
  | .malloc | .usleep | .printf => 2
  | .test => 1
  | _ => 0

theorem WorkerCtrl.weight_le (c : WorkerCtrl) : c.weight ≤ 5 := by
  cases c <;> simp [WorkerCtrl.weight]

/-- The worker prepares its loop or is in it. -/
def WorkerCtrl.active (c : WorkerCtrl) : Bool := !c.leaving && !c.over

/-- The worker works, and goes on to. -/
structure Running (s : State ι) : Prop where
  active     : s.worker.ctrl.active = true
  is_running : s.worker.is_running = true

/-- The worker's next call succeeds, or is an `mq_receive` that finds nothing or is interrupted. -/
def State.Goes (s : State ι) (error : Option Errno) : Prop :=
  error = none ∨ (s.worker.ctrl = .mq_receive ∧ error ≠ some .other)

/-- The steps of the worker, and four for each message that waits. -/
def State.workerWeight (s : State ι) : Nat :=
  s.worker.ctrl.weight + 4 * s.queue.waiting.length

instance (s : State ι) (error : Option Errno) : Decidable (s.Goes error) :=
  inferInstanceAs (Decidable (_ ∨ _))

omit [DecidableEq ι] in
/-- Only `mq_receive` may be fruitless. -/
theorem State.Goes.preparing {error : Option Errno} (h : s.Goes error)
    (hc : s.worker.ctrl ≠ .mq_receive) : error = none := by
  rcases h with hnone | ⟨hreceive, -⟩
  · exact hnone
  · exact absurd hreceive hc

omit [DecidableEq ι] in
/-- The worker moves on, closer to its next `mq_receive`. -/
theorem Running.go {n : Nat} (hR : Running s) (hrun : s'.worker.is_running = s.worker.is_running)
    (hq : s'.queue = s.queue) (hc : s'.worker.ctrl.active = true)
    (hless : s'.worker.ctrl.weight < s.worker.ctrl.weight) :
    Running s' ∧ s'.workerWeight + 1 ≤ s.workerWeight + n := by
  refine ⟨⟨hc, hrun.trans hR.is_running⟩, ?_⟩
  rw [State.workerWeight, State.workerWeight, hq]
  omega

omit [DecidableEq ι] in
/-- **One step of a worker whose calls do not fail for good**: it goes on, and gets closer to an
    empty queue unless `mq_receive` is fruitless. -/
theorem Running.worker_step {error : Option Errno} {heap : List UInt8} (hR : Running s)
    (hgoes : s.Goes error) (h : workerStep attr dumpcore s error heap = some s') :
    Running s' ∧ s'.workerWeight + 1 ≤ s.workerWeight + if error.isSome then 3 else 0 := by
  have hactive := hR.active
  unfold workerStep at h
  cases hc : s.worker.ctrl with
  | mq_receive =>
      simp only [hc] at h
      cases error with
      | none =>
          obtain ⟨⟨e, q⟩, hserve, heq⟩ := Option.map_eq_some_iff.mp h
          obtain ⟨hhead, rfl⟩ := s.queue.serve_eq_some hserve
          cases heq
          refine ⟨⟨rfl, hR.is_running⟩, ?_⟩
          have hless := s.queue.waiting_handOut_length (s.queue.head_mem hhead)
          rw [State.workerWeight, State.workerWeight, hc]
          show 3 + 4 * (s.queue.handOut e _).waiting.length + 1
            ≤ 0 + 4 * s.queue.waiting.length + 0
          omega
      | some errno =>
          cases errno with
          | EAGAIN =>
              cases h
              refine ⟨⟨rfl, hR.is_running⟩, ?_⟩
              rw [State.workerWeight, State.workerWeight, hc]
              show 2 + 4 * s.queue.waiting.length + 1 ≤ 0 + 4 * s.queue.waiting.length + 3
              omega
          | EINTR =>
              cases h
              refine ⟨⟨rfl, hR.is_running⟩, ?_⟩
              rw [State.workerWeight, State.workerWeight, hc]
              show 1 + 4 * s.queue.waiting.length + 1 ≤ 0 + 4 * s.queue.waiting.length + 3
              omega
          | other =>
              rcases hgoes with hnone | ⟨-, hne⟩
              · cases hnone
              · exact absurd rfl hne
  | free | mq_close | mq_unlink | ended e | killed =>
      rw [hc] at hactive
      cases hactive
  | sigaction | mq_open | mq_getattr | malloc =>
      simp only [hc, hgoes.preparing (by rw [hc]; simp), if_true] at h
      cases h
      exact hR.go rfl rfl rfl (by rw [hc]; exact Nat.lt_succ_self _)
  | test =>
      simp only [hc, hR.is_running, if_true] at h
      cases h
      exact hR.go rfl rfl rfl (by rw [hc]; exact Nat.lt_succ_self _)
  | usleep | terminateString | printf =>
      simp only [hc] at h
      cases h
      exact hR.go rfl rfl rfl (by rw [hc]; exact Nat.lt_succ_self _)

/-! ## The system comes to rest -/

/-- No `SIGINT` is sent, and no call of the worker fails for good. -/
def Calm (s : State ι) : Act ι → Prop
  | .sigint => False
  | .worker error _ => s.Goes error
  | .dispatcher _ _ => True

/-- An `mq_receive` that finds nothing or is interrupted. -/
def Act.fruitless : Act ι → Bool
  | .worker error _ => error.isSome
  | _ => false

/-- The next call of a dispatcher cannot succeed: the queue has no name yet, or does not take a
    message of this priority or length. -/
def Refused (attr : MqAttr) (s : State ι) (i : ι) : Prop :=
  match s.dispatcher i with
  | .mq_open _ => s.linked = false
  | .mq_send m => ¬ (m.prio.toNat < MQ_PRIO_MAX ∧ m.body.length ≤ attr.mq_msgsize)
  | _ => False

/-- A step in which nothing fails without need. -/
def Proceeds (attr : MqAttr) (s : State ι) : Act ι → Prop
  | .sigint => False
  | .worker error _ => error = none
  | .dispatcher i ok => ok = true ∨ Refused attr s i

def State.weight [Fintype ι] (s : State ι) : Nat :=
  s.workerWeight + Finset.univ.sum fun i => (s.dispatcher i).weight

instance (s : State ι) : DecidablePred (Calm s)
  | .sigint => inferInstanceAs (Decidable False)
  | .worker error _ => inferInstanceAs (Decidable (s.Goes error))
  | .dispatcher _ _ => inferInstanceAs (Decidable True)

omit [DecidableEq ι] in
theorem Running.fresh (linked : Bool) : Running (State.fresh linked : State ι) := ⟨rfl, rfl⟩

/-- One step of the system. -/
theorem Running.step {a : Act ι} (hR : Running s) (hcalm : Calm s a)
    (h : TaskQueue.step attr dumpcore argv s a = some s') : Running s' := by
  cases a with
  | worker error heap => exact (hR.worker_step hcalm h).1
  | dispatcher i ok =>
      have hworker := (dispatcherStep_frame h).1
      exact ⟨by rw [hworker]; exact hR.active, by rw [hworker]; exact hR.is_running⟩
  | sigint => exact hcalm.elim

/-- A dispatcher moves on: what its weight loses. -/
theorem dispatcherWeight_move [Fintype ι] (s : State ι) (i : ι) (c : DispatcherCtrl) :
    (Finset.univ.sum fun j => ((s.move i c).dispatcher j).weight) + (s.dispatcher i).weight
      = (Finset.univ.sum fun j => (s.dispatcher j).weight) + c.weight := by
  have hsum := sum_replace (f := fun j => ((s.move i c).dispatcher j).weight)
    (g := fun j => (s.dispatcher j).weight) i fun j hj =>
      congrArg DispatcherCtrl.weight (Function.update_of_ne hj ..)
  have hself : (s.move i c).dispatcher i = c := Function.update_self ..
  rw [hself] at hsum
  exact hsum

/-- One step of the system lowers the weight, but for a fruitless receive. -/
theorem weight_step [Fintype ι] {a : Act ι} (hR : Running s) (hcalm : Calm s a)
    (h : TaskQueue.step attr dumpcore argv s a = some s') :
    s'.weight + 1 ≤ s.weight + if a.fruitless then 2 + 1 else 0 := by
  cases a with
  | worker error heap =>
      have hless := (hR.worker_step hcalm h).2
      rw [State.weight, State.weight, (workerStep_frame h).1]
      show _ ≤ _ + if error.isSome then 3 else 0
      omega
  | dispatcher i ok =>
      show s'.weight + 1 ≤ s.weight
      rcases dispatcherStep_cases h with ⟨c, rfl, hless, -⟩ | ⟨m, hc, rfl⟩
      · have hsum := dispatcherWeight_move s i c
        rw [State.weight, State.weight]
        show s.workerWeight + _ + 1 ≤ s.workerWeight + _
        omega
      · -- the message that is sent is worth four steps of the worker
        have hsum := dispatcherWeight_move s i (.mq_close 0)
        rw [hc] at hsum
        have harrive := congrArg List.length (s.queue.waiting_arrive m.prio.toNat m.body)
        rw [List.length_append, List.length_singleton] at harrive
        rw [State.weight, State.weight, State.workerWeight, State.workerWeight]
        show s.worker.ctrl.weight + 4 * (s.queue.arrive m.prio.toNat m.body).waiting.length
          + (Finset.univ.sum fun j => ((s.move i (.mq_close 0)).dispatcher j).weight) + 1 ≤ _
        have hsix : (DispatcherCtrl.mq_send m).weight = 6 := rfl
        have hone : (DispatcherCtrl.mq_close 0).weight = 1 := rfl
        omega
  | sigint => exact hcalm.elim

/-- A worker whose next call cannot succeed asks an empty queue for a message. -/
theorem Running.waits (hR : Running s)
    (hstuck : TaskQueue.step attr dumpcore argv s (.worker none []) = none) :
    s.worker.ctrl = .mq_receive ∧ s.queue.waiting = [] := by
  have hactive := hR.active
  cases hc : s.worker.ctrl with
  | mq_receive =>
      refine ⟨rfl, ?_⟩
      by_contra hne
      exact (receive_ready hc).mpr hne hstuck
  | free | mq_close | mq_unlink | ended e | killed =>
      rw [hc] at hactive
      cases hactive
  | _ =>
      have hnone : workerStep attr dumpcore s none [] = none := hstuck
      unfold workerStep at hnone
      rw [hc] at hnone
      cases hnone

omit [DecidableEq ι] in
/-- `mq_receive` does not succeed if the queue has nothing to hand out. -/
theorem workerStep_empty {heap : List UInt8} (hc : s.worker.ctrl = .mq_receive)
    (hserve : s.queue.serve.isNone = true) : workerStep attr dumpcore s none heap = none := by
  unfold workerStep
  simp only [hc, Option.isNone_iff_eq_none.mp hserve, Option.map_none]

/-- A dispatcher that cannot go on while there is room in the queue has ended. -/
theorem ended_of_stuck {i : ι} (hroom : s.queue.waiting.length < attr.mq_maxmsg)
    (hstuck : ∀ ok, ok = true ∨ Refused attr s i →
      dispatcherStep attr dumpcore argv s i ok = none) : ∃ e, s.dispatcher i = .ended e := by
  cases hc : s.dispatcher i with
  | ended e => exact ⟨e, rfl⟩
  | start =>
      have hnone := hstuck true (.inl rfl)
      rw [dispatcherStep] at hnone
      simp only [hc] at hnone
      split at hnone <;> cases hnone
  | mq_open m =>
      cases hlinked : s.linked with
      | true =>
          have hnone := hstuck true (.inl rfl)
          rw [dispatcherStep] at hnone
          simp only [hc, hlinked, if_true] at hnone
          cases hnone
      | false =>
          have hnone := hstuck false (.inr (by rw [Refused, hc]; exact hlinked))
          rw [dispatcherStep] at hnone
          simp only [hc] at hnone
          cases hnone
  | mq_send m =>
      by_cases hfits : m.prio.toNat < MQ_PRIO_MAX ∧ m.body.length ≤ attr.mq_msgsize
      · have hnone := hstuck true (.inl rfl)
        have hsend : TaskQueue.mq_send true m = some m := mq_send_eq_some.mpr ⟨rfl, hfits.1, rfl⟩
        rw [dispatcherStep] at hnone
        simp only [hc, hsend, hroom, hfits.2, and_self, if_true] at hnone
        cases hnone
      · have hnone := hstuck false (.inr (by rw [Refused, hc]; exact hfits))
        have hsend : TaskQueue.mq_send false m = none := by
          rw [TaskQueue.mq_send, if_neg]
          rintro ⟨-, h⟩
          cases h
        rw [dispatcherStep] at hnone
        simp only [hc, hsend] at hnone
        cases hnone
  | mq_close status =>
      have hnone := hstuck true (.inl rfl)
      rw [dispatcherStep] at hnone
      simp only [hc] at hnone
      cases hnone

/-- **ACCEPTED TASKS ARE PRINTED.**  If no `SIGINT` is sent and no call of the worker fails for good,
    any number of dispatchers and the worker take a bounded number of steps, beside three for each
    fruitless `mq_receive`; and when they cannot go on, every dispatcher has ended, and the output
    has one line for each dispatcher that reported success, with what it asked for: its priority,
    and its text if that does not fill the buffer. -/
theorem accepted_tasks_printed [Fintype ι] (hmax : 0 < attr.mq_maxmsg) {linked : Bool}
    {as : List (Act ι)}
    (h : runWhen (TaskQueue.step attr dumpcore argv) Calm (State.fresh linked) as = some s) :
    as.length ≤ 5 + 8 * Fintype.card ι + 3 * as.countP Act.fruitless ∧
    (Stuck (TaskQueue.step attr dumpcore argv) (Proceeds attr) s →
      (∀ i, ∃ e, s.dispatcher i = .ended e) ∧
      ∃ senders : List ι, senders.Nodup ∧
        (∀ i, i ∈ senders ↔ s.dispatcher i = .ended (.exit EXIT_SUCCESS)) ∧
        List.Forall₂ (Asks argv) senders s.printedTasks ∧
        List.Forall₂ (Shows attr) s.printedTasks s.output ∧
        ((∀ e ∈ s.printedTasks, e.val.length < attr.mq_msgsize) →
          s.output = s.printedTasks.map lineOf)) := by
  have hreach := reach_of_runWhen h
  have hR : Running s := hreach.invariant (.fresh linked) fun _ _ _ hR hok hs => hR.step hok hs
  constructor
  · have hlen := length_le_of_runWhen_idle Running State.weight Act.fruitless 2
      (fun _ _ _ hR hok hs => hR.step hok hs) (fun _ _ _ hR hok hs => weight_step hR hok hs)
      (.fresh linked) h
    have hfresh : (State.fresh linked : State ι).weight = 5 + 8 * Fintype.card ι := by
      show 5 + 4 * 0 + (Finset.univ.sum fun _ : ι => 8) = _
      rw [Finset.sum_const_nat fun _ _ => rfl, Finset.card_univ]
      omega
    omega
  · intro hstuck
    have hI : Inv attr argv s := .reachable hreach.reachable
    obtain ⟨hctrl, hwait⟩ := hR.waits (hstuck (.worker none []) rfl)
    have hended : ∀ i, ∃ e, s.dispatcher i = .ended e := fun i =>
      ended_of_stuck (by rw [hwait]; exact hmax) fun ok hok => hstuck (.dispatcher i ok) hok
    refine ⟨hended, ?_⟩
    obtain ⟨senders, hnd, hmem, hasks⟩ := Accounted.reachable hreach.reachable
    -- nothing waits and nothing is in hand, so what has arrived has been printed
    have hprinted := hI.worker.printed_all (by rw [hctrl]; rfl)
    have hperm : s.printedTasks.Perm s.queue.arrived := by
      rw [hprinted]
      refine (List.perm_ext_iff_of_nodup s.queue.served_nodup s.queue.ledger.made_nodup).mpr ?_
      intro e
      refine ⟨fun he => s.queue.served_subset he, fun he => ?_⟩
      by_contra hout
      have hin := s.queue.mem_waiting.mpr ⟨he, hout⟩
      rw [hwait] at hin
      cases hin
    obtain ⟨senders', hasks', hsenders⟩ := List.perm_comp_forall₂ hperm hasks.flip
    have hshows := hI.worker.served_eq.1
    refine ⟨senders', hsenders.nodup_iff.mpr hnd, ?_, hasks'.flip, hshows, output_eq hshows⟩
    intro i
    rw [hsenders.mem_iff, hmem]
    obtain ⟨e, he⟩ := hended i
    rw [he]
    show (e == .exit EXIT_SUCCESS) = true ↔ _
    rw [beq_iff_eq, DispatcherCtrl.ended.injEq]

/-- The worker prepares, both tasks are sent and close, and the worker prints them after a receive
    that finds nothing. -/
def bothPrinted : List (Act Bool) :=
  bothSent ++ [.dispatcher false true, .dispatcher true true, .worker none [],
    .worker (some .EAGAIN) []] ++ List.replicate 10 (.worker none [])

/-- The theorem for two tasks. -/
theorem accepted_tasks_printed_twice : ∃ s : State Bool,
    runWhen (TaskQueue.step ⟨10, 8⟩ none twoTasks) Calm (State.fresh false) bothPrinted = some s ∧
    Stuck (TaskQueue.step ⟨10, 8⟩ none twoTasks) (Proceeds ⟨10, 8⟩) s ∧
      s.output = [⟨2, [98]⟩, ⟨1, [97]⟩] ∧
      ∃ senders : List Bool, List.Forall₂ (Asks twoTasks) senders s.printedTasks ∧
        ∀ i, i ∈ senders ↔ s.dispatcher i = .ended (.exit EXIT_SUCCESS) := by
  obtain ⟨s, hs, hf⟩ := Option.map_eq_some_iff.mp
    (show (runWhen (TaskQueue.step ⟨10, 8⟩ none twoTasks) Calm (State.fresh false) bothPrinted).map
        (fun s => (s.worker.ctrl, s.queue.serve.isNone, s.dispatcher false, s.dispatcher true,
          s.output))
      = some (.mq_receive, true, .ended (.exit 0), .ended (.exit 0), [⟨2, [98]⟩, ⟨1, [97]⟩]) by
        decide +kernel)
  simp only [Prod.mk.injEq] at hf
  obtain ⟨hctrl, hserve, hfalse, htrue, hout⟩ := hf
  have hstuck : Stuck (TaskQueue.step ⟨10, 8⟩ none twoTasks) (Proceeds ⟨10, 8⟩) s := by
    intro a ha
    cases a with
    | worker error heap =>
        cases ha
        exact workerStep_empty hctrl hserve
    | dispatcher i ok =>
        cases i with
        | false => simp only [TaskQueue.step, dispatcherStep, hfalse]
        | true => simp only [TaskQueue.step, dispatcherStep, htrue]
    | sigint => exact ha.elim
  obtain ⟨-, hrest⟩ := accepted_tasks_printed (by decide) hs
  obtain ⟨-, senders, -, hmem, hasks, -⟩ := hrest hstuck
  exact ⟨s, hs, hstuck, hout, senders, hasks, hmem⟩

/-! ## The worker alone -/

/-- Only the worker moves, and its calls succeed. -/
def Alone (_ : State ι) : Act ι → Prop
  | .sigint => False
  | .worker error _ => error = none
  | .dispatcher _ _ => False

instance (s : State ι) : DecidablePred (Alone s)
  | .sigint => inferInstanceAs (Decidable False)
  | .worker error _ => inferInstanceAs (Decidable (error = none))
  | .dispatcher _ _ => inferInstanceAs (Decidable False)

/-- A step of the worker alone. -/
theorem alone_step {a : Act ι} (hR : Running s) (halone : Alone s a)
    (h : TaskQueue.step attr dumpcore argv s a = some s') :
    Running s' ∧ s'.workerWeight < s.workerWeight ∧
      (s'.queue = s.queue ∨ PriorityQueue.step s.queue .serve = some s'.queue) := by
  cases a with
  | worker error heap =>
      cases halone
      obtain ⟨hR', hless⟩ := hR.worker_step (.inl rfl) h
      exact ⟨hR', hless, (workerStep_frame h).2⟩
  | dispatcher i ok => exact halone.elim
  | sigint => exact halone.elim

/-- The worker alone serves the queue and does nothing else to it. -/
theorem alone_reach (hR : Running s) (h : Reach (TaskQueue.step attr dumpcore argv) Alone s s') :
    Running s' ∧ Reach PriorityQueue.step (fun _ ev => ev = .serve) s.queue s'.queue := by
  induction h with
  | init => exact ⟨hR, .init⟩
  | next _ hok hs ih =>
      obtain ⟨hR', hqueue⟩ := ih
      obtain ⟨hR'', -, heq | hserve⟩ := alone_step hR' hok hs
      · exact ⟨hR'', heq ▸ hqueue⟩
      · exact ⟨hR'', .next hqueue rfl hserve⟩

/-- **THE WORKER DRAINS THE QUEUE.**  In every state that the system can reach with the worker
    working, the worker alone takes at most five steps and four for each message that waits; when
    it cannot go on it has printed, behind what it had taken, exactly what waited, those of higher
    priority first and the older ones first among equals; as it was sent, if it does not fill the
    buffer. -/
theorem worker_drains {linked : Bool} {as : List (Act ι)}
    (hs : Reachable (TaskQueue.step attr dumpcore argv) (State.fresh linked) s) (hR : Running s)
    (h : runWhen (TaskQueue.step attr dumpcore argv) Alone s as = some s') :
    as.length ≤ 5 + 4 * s.queue.waiting.length ∧
    (Stuck (TaskQueue.step attr dumpcore argv) Alone s' →
      ∃ ws : List TaskEntry, ws.Perm s.queue.waiting ∧ ws.Pairwise PriorityEntry.Before ∧
        s'.printedTasks = s.queue.served ++ ws ∧
        List.Forall₂ (Shows attr) s'.printedTasks s'.output ∧
        ((∀ e ∈ s.queue.waiting, e.val.length < attr.mq_msgsize) →
          s'.output.drop s.queue.served.length = ws.map lineOf)) := by
  have hreach := reach_of_runWhen h
  obtain ⟨hR', hqueue⟩ := alone_reach hR hreach
  constructor
  · have hlen := length_le_of_runWhen Running State.workerWeight
      (fun _ _ _ hR hok hs => (alone_step hR hok hs).1)
      (fun _ _ _ hR hok hs => (alone_step hR hok hs).2.1) hR h
    have hweight : s.workerWeight = s.worker.ctrl.weight + 4 * s.queue.waiting.length := rfl
    have hctrl := s.worker.ctrl.weight_le
    omega
  · intro hstuck
    obtain ⟨hctrl, hwait⟩ := hR'.waits (hstuck (.worker none []) rfl)
    have hI : Inv attr argv s' := .reachable (hs.trans hreach.reachable)
    obtain ⟨ws, hws⟩ := PriorityQueue.serves_of_reach hqueue
    have hperm := hws.waiting
    rw [hwait, List.append_nil] at hperm
    have hprinted : s'.printedTasks = s.queue.served ++ ws := by
      rw [hI.worker.printed_all (by rw [hctrl]; rfl), hws.served]
    have hshows := hI.worker.served_eq.1
    refine ⟨ws, hperm, hws.sorted, hprinted, hshows, fun hshort => ?_⟩
    rw [hprinted] at hshows
    exact output_eq (List.forall₂_drop_append _ _ _ hshows.flip).flip
      fun e he => hshort e (hperm.subset he)

/-- The theorem for two tasks that wait in the wrong order. -/
theorem worker_drains_both : ∃ s s' : State Bool,
    Reachable (TaskQueue.step ⟨10, 8⟩ none twoTasks) (State.fresh false) s ∧
      s.queue.waiting = [⟨0, 1, [97]⟩, ⟨1, 2, [98]⟩] ∧
      Reach (TaskQueue.step ⟨10, 8⟩ none twoTasks) Alone s s' ∧
      ∃ ws : List TaskEntry, ws.Perm s.queue.waiting ∧ ws.Pairwise PriorityEntry.Before ∧
        s'.printedTasks = s.queue.served ++ ws := by
  obtain ⟨s, hs, hf⟩ := Option.bind_eq_some_iff.mp
    (show ((run (TaskQueue.step ⟨10, 8⟩ none twoTasks) (State.fresh false) bothSent).bind fun s =>
        (runWhen (TaskQueue.step ⟨10, 8⟩ none twoTasks) Alone s
          (List.replicate 9 (.worker none []))).map fun s' =>
          (s.queue.waiting, s.worker.ctrl, s.worker.is_running, s'.worker.ctrl,
            s'.queue.serve.isNone))
      = some ([⟨0, 1, [97]⟩, ⟨1, 2, [98]⟩], .test, true, .mq_receive, true) by decide +kernel)
  obtain ⟨s', hs', heq⟩ := Option.map_eq_some_iff.mp hf
  simp only [Prod.mk.injEq] at heq
  obtain ⟨hwait, hctrl, hrun, hctrl', hserve⟩ := heq
  have hstuck : Stuck (TaskQueue.step ⟨10, 8⟩ none twoTasks) Alone s' := by
    intro a ha
    cases a with
    | worker error heap =>
        cases ha
        exact workerStep_empty hctrl' hserve
    | dispatcher i ok => exact ha.elim
    | sigint => exact ha.elim
  have hreach := reachable_of_run hs
  have hR : Running s := ⟨by rw [hctrl]; rfl, hrun⟩
  obtain ⟨ws, hperm, hsorted, hprinted, -⟩ := (worker_drains hreach hR hs').2 hstuck
  exact ⟨s, s', hreach, hwait, reach_of_runWhen hs', ws, hperm, hsorted, hprinted⟩

end TaskQueue
