import LinuxPrograming.WorkerProofs

/-!
# What the worker's shutdown discards (`7-Queue/worker.c`)

`mq_unlink` removes the queue together with what is still in it.  The worker gets there from its
loop, which it leaves when the test finds `is_running` lowered or `mq_receive` reports an error it
does not know; neither asks whether a message waits, and the dispatchers may go on sending.

* **`workerStep_cases`** — how a step of the worker stands to the way out of the loop.
* **`drained_or_lost`** — the loop is left with an empty queue that stays empty, or a message is lost
  for good.
* **`shutdown_discards_nothing_iff`** — so nothing accepted is discarded exactly if every step of the
  run drains the queue before it is given up.
-/

namespace TaskQueue

open Transition CmnBase

variable {ι : Type} {attr : MqAttr} {dumpcore : Option String} {argv : ι → List CString}

/-! ## Leaving the loop -/

/-- The worker has left its loop and has not called `mq_unlink` yet. -/
def WorkerCtrl.leaving : WorkerCtrl → Bool
  | .free | .mq_close | .mq_unlink => true
  | _ => false

/-- The worker is no more. -/
def WorkerCtrl.over : WorkerCtrl → Bool
  | .ended _ | .killed => true
  | _ => false

/-- The worker's next step leaves the loop. -/
def State.Leaves (s : State ι) (error : Option Errno) : Prop :=
  (s.worker.ctrl = .test ∧ s.worker.is_running = false) ∨
    (s.worker.ctrl = .mq_receive ∧ error = some .other)

/-- What the dispatcher's next step sends. -/
def DispatcherCtrl.sends (ok : Bool) : DispatcherCtrl → Option Message
  | .mq_send m => TaskQueue.mq_send ok m
  | _ => none

/-- The step does not give up a message: the loop is left only if no message waits, and nothing is
    sent from then on until the queue is unlinked. -/
def Drains (s : State ι) : Act ι → Prop
  | .worker error _  => s.Leaves error → s.queue.waiting = []
  | .dispatcher i ok => s.worker.ctrl.leaving = true → (s.dispatcher i).sends ok = none
  | .sigint          => True

instance (s : State ι) (error : Option Errno) : Decidable (s.Leaves error) :=
  inferInstanceAs (Decidable (_ ∨ _))

instance (s : State ι) (a : Act ι) : Decidable (Drains s a) := by
  cases a <;> unfold Drains <;> infer_instance

/-- **How a step of the worker stands to the way out**: it leaves the loop, it is on the way out and
    goes on, or it is elsewhere and stays there. -/
theorem workerStep_cases {s s' : State ι} {error : Option Errno} {heap : List UInt8}
    (h : workerStep attr dumpcore s error heap = some s') :
    (s.Leaves error ∧ s.worker.ctrl.leaving = false ∧ s'.worker.ctrl.leaving = true ∧
      s'.queue = s.queue) ∨
    (¬ s.Leaves error ∧ s.worker.ctrl.leaving = true ∧ s'.queue = s.queue ∧
      (s'.worker.ctrl.leaving = true ∨ s'.worker.ctrl.over = true)) ∨
    (¬ s.Leaves error ∧ s.worker.ctrl.leaving = false ∧ s'.worker.ctrl.leaving = false) := by
  unfold workerStep at h
  have hleaves : ∀ c, s.worker.ctrl = c → c ≠ .test → c ≠ .mq_receive → ¬ s.Leaves error := by
    intro c hc htest hreceive
    rintro (⟨h, -⟩ | ⟨h, -⟩)
    · exact htest (hc.symm.trans h)
    · exact hreceive (hc.symm.trans h)
  cases hc : s.worker.ctrl with
  | sigaction | mq_open | mq_getattr | malloc =>
      simp only [hc] at h
      have hno := hleaves _ hc (by simp) (by simp)
      split at h
      · cases h
        exact .inr (.inr ⟨hno, rfl, rfl⟩)
      · cases h
        exact .inr (.inr ⟨hno, rfl, rfl⟩)
  | test =>
      simp only [hc] at h
      cases h
      cases hrun : s.worker.is_running with
      | false => exact .inl ⟨.inl ⟨hc, hrun⟩, rfl, rfl, rfl⟩
      | true =>
          refine .inr (.inr ⟨?_, rfl, rfl⟩)
          rintro (⟨-, h⟩ | ⟨h, -⟩)
          · cases hrun.symm.trans h
          · cases hc.symm.trans h
  | mq_receive =>
      simp only [hc] at h
      have hother : s.Leaves error → error = some .other := by
        rintro (⟨h, -⟩ | ⟨-, h⟩)
        · cases hc.symm.trans h
        · exact h
      cases error with
      | none =>
          obtain ⟨⟨e, q⟩, -, heq⟩ := Option.map_eq_some_iff.mp h
          cases heq
          exact .inr (.inr ⟨fun h => (by cases hother h), rfl, rfl⟩)
      | some errno =>
          cases errno with
          | EAGAIN | EINTR =>
              cases h
              exact .inr (.inr ⟨fun h => (by cases hother h), rfl, rfl⟩)
          | other =>
              cases h
              exact .inl ⟨.inr ⟨hc, rfl⟩, rfl, rfl, rfl⟩
  | usleep | terminateString | printf =>
      simp only [hc] at h
      cases h
      exact .inr (.inr ⟨hleaves _ hc (by simp) (by simp), rfl, rfl⟩)
  | free | mq_close =>
      simp only [hc] at h
      cases h
      exact .inr (.inl ⟨hleaves _ hc (by simp) (by simp), rfl, rfl, .inl rfl⟩)
  | mq_unlink =>
      simp only [hc] at h
      cases h
      exact .inr (.inl ⟨hleaves _ hc (by simp) (by simp), rfl, rfl, .inr rfl⟩)
  | ended e | killed =>
      simp only [hc] at h
      cases h

/-- A worker that is no more takes no step. -/
theorem workerStep_over {s : State ι} {error : Option Errno} {heap : List UInt8}
    (h : s.worker.ctrl.over = true) : workerStep attr dumpcore s error heap = none := by
  unfold workerStep
  cases hc : s.worker.ctrl with
  | ended e | killed => rfl
  | _ =>
      rw [hc] at h
      cases h

variable [DecidableEq ι]

/-- What a dispatcher's step does to the queue. -/
theorem dispatcherStep_sends {s s' : State ι} {i : ι} {ok : Bool}
    (h : dispatcherStep attr dumpcore argv s i ok = some s') :
    ((s.dispatcher i).sends ok = none → s'.queue = s.queue) ∧
    ((s.dispatcher i).sends ok ≠ none → s'.queue.waiting ≠ []) := by
  rw [dispatcherStep] at h
  cases hc : s.dispatcher i with
  | mq_send m =>
      simp only [hc] at h
      rw [DispatcherCtrl.sends]
      cases hs : mq_send ok m with
      | none =>
          rw [hs] at h
          cases h
          exact ⟨fun _ => rfl, fun hne => absurd rfl hne⟩
      | some m' =>
          rw [hs] at h
          obtain ⟨-, heq⟩ := Option.ite_none_right_eq_some.mp h
          cases heq
          refine ⟨fun hno => (by cases hno), fun _ => ?_⟩
          show (s.queue.arrive _ _).waiting ≠ []
          rw [PriorityQueue.waiting_arrive]
          exact List.append_ne_nil_of_right_ne_nil _ (List.cons_ne_nil _ _)
  | start =>
      simp only [hc] at h
      split at h
      · cases h
        exact ⟨fun _ => rfl, fun hne => absurd rfl hne⟩
      · cases h
        exact ⟨fun _ => rfl, fun hne => absurd rfl hne⟩
  | mq_open m =>
      simp only [hc] at h
      split at h
      · obtain ⟨-, heq⟩ := Option.ite_none_right_eq_some.mp h
        cases heq
        exact ⟨fun _ => rfl, fun hne => absurd rfl hne⟩
      · cases h
        exact ⟨fun _ => rfl, fun hne => absurd rfl hne⟩
  | mq_close status =>
      simp only [hc] at h
      cases h
      exact ⟨fun _ => rfl, fun hne => absurd rfl hne⟩
  | ended e =>
      simp only [hc] at h
      cases h

omit [DecidableEq ι] in
/-- `SIGINT` leaves the worker where it is, or ends it. -/
theorem sigintStep_ctrl {s s' : State ι} (h : sigintStep s = some s') :
    s'.worker.ctrl = s.worker.ctrl ∨ s'.worker.ctrl.over = true := by
  rw [sigintStep] at h
  split at h
  · cases h
  · split at h
    · cases h
    · cases h
    · split at h
      · cases h
        exact .inl rfl
      · cases h
        exact .inr rfl

/-! ## Drained or lost -/

/-- On the way out nothing waits. -/
def Drained (s : State ι) : Prop := s.worker.ctrl.leaving = true → s.queue.waiting = []

/-- The worker is on the way out with a message waiting, or it is no more. -/
def Lost (s : State ι) : Prop :=
  (s.worker.ctrl.leaving = true ∧ s.queue.waiting ≠ []) ∨ s.worker.ctrl.over = true

omit [DecidableEq ι] in
theorem not_leaving_of_over {c : WorkerCtrl} (h : c.over = true) : c.leaving = false := by
  cases c with
  | ended e | killed => rfl
  | _ => cases h

/-- A step that drains keeps the way out clear. -/
theorem Drained.step {s s' : State ι} {a : Act ι} (hD : Drained s) (hok : Drains s a)
    (h : step attr dumpcore argv s a = some s') : Drained s' := by
  intro hout
  cases a with
  | worker error heap =>
      rcases workerStep_cases h with ⟨hleaves, -, -, hq⟩ | ⟨-, hin, hq, -⟩ | ⟨-, -, hin⟩
      · rw [hq]
        exact hok hleaves
      · rw [hq]
        exact hD hin
      · cases hin.symm.trans hout
  | dispatcher i ok =>
      rw [(dispatcherStep_frame h).1] at hout
      rw [(dispatcherStep_sends h).1 (hok hout)]
      exact hD hout
  | sigint =>
      rw [(sigintStep_frame h).2]
      rcases sigintStep_ctrl h with heq | hover
      · exact hD (heq ▸ hout)
      · cases (not_leaving_of_over hover).symm.trans hout

/-- A step that does not drain loses a message. -/
theorem lost_of_not_drains {s s' : State ι} {a : Act ι} (hbad : ¬ Drains s a)
    (h : step attr dumpcore argv s a = some s') : Lost s' := by
  cases a with
  | worker error heap =>
      obtain ⟨hleaves, hwait⟩ := Classical.not_imp.mp hbad
      rcases workerStep_cases h with ⟨-, -, hout, hq⟩ | ⟨hno, -⟩ | ⟨hno, -⟩
      · exact .inl ⟨hout, hq ▸ hwait⟩
      · exact absurd hleaves hno
      · exact absurd hleaves hno
  | dispatcher i ok =>
      obtain ⟨hout, hsends⟩ := Classical.not_imp.mp hbad
      refine .inl ⟨?_, (dispatcherStep_sends h).2 hsends⟩
      rw [(dispatcherStep_frame h).1]
      exact hout
  | sigint => exact absurd trivial hbad

/-- A message that is lost stays lost: the worker receives no more. -/
theorem Lost.step {s s' : State ι} {a : Act ι} (hL : Lost s)
    (h : step attr dumpcore argv s a = some s') : Lost s' := by
  cases a with
  | worker error heap =>
      rcases hL with ⟨hout, hwait⟩ | hover
      · rcases workerStep_cases h with ⟨-, hin, -⟩ | ⟨-, -, hq, hout' | hover⟩ | ⟨-, hin, -⟩
        · cases hin.symm.trans hout
        · exact .inl ⟨hout', hq ▸ hwait⟩
        · exact .inr hover
        · cases hin.symm.trans hout
      · cases (workerStep_over hover).symm.trans h
  | dispatcher i ok =>
      rw [Lost, (dispatcherStep_frame h).1]
      refine hL.imp_left ?_
      rintro ⟨hout, hwait⟩
      refine ⟨hout, ?_⟩
      by_cases hsends : (s.dispatcher i).sends ok = none
      · rw [(dispatcherStep_sends h).1 hsends]
        exact hwait
      · exact (dispatcherStep_sends h).2 hsends
  | sigint =>
      rw [Lost, (sigintStep_frame h).2]
      rcases sigintStep_ctrl h with heq | hover
      · rw [heq]
        exact hL
      · exact .inr hover

theorem Lost.run {s s' : State ι} {as : List (Act ι)} (hL : Lost s)
    (h : Transition.run (TaskQueue.step attr dumpcore argv) s as = some s') : Lost s' :=
  (reachable_of_run h).invariant hL fun _ _ _ hL _ hs => hL.step hs

/-- **DRAINED OR LOST.**  Either every step of a run drains, and the way out is clear, or a message
    is lost for good. -/
theorem drained_or_lost {s s' : State ι} {as : List (Act ι)} (hD : Drained s)
    (h : run (step attr dumpcore argv) s as = some s') :
    (runWhen (step attr dumpcore argv) Drains s as = some s' ∧ Drained s') ∨
      (runWhen (step attr dumpcore argv) Drains s as ≠ some s' ∧ Lost s') := by
  induction as generalizing s with
  | nil =>
      cases h
      exact .inl ⟨rfl, hD⟩
  | cons a as ih =>
      obtain ⟨u, hu, hrun⟩ := Option.bind_eq_some_iff.mp h
      rw [runWhen]
      by_cases hok : Drains s a
      · rw [if_pos hok, hu, Option.bind_some]
        exact ih (hD.step hok hu) hrun
      · rw [if_neg hok]
        exact .inr ⟨fun h => (by cases h), (lost_of_not_drains hok hu).run hrun⟩

/-! ## What has been printed when the queue is gone -/

/-- A worker that is no more hands out and prints nothing. -/
theorem over_step {s s' : State ι} {a : Act ι} (hover : s.worker.ctrl.over = true)
    (h : step attr dumpcore argv s a = some s') :
    s'.worker.ctrl.over = true ∧ s'.queue.served = s.queue.served ∧ s'.output = s.output := by
  cases a with
  | worker error heap => cases (workerStep_over hover).symm.trans h
  | dispatcher i ok =>
      obtain ⟨hw, -, hout, hq⟩ := dispatcherStep_frame h
      refine ⟨by rw [hw]; exact hover, ?_, hout⟩
      rcases hq with heq | ⟨prio, val, heq⟩
      · rw [heq]
      · rw [heq, PriorityQueue.served_arrive]
  | sigint =>
      rw [step, sigintStep] at h
      split at h
      · cases h
      · cases hc : s.worker.ctrl with
        | ended e | killed => rw [hc] at h; cases h
        | _ => rw [hc] at hover; cases hover

theorem over_run {s s' : State ι} (hover : s.worker.ctrl.over = true)
    (h : Reachable (step attr dumpcore argv) s s') :
    s'.worker.ctrl.over = true ∧ s'.queue.served = s.queue.served ∧ s'.output = s.output := by
  induction h with
  | init => exact ⟨hover, rfl, rfl⟩
  | next _ _ hs ih =>
      obtain ⟨hover', hserved, hout⟩ := ih
      obtain ⟨hover'', hserved', hout'⟩ := over_step hover' hs
      exact ⟨hover'', hserved'.trans hserved, hout'.trans hout⟩

omit [DecidableEq ι] in
/-- Everything that has arrived has been handed out exactly if nothing waits. -/
theorem arrived_served_iff (q : PriorityQueue Nat (List UInt8)) :
    (∀ e ∈ q.arrived, e ∈ q.served) ↔ q.waiting = [] := by
  rw [List.eq_nil_iff_forall_not_mem]
  refine forall_congr' fun e => ?_
  rw [q.mem_waiting]
  tauto

/-- **WHAT THE SHUTDOWN DISCARDS.**  Let the worker call `mq_unlink` after the run `as`, and `bs`
    happen after that.  The output shows the printed tasks, one line each, and every task sent
    before the call is among them exactly if each step of `as` drains the queue: the loop is left
    only with no message waiting, and none is sent from then on. -/
theorem shutdown_discards_nothing_iff {linked : Bool} {as bs : List (Act ι)} {u s : State ι}
    {error : Option Errno} {heap : List UInt8}
    (h : run (step attr dumpcore argv) (State.fresh linked) as = some u)
    (hu : u.worker.ctrl = .mq_unlink)
    (h' : run (step attr dumpcore argv) u (.worker error heap :: bs) = some s) :
    List.Forall₂ (Shows attr) s.printedTasks s.output ∧
    ((∀ e ∈ u.queue.arrived, e ∈ s.printedTasks) ↔
      runWhen (step attr dumpcore argv) Drains (State.fresh linked) as = some u) := by
  have hI : Inv attr argv u := .reachable (reachable_of_run h)
  -- the call ends the worker, so that nothing is handed out or printed after it
  obtain ⟨v, hv, hrun⟩ := Option.bind_eq_some_iff.mp h'
  have hcall : v.worker.ctrl.over = true ∧ v.queue = u.queue ∧ v.output = u.output := by
    have hs : workerStep attr dumpcore u error heap = some v := hv
    unfold workerStep at hs
    rw [hu] at hs
    cases hs
    exact ⟨rfl, rfl, rfl⟩
  obtain ⟨-, hserved, hout⟩ := over_run hcall.1 (reachable_of_run hrun)
  have hprinted : s.printedTasks = u.queue.served := by
    rw [← hI.worker.printed_all (by rw [hu]; rfl), State.printedTasks, State.printedTasks, hserved,
      hout, hcall.2.1, hcall.2.2]
  constructor
  · have hshows := hI.worker.served_eq.1
    rw [hI.worker.printed_all (by rw [hu]; rfl)] at hshows
    rw [hprinted, hout, hcall.2.2]
    exact hshows
  · rw [hprinted, arrived_served_iff]
    have hleaving : u.worker.ctrl.leaving = true := by rw [hu]; rfl
    rcases drained_or_lost (fun hout => (by cases hout)) h with ⟨hwhen, hD⟩ | ⟨hwhen, hL⟩
    · exact iff_of_true (hD hleaving) hwhen
    · refine iff_of_false ?_ hwhen
      intro hwait
      rcases hL with ⟨-, hne⟩ | hover
      · exact hne hwait
      · rw [hu] at hover
        cases hover

/-- The worker takes both tasks before it leaves its loop, and comes to `mq_unlink`. -/
def drainedShutdown : List (Act Bool) := bothSent ++ bothTaken ++ List.replicate 2 (.worker none [])

/-- The theorem for a shutdown that drains the queue. -/
theorem shutdown_discards_nothing_twice : ∃ u s : State Bool,
    run (step ⟨10, 8⟩ none twoTasks) (State.fresh false) drainedShutdown = some u ∧
      run (step ⟨10, 8⟩ none twoTasks) u [.worker none []] = some s ∧
      u.queue.arrived = [⟨0, 1, [97]⟩, ⟨1, 2, [98]⟩] ∧
      ∀ e ∈ u.queue.arrived, e ∈ s.printedTasks := by
  obtain ⟨u, hu, hf⟩ := Option.map_eq_some_iff.mp
    (show (runWhen (step ⟨10, 8⟩ none twoTasks) Drains (State.fresh false) drainedShutdown).map
        (fun u => (u.worker.ctrl, u.queue.arrived,
          (run (step ⟨10, 8⟩ none twoTasks) u [.worker none []]).isSome))
      = some (.mq_unlink, [⟨0, 1, [97]⟩, ⟨1, 2, [98]⟩], true) by decide +kernel)
  simp only [Prod.mk.injEq] at hf
  obtain ⟨hctrl, harrived, hsome⟩ := hf
  obtain ⟨s, hs⟩ := Option.isSome_iff_exists.mp hsome
  have hrun := run_of_runWhen hu
  exact ⟨u, s, hrun, hs, harrived, (shutdown_discards_nothing_iff hrun hctrl hs).2.mpr hu⟩

/-- Both tasks wait when `SIGINT` comes. -/
def hastyShutdown : List (Act Bool) := bothSent ++ .sigint :: List.replicate 3 (.worker none [])

/-- **Accepted tasks are discarded**: two dispatchers have reported success, and nothing is
    printed. -/
theorem shutdown_discards_tasks :
    ¬ ∀ (linked : Bool) (as bs : List (Act Bool)) (u s : State Bool) (error : Option Errno)
      (heap : List UInt8),
      run (step ⟨10, 8⟩ none twoTasks) (State.fresh linked) as = some u →
      u.worker.ctrl = .mq_unlink →
      run (step ⟨10, 8⟩ none twoTasks) u (.worker error heap :: bs) = some s →
      ∀ e ∈ u.queue.arrived, e ∈ s.printedTasks := by
  intro hall
  obtain ⟨u, hu, hf⟩ := Option.map_eq_some_iff.mp
    (show (run (step ⟨10, 8⟩ none twoTasks) (State.fresh false) hastyShutdown).map
        (fun u => (u.worker.ctrl, u.queue.arrived,
          (run (step ⟨10, 8⟩ none twoTasks) u [.worker none []]).map fun s =>
            s.printedTasks.length))
      = some (.mq_unlink, [⟨0, 1, [97]⟩, ⟨1, 2, [98]⟩], some 0) by decide +kernel)
  simp only [Prod.mk.injEq] at hf
  obtain ⟨hctrl, harrived, hprinted⟩ := hf
  obtain ⟨s, hs, hnil⟩ := Option.map_eq_some_iff.mp hprinted
  have hmem := hall false hastyShutdown [] u s none [] hu hctrl hs ⟨0, 1, [97]⟩
    (by rw [harrived]; exact List.mem_cons_self ..)
  rw [List.length_eq_zero_iff.mp hnil] at hmem
  cases hmem

end TaskQueue
