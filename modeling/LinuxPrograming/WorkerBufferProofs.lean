import LinuxPrograming.WorkerProofs

/-!
# The worker's receive buffer (`7-Queue/worker.c`)

The size of the block comes from `malloc(attr.mq_msgsize)`, the limit of what is received into it
from the third argument of `mq_receive`, and the index of the NUL from `bytes_read`.  The first two
agree; the third one may be equal to them.

* **`withinBlock_iff`** — in one state: the message in hand must leave room for the NUL.
* **`throughout_withinBlock_iff`** — in a run: so must every message that is handed out.
-/

namespace TaskQueue

open Transition StrUtils

variable {ι : Type} {attr : MqAttr} {dumpcore : Option String} {argv : ι → List CString}

/-- The indices of the buffer that the next step of the worker writes. -/
def State.writes (s : State ι) : List Nat :=
  match s.worker.ctrl with
  | .mq_receive => s.queue.serve.elim [] fun (e, _) => List.range e.val.length
  | .terminateString => [s.worker.bytes_read]
  | _ => []

/-- The message of the iteration that the worker is in. -/
def State.handling (s : State ι) : Option TaskEntry :=
  if s.worker.ctrl.midway then s.queue.served.getLast? else none

/-- The next step writes the buffer within the allocated block, and what is printed next ends at
    the NUL at `buffer[bytes_read]`. -/
structure WithinBlock (attr : MqAttr) (s : State ι) : Prop where
  size   : s.worker.ctrl.inLoop = true → s.worker.buffer.length = attr.mq_msgsize
  writes : ∀ i ∈ s.writes, i < attr.mq_msgsize
  ends   : s.worker.ctrl = .printf → s.worker.buffer[s.worker.bytes_read]? = some 0 ∧
    ∀ behind, printed s.worker.buffer behind = s.worker.buffer.take s.worker.bytes_read

/-- The message in hand, with the variables that hold it. -/
theorem Inv.handling_eq {s : State ι} (hI : Inv attr argv s)
    (hmid : s.worker.ctrl.midway = true) :
    ∃ e, s.handling = some e ∧ Holds s.worker e ∧ (0 : UInt8) ∉ e.val ∧
      (s.worker.ctrl = .printf → e.val.length < attr.mq_msgsize →
        s.worker.buffer[e.val.length]? = some 0) := by
  obtain ⟨done, hand, hserved, -, hhand⟩ := hI.worker.output
  obtain ⟨e, rfl, hholds, hnul⟩ : ∃ e, hand = [e] ∧ Holds s.worker e ∧
      (s.worker.ctrl = .printf → e.val.length < attr.mq_msgsize →
        s.worker.buffer[e.val.length]? = some 0) := by
    rw [InHand] at hhand
    rcases midway_cases hmid with hc | hc
    · rw [hc] at hhand
      obtain ⟨e, he, hholds⟩ := hhand
      exact ⟨e, he, hholds, fun h => by rw [hc] at h; cases h⟩
    · rw [hc] at hhand
      obtain ⟨e, he, hholds, hnul⟩ := hhand
      exact ⟨e, he, hholds, fun _ => hnul⟩
  refine ⟨e, ?_, hholds, ?_, hnul⟩
  · rw [State.handling, if_pos hmid, hserved, List.getLast?_concat]
  · exact (hI.dispatchers.arrived e (s.queue.served_subset (by rw [hserved]; simp))).noNul

/-- What `mq_receive` writes is within the block. -/
theorem Inv.receive_writes {s : State ι} (hI : Inv attr argv s)
    (hc : s.worker.ctrl = .mq_receive) : ∀ i ∈ s.writes, i < attr.mq_msgsize := by
  intro i hi
  rw [State.writes] at hi
  simp only [hc] at hi
  cases hs : s.queue.serve with
  | none =>
      rw [hs] at hi
      cases hi
  | some eq =>
      rw [hs] at hi
      obtain ⟨hhead, -⟩ := s.queue.serve_eq_some hs
      have he := (s.queue.mem_waiting.mp (s.queue.head_mem hhead)).1
      exact Nat.lt_of_lt_of_le (List.mem_range.mp hi) (hI.dispatchers.arrived _ he).2.1

/-- **ONE STATE**: the buffer is used within its block exactly if the message in hand is shorter
    than the block. -/
theorem withinBlock_iff {s : State ι} (hI : Inv attr argv s) :
    WithinBlock attr s ↔ ∀ e ∈ s.handling, e.val.length < attr.mq_msgsize := by
  cases hmid : s.worker.ctrl.midway with
  | false =>
      have hnone : s.handling = none := by rw [State.handling, hmid, if_neg (by decide)]
      rw [hnone]
      refine iff_of_true ⟨hI.worker.block, ?_, ?_⟩ (fun e he => by cases he)
      · by_cases hc : s.worker.ctrl = .mq_receive
        · exact hI.receive_writes hc
        · intro i hi
          rw [State.writes] at hi
          split at hi
          · exact absurd ‹_› hc
          · rw [‹s.worker.ctrl = .terminateString›] at hmid
            cases hmid
          · cases hi
      · intro hc
        rw [hc] at hmid
        cases hmid
  | true =>
      obtain ⟨e, he, hholds, hnul, hstored⟩ := hI.handling_eq hmid
      have hsize := hI.worker.block (by rcases midway_cases hmid with hc | hc <;> rw [hc] <;> rfl)
      have hcond : (∀ e ∈ s.handling, e.val.length < attr.mq_msgsize) ↔
          e.val.length < attr.mq_msgsize := by simp [he]
      rw [hcond]
      rcases midway_cases hmid with hc | hc
      · have hw : s.writes = [e.val.length] := by rw [State.writes, hc, ← hholds.bytes_read]
        constructor
        · intro h
          exact h.writes _ (by rw [hw]; exact List.mem_singleton_self _)
        · intro hlt
          refine ⟨fun _ => hsize, ?_, fun h => by rw [hc] at h; cases h⟩
          intro i hi
          rw [hw, List.mem_singleton] at hi
          exact hi ▸ hlt
      · have hw : s.writes = [] := by rw [State.writes, hc]
        constructor
        · intro h
          -- the NUL that ends the string is in the block
          obtain ⟨hlt, -⟩ := List.getElem?_eq_some_iff.mp (h.ends hc).1
          rw [hholds.bytes_read, hsize] at hlt
          exact hlt
        · intro hlt
          refine ⟨fun _ => hsize, fun i hi => (by rw [hw] at hi; cases hi), fun _ => ?_⟩
          rw [hholds.bytes_read, hholds.buffer]
          exact ⟨hstored hc hlt, fun behind => printed_eq hnul hholds.buffer (hstored hc hlt)⟩

/-- Outside an iteration there is no message in hand. -/
theorem handling_idle {s : State ι} (h : s.worker.ctrl.midway = false) : s.handling = none := by
  rw [State.handling, h, if_neg (by decide)]

/-- What a step of the worker does to what has been handed out and to the message in hand. -/
theorem workerStep_handling {s s' : State ι} {error : Option Errno} {heap : List UInt8}
    (h : workerStep attr dumpcore s error heap = some s') :
    (s'.queue.served = s.queue.served ∧ ∀ e ∈ s'.handling, e ∈ s.handling) ∨
    ∃ e, s'.queue.served = s.queue.served ++ [e] ∧ s'.handling = some e := by
  have hidle : s'.queue = s.queue → s'.worker.ctrl.midway = false →
      s'.queue.served = s.queue.served ∧ ∀ e ∈ s'.handling, e ∈ s.handling := by
    intro hq hmid
    refine ⟨by rw [hq], fun e he => ?_⟩
    rw [handling_idle hmid] at he
    cases he
  unfold workerStep at h
  cases hc : s.worker.ctrl with
  | sigaction | mq_open | mq_getattr | malloc =>
      simp only [hc] at h
      split at h
      · cases h
        exact .inl (hidle rfl rfl)
      · cases h
        exact .inl (hidle rfl rfl)
  | test =>
      simp only [hc] at h
      cases h
      refine .inl (hidle rfl ?_)
      cases hrun : s.worker.is_running with
      | true => simp [State.goto, WorkerCtrl.midway]
      | false => simp [State.goto, WorkerCtrl.midway]
  | mq_receive =>
      simp only [hc] at h
      cases error with
      | none =>
          obtain ⟨⟨e, q⟩, hserve, heq⟩ := Option.map_eq_some_iff.mp h
          obtain ⟨hhead, rfl⟩ := s.queue.serve_eq_some hserve
          cases heq
          exact .inr ⟨e, rfl, List.getLast?_concat⟩
      | some errno =>
          cases errno with
          | EAGAIN | EINTR | other =>
              cases h
              exact .inl (hidle rfl rfl)
  | terminateString =>
      -- the message stays in hand
      have hmid : s.worker.ctrl.midway = true := by rw [hc]; rfl
      simp only [hc] at h
      cases h
      refine .inl ⟨rfl, fun e he => ?_⟩
      rw [State.handling, if_pos hmid]
      exact he
  | usleep | printf | free | mq_close | mq_unlink =>
      simp only [hc] at h
      cases h
      exact .inl (hidle rfl rfl)
  | ended e | killed =>
      simp only [hc] at h
      cases h

variable [DecidableEq ι]

/-- The same for every step of the system. -/
theorem step_handling {s s' : State ι} {a : Act ι} (hI : Inv attr argv s)
    (h : TaskQueue.step attr dumpcore argv s a = some s') :
    (s'.queue.served = s.queue.served ∧ ∀ e ∈ s'.handling, e ∈ s.handling) ∨
    ∃ e, s'.queue.served = s.queue.served ++ [e] ∧ s'.handling = some e := by
  cases a with
  | worker error heap => exact workerStep_handling h
  | dispatcher i ok =>
      obtain ⟨hw, -, -, hq⟩ := dispatcherStep_frame h
      have hserved : s'.queue.served = s.queue.served := by
        rcases hq with heq | ⟨prio, val, heq⟩
        · rw [heq]
        · rw [heq, PriorityQueue.served_arrive]
      refine .inl ⟨hserved, fun e he => ?_⟩
      rw [State.handling, hw, hserved] at he
      exact he
  | sigint =>
      rcases sigintStep_cases hI.worker h with rfl | ⟨-, rfl⟩
      · exact .inl ⟨rfl, fun e he => he⟩
      · refine .inl ⟨rfl, fun e he => ?_⟩
        rw [handling_idle rfl] at he
        cases he

/-- A run from any state of a run. -/
theorem throughout_from {s s' : State ι} {acts : List (Act ι)} (hI : Inv attr argv s)
    (h : run (TaskQueue.step attr dumpcore argv) s acts = some s') :
    ∃ new, s'.queue.served = s.queue.served ++ new ∧
      (Throughout (TaskQueue.step attr dumpcore argv) (WithinBlock attr) s acts ↔
        (∀ e ∈ s.handling, e.val.length < attr.mq_msgsize) ∧
          ∀ e ∈ new, e.val.length < attr.mq_msgsize) := by
  induction acts generalizing s with
  | nil =>
      cases h
      refine ⟨[], (List.append_nil _).symm, ?_⟩
      rw [Throughout, withinBlock_iff hI]
      simp
  | cons a acts ih =>
      obtain ⟨u, hu, hrun⟩ := Option.bind_eq_some_iff.mp h
      obtain ⟨new, hnew, hiff⟩ := ih (hI.step hu) hrun
      have hcons : Throughout (TaskQueue.step attr dumpcore argv) (WithinBlock attr) s (a :: acts) ↔
          (∀ e ∈ s.handling, e.val.length < attr.mq_msgsize) ∧
          (∀ e ∈ u.handling, e.val.length < attr.mq_msgsize) ∧
          ∀ e ∈ new, e.val.length < attr.mq_msgsize := by
        rw [Throughout, withinBlock_iff hI, ← hiff, hu]
        simp
      rw [hcons]
      rcases step_handling hI hu with ⟨hserved, hhand⟩ | ⟨e, hserved, hhand⟩
      · -- the message in hand, if there is still one, is the same
        refine ⟨new, by rw [hnew, hserved], ?_⟩
        constructor
        · rintro ⟨h₁, -, h₂⟩
          exact ⟨h₁, h₂⟩
        · rintro ⟨h₁, h₂⟩
          exact ⟨h₁, fun e he => h₁ e (hhand e he), h₂⟩
      · refine ⟨e :: new, by rw [hnew, hserved, List.append_assoc]; rfl, ?_⟩
        simp [hhand]

/-- **A RUN**: in every state that a run passes through the buffer is used within its block exactly
    if every message handed out in the run is shorter than the block. -/
theorem throughout_withinBlock_iff (linked : Bool) (acts : List (Act ι)) (s : State ι)
    (h : run (TaskQueue.step attr dumpcore argv) (State.fresh linked) acts = some s) :
    Throughout (TaskQueue.step attr dumpcore argv) (WithinBlock attr) (State.fresh linked) acts ↔
      ∀ e ∈ s.queue.served, e.val.length < attr.mq_msgsize := by
  obtain ⟨new, hnew, hiff⟩ := throughout_from (Inv.fresh linked) h
  have hserved : (State.fresh linked : State ι).queue.served = [] := rfl
  have hhand : (State.fresh linked : State ι).handling = none := rfl
  rw [hiff, hnew, hserved, hhand, List.nil_append]
  simp

/-- The run of two short tasks. -/
theorem withinBlock_twoTasks :
    Throughout (TaskQueue.step ⟨10, 8⟩ none twoTasks) (WithinBlock ⟨10, 8⟩) (State.fresh false)
      (bothSent ++ bothTaken) := by
  obtain ⟨s, hs, hserved⟩ := Option.map_eq_some_iff.mp
    (show (run (TaskQueue.step ⟨10, 8⟩ none twoTasks) (State.fresh false)
        (bothSent ++ bothTaken)).map (fun s => s.queue.served)
      = some [⟨1, 2, [98]⟩, ⟨0, 1, [97]⟩] by decide +kernel)
  refine (throughout_withinBlock_iff false (bothSent ++ bothTaken) s hs).mpr ?_
  rw [hserved]
  decide

/-- In a queue whose messages have one byte the NUL behind such a message is written at index `1`
    of a block of one byte. -/
theorem nul_behind_block :
    ∃ s : State Bool, Reachable (TaskQueue.step ⟨10, 1⟩ none twoTasks) (State.fresh true) s ∧
      s.writes = [1] ∧ ¬ WithinBlock ⟨10, 1⟩ s := by
  obtain ⟨s, hs, hw⟩ := reachable_of_run_map (TaskQueue.step ⟨10, 1⟩ none twoTasks)
    (State.fresh true) (bothSent ++ List.replicate 2 (.worker none [])) State.writes
    (c := [1]) (by decide +kernel)
  refine ⟨s, hs, hw, fun h => ?_⟩
  exact absurd (h.writes 1 (by rw [hw]; decide)) (by decide)

end TaskQueue
