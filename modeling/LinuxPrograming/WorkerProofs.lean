import Mathlib.Data.List.TakeDrop
import LinuxPrograming.TransitionProofs
import LinuxPrograming.PriorityQueueProofs
import LinuxPrograming.DispatcherProofs

/-!
# The task queue (`7-Queue/`): the worker and its dispatchers

Any number of dispatchers and one worker run at the same time, and a `SIGINT` may be sent to the
worker.  Each system call of a step succeeds or fails as the action says: `mq_receive` may report
`EAGAIN` or `EINTR` at any time, but takes a message only if there is one.

The worker has one buffer of `mq_msgsize` bytes for all messages.  Neither the buffer nor its
terminating NUL needs more when a message is shorter; the NUL of a message of `mq_msgsize` bytes is
written behind the block, and what `printf` finds there is anything.

* **`DispatcherInv`** — a dispatcher of the system does what a run of `main` does.
* **`WorkerInv`** — what has been handed out has been printed, up to the message in hand.
* **`tasks_printed_in_order`** — each task is printed at most once, as it was sent, none is dropped
  once handed out, and those that wait together are printed in the order of the queue.
-/

namespace TaskQueue

open Transition CmnBase StrUtils

/-! ## The program -/

/-- `struct mq_attr`. -/
structure MqAttr where
  mq_maxmsg  : Nat
  mq_msgsize : Nat

/-- The errors that the worker tells apart. -/
inductive Errno where
  | EAGAIN
  | EINTR
  | other
deriving DecidableEq

/-- Where the worker is: before the call or the statement that the control point names; `test` is
    the loop condition. -/
inductive WorkerCtrl where
  | sigaction
  | mq_open
  | mq_getattr
  | malloc
  | test
  | mq_receive
  | usleep
  | terminateString
  | printf
  | free
  | mq_close
  | mq_unlink
  | ended (e : Ending)
  | killed
deriving DecidableEq

/-- Where a dispatcher is. -/
inductive DispatcherCtrl where
  | start
  | mq_open (m : Message)
  | mq_send (m : Message)
  | mq_close (status : Nat)
  | ended (e : Ending)
deriving DecidableEq

/-- A line of the worker's output: `Processing task (priority: %d): %s`. -/
structure Line where
  prio : Int
  text : List UInt8
deriving DecidableEq

/-- The worker: where it is, its variables, and whether `handle_signal` is installed. -/
structure Worker where
  ctrl       : WorkerCtrl
  handler    : Bool
  is_running : Bool
  bytes_read : Nat
  prio       : UInt32
  buffer     : List UInt8

abbrev TaskEntry := PriorityEntry Nat (List UInt8)

/-- The processes, the queue, whether its name is linked, whether `SIGINT` has been sent, and the
    worker's output. -/
structure State (ι : Type) where
  worker      : Worker
  dispatcher  : ι → DispatcherCtrl
  queue       : PriorityQueue Nat (List UInt8)
  linked      : Bool
  interrupted : Bool
  output      : List Line

/-- A step of the worker, whose call fails with an error and which finds some bytes on the heap; a
    step of a dispatcher, whose call succeeds or not; or `SIGINT`. -/
inductive Act (ι : Type) where
  | worker (error : Option Errno) (heap : List UInt8)
  | dispatcher (i : ι) (ok : Bool)
  | sigint

variable {ι : Type}

/-- The worker is elsewhere. -/
def State.goto (s : State ι) (c : WorkerCtrl) : State ι :=
  { s with worker := { s.worker with ctrl := c } }

/-- What `%s` prints: the bytes up to the first NUL, or the whole block and what is behind it. -/
def printed (buffer behind : List UInt8) : List UInt8 :=
  if buffer.all fun c => !is_null c then buffer ++ behind
  else buffer.takeWhile fun c => !is_null c

/-- `main` of `worker.c`. -/
def workerStep (attr : MqAttr) (dumpcore : Option String) (s : State ι) (error : Option Errno)
    (heap : List UInt8) : Option (State ι) :=
  let failed := s.goto (.ended (terminate dumpcore EXIT_FAILURE true))
  match s.worker.ctrl with
  | .sigaction =>
      if error = none then
        some { s with worker := { s.worker with ctrl := .mq_open, handler := true } }
      else some failed
  | .mq_open =>
      -- `O_CREAT`
      if error = none then some { s.goto .mq_getattr with linked := true } else some failed
  | .mq_getattr => if error = none then some (s.goto .malloc) else some failed
  | .malloc =>
      if error = none then
        some { s with worker :=
          { s.worker with ctrl := .test, buffer := heap.takeD attr.mq_msgsize 0 } }
      else some failed
  | .test => some (s.goto (if s.worker.is_running then .mq_receive else .free))
  | .mq_receive =>
      match error with
      | none =>
          s.queue.serve.map fun (e, q) =>
            { s with
              worker :=
                { s.worker with
                  ctrl := .terminateString
                  bytes_read := e.val.length
                  prio := UInt32.ofNat e.prio
                  buffer := e.val ++ s.worker.buffer.drop e.val.length }
              queue := q }
      | some .EAGAIN => some (s.goto .usleep)
      | some .EINTR => some (s.goto .test)
      | some .other => some (s.goto .free)
  | .usleep => some (s.goto .test)
  | .terminateString =>
      -- an index outside the block is not one of the list
      some { s with worker :=
        { s.worker with ctrl := .printf, buffer := s.worker.buffer.set s.worker.bytes_read 0 } }
  | .printf =>
      some { s.goto .test with
        output := s.output ++ [⟨s.worker.prio.toInt32.toInt, printed s.worker.buffer heap⟩] }
  | .free => some (s.goto .mq_close)
  | .mq_close => some (s.goto .mq_unlink)
  | .mq_unlink => some { s.goto (.ended (.exit 0)) with linked := false }
  | .ended _ | .killed => none

/-- A dispatcher is elsewhere. -/
def State.move [DecidableEq ι] (s : State ι) (i : ι) (c : DispatcherCtrl) : State ι :=
  { s with dispatcher := Function.update s.dispatcher i c }

/-- `main` of `dispatcher.c`, call by call.  A queue that is full keeps the sender waiting, and a
    message of more than `mq_msgsize` bytes is not accepted. -/
def dispatcherStep [DecidableEq ι] (attr : MqAttr) (dumpcore : Option String)
    (argv : ι → List CString) (s : State ι) (i : ι) (ok : Bool) : Option (State ι) :=
  match s.dispatcher i with
  | .start =>
      match request (argv i) with
      | none => some (s.move i (.ended (terminate dumpcore EXIT_FAILURE false)))
      | some m => some (s.move i (.mq_open m))
  | .mq_open m =>
      if ok then if s.linked then some (s.move i (.mq_send m)) else none
      else some (s.move i (.ended (.exit 1)))
  | .mq_send m =>
      match mq_send ok m with
      | none => some (s.move i (.mq_close 1))
      | some m =>
          if s.queue.waiting.length < attr.mq_maxmsg ∧ m.body.length ≤ attr.mq_msgsize then
            some { s.move i (.mq_close 0) with queue := s.queue.arrive m.prio.toNat m.body }
          else none
  | .mq_close status => some (s.move i (.ended (.exit status)))
  | .ended _ => none

/-- The one `SIGINT`: `handle_signal` restores the default action, which is also what the signal
    has before `sigaction`.  `signal` does not fail on `SIGINT`. -/
def sigintStep (s : State ι) : Option (State ι) :=
  if s.interrupted then none
  else
    match s.worker.ctrl with
    | .ended _ | .killed => none
    | _ =>
        if s.worker.handler then
          some { s with
            worker := { s.worker with is_running := false, handler := false }
            interrupted := true }
        else some { s.goto .killed with interrupted := true }

def step [DecidableEq ι] (attr : MqAttr) (dumpcore : Option String) (argv : ι → List CString)
    (s : State ι) : Act ι → Option (State ι)
  | .worker error heap => workerStep attr dumpcore s error heap
  | .dispatcher i ok => dispatcherStep attr dumpcore argv s i ok
  | .sigint => sigintStep s

/-- Before everything; the queue is empty, and `linked` tells whether there is one already. -/
def State.fresh (linked : Bool) : State ι where
  worker := ⟨.sigaction, false, true, 0, 0, []⟩
  dispatcher := fun _ => .start
  queue := .fresh
  linked := linked
  interrupted := false
  output := []

/-! ## The dispatchers -/

variable {attr : MqAttr} {dumpcore : Option String} {argv : ι → List CString}

/-- Where a run of `main` with these arguments may be. -/
def Stage (argv : List CString) : DispatcherCtrl → Prop
  | .start => True
  | .mq_open m | .mq_send m => request argv = some m
  | .mq_close status => ∃ k, (main k argv).ending = .exit status
  | .ended e => ∃ k, (main k argv).ending = e

/-- A message in the books is one that a run of `main` enqueues, and fits in a buffer. -/
def Sent (attr : MqAttr) (argv : ι → List CString) (e : TaskEntry) : Prop :=
  e.prio < MQ_PRIO_MAX ∧ e.val.length ≤ attr.mq_msgsize
    ∧ ∃ i k, (main k (argv i)).enqueued = some ⟨UInt32.ofNat e.prio, e.val⟩

/-- A dispatcher of the system does what a run of `main` does. -/
structure DispatcherInv (attr : MqAttr) (argv : ι → List CString) (s : State ι) : Prop where
  stage   : ∀ i, Stage (argv i) (s.dispatcher i)
  arrived : ∀ e ∈ s.queue.arrived, Sent attr argv e

/-- What is sent is a C string. -/
theorem Sent.noNul {e : TaskEntry} (h : Sent attr argv e) : (0 : UInt8) ∉ e.val := by
  obtain ⟨-, -, i, k, henq⟩ := h
  exact request_noNul (main_enqueues_iff.mp henq).1

/-- A dispatcher moves on. -/
theorem DispatcherInv.move [DecidableEq ι] {s : State ι} {i : ι} {c : DispatcherCtrl}
    (hI : DispatcherInv attr argv s) (hc : Stage (argv i) c) :
    DispatcherInv attr argv (s.move i c) := by
  refine ⟨?_, hI.arrived⟩
  intro j
  show Stage (argv j) (Function.update s.dispatcher i c j)
  by_cases hj : j = i
  · subst hj
    rw [Function.update_self]
    exact hc
  · rw [Function.update_of_ne hj]
    exact hI.stage j

/-- One step of a dispatcher. -/
theorem DispatcherInv.dispatcher_step [DecidableEq ι] {s s' : State ι} {i : ι} {ok : Bool}
    (hI : DispatcherInv attr argv s)
    (h : dispatcherStep attr dumpcore argv s i ok = some s') : DispatcherInv attr argv s' := by
  have hstage := hI.stage i
  rw [dispatcherStep] at h
  cases hc : s.dispatcher i with
  | start =>
      simp only [hc] at h
      cases hr : request (argv i) with
      | none =>
          rw [hr] at h
          cases h
          refine hI.move ⟨⟨dumpcore, true, true⟩, ?_⟩
          rw [main, hr]
      | some m =>
          rw [hr] at h
          cases h
          exact hI.move hr
  | mq_open m =>
      rw [hc] at hstage
      simp only [hc] at h
      cases ok with
      | true =>
          obtain ⟨-, heq⟩ := Option.ite_none_right_eq_some.mp h
          cases heq
          exact hI.move hstage
      | false =>
          cases h
          refine hI.move ⟨⟨dumpcore, false, true⟩, ?_⟩
          rw [main, show request (argv i) = some m from hstage]
          rfl
  | mq_send m =>
      rw [hc] at hstage
      simp only [hc] at h
      cases hs : mq_send ok m with
      | none =>
          rw [hs] at h
          cases h
          refine hI.move ⟨⟨dumpcore, true, ok⟩, ?_⟩
          rw [main, show request (argv i) = some m from hstage]
          simp [hs]
      | some m' =>
          rw [hs] at h
          obtain ⟨rfl, hlt, hok⟩ := mq_send_eq_some.mp hs
          obtain ⟨⟨-, hfits⟩, heq⟩ := Option.ite_none_right_eq_some.mp h
          cases heq
          -- the run of `main` in which the queue accepts the message enqueues it
          have henq : (main ⟨dumpcore, true, true⟩ (argv i)).enqueued = some m :=
            main_enqueues_iff.mpr ⟨hstage, rfl, hlt, rfl⟩
          have hmove : DispatcherInv attr argv (s.move i (.mq_close 0)) := by
            refine hI.move ⟨⟨dumpcore, true, ok⟩, ?_⟩
            rw [main, show request (argv i) = some m from hstage]
            simp [hs]
          refine ⟨hmove.stage, ?_⟩
          intro e he
          rcases List.mem_append.mp he with he | he
          · exact hI.arrived e he
          · rw [List.mem_singleton.mp he]
            refine ⟨hlt, hfits, i, _, henq.trans ?_⟩
            show some m = some ⟨UInt32.ofNat m.prio.toNat, m.body⟩
            rw [UInt32.ofNat_toNat]
  | mq_close status =>
      rw [hc] at hstage
      simp only [hc] at h
      cases h
      exact hI.move hstage
  | ended e =>
      simp only [hc] at h
      cases h

/-! ## The worker -/

/-- `sigaction` has succeeded and the worker has not ended. -/
def WorkerCtrl.installed : WorkerCtrl → Bool
  | .sigaction | .ended _ | .killed => false
  | _ => true

/-- The buffer is allocated and in use. -/
def WorkerCtrl.inLoop : WorkerCtrl → Bool
  | .test | .mq_receive | .usleep | .terminateString | .printf => true
  | _ => false

/-- The worker is between `mq_receive` and the end of `printf`. -/
def WorkerCtrl.midway : WorkerCtrl → Bool
  | .terminateString | .printf => true
  | _ => false

/-- A line of the output shows an entry of the queue; the text is exact unless it fills the
    buffer. -/
def Shows (attr : MqAttr) (e : TaskEntry) (l : Line) : Prop :=
  l.prio = e.prio ∧ (e.val.length < attr.mq_msgsize → l.text = e.val)

/-- What `mq_receive` leaves in the variables. -/
structure Holds (w : Worker) (e : TaskEntry) : Prop where
  prio       : w.prio = UInt32.ofNat e.prio
  bytes_read : w.bytes_read = e.val.length
  buffer     : w.buffer.take e.val.length = e.val

/-- What has been handed out and not been printed. -/
def InHand (attr : MqAttr) (w : Worker) (es : List TaskEntry) : Prop :=
  match w.ctrl with
  | .terminateString => ∃ e, es = [e] ∧ Holds w e
  | .printf => ∃ e, es = [e] ∧ Holds w e
      ∧ (e.val.length < attr.mq_msgsize → w.buffer[e.val.length]? = some 0)
  | _ => es = []

/-- What has been handed out has been printed, up to the message in hand. -/
structure WorkerInv (attr : MqAttr) (s : State ι) : Prop where
  armed  : s.worker.ctrl.installed = true → s.worker.handler = true ∨ s.interrupted = true
  block  : s.worker.ctrl.inLoop = true → s.worker.buffer.length = attr.mq_msgsize
  output : ∃ done hand, s.queue.served = done ++ hand
    ∧ List.Forall₂ (Shows attr) done s.output ∧ InHand attr s.worker hand

/-- Outside an iteration nothing is in hand. -/
theorem inHand_idle {w : Worker} {es : List TaskEntry} (h : w.ctrl.midway = false) :
    InHand attr w es ↔ es = [] := by
  rw [InHand]
  cases hc : w.ctrl with
  | terminateString | printf =>
      rw [hc] at h
      cases h
  | _ => exact Iff.rfl

/-- Outside an iteration only the handler and the buffer matter. -/
theorem WorkerInv.idle {s s' : State ι} (hI : WorkerInv attr s)
    (hfrom : s.worker.ctrl.midway = false) (hto : s'.worker.ctrl.midway = false)
    (hserved : s'.queue.served = s.queue.served) (hout : s'.output = s.output)
    (harmed : s'.worker.ctrl.installed = true →
      s'.worker.handler = true ∨ s'.interrupted = true)
    (hblock : s'.worker.ctrl.inLoop = true → s'.worker.buffer.length = attr.mq_msgsize) :
    WorkerInv attr s' := by
  obtain ⟨done, hand, hs, ho, hhand⟩ := hI.output
  refine ⟨harmed, hblock, done, hand, hserved.trans hs, ?_, ?_⟩
  · rw [hout]
    exact ho
  · exact (inHand_idle hto).mpr ((inHand_idle hfrom).mp hhand)

/-- The worker moves on outside an iteration. -/
theorem WorkerInv.goto {s : State ι} {c : WorkerCtrl} (hI : WorkerInv attr s)
    (hfrom : s.worker.ctrl.midway = false) (hto : c.midway = false)
    (harmed : c.installed = true → s.worker.ctrl.installed = true)
    (hblock : c.inLoop = true → s.worker.ctrl.inLoop = true) : WorkerInv attr (s.goto c) :=
  hI.idle hfrom hto rfl rfl (fun h => hI.armed (harmed h)) (fun h => hI.block (hblock h))

/-- Whether the name of the queue is linked does not matter to the worker. -/
theorem WorkerInv.link {s : State ι} (hI : WorkerInv attr s) (linked : Bool) :
    WorkerInv attr { s with linked := linked } := ⟨hI.armed, hI.block, hI.output⟩

/-- What `%s` prints of a message that leaves room for its NUL. -/
theorem printed_eq {buffer behind val : List UInt8} (hval : (0 : UInt8) ∉ val)
    (htake : buffer.take val.length = val) (hnul : buffer[val.length]? = some 0) :
    printed buffer behind = val := by
  obtain ⟨hlt, hget⟩ := List.getElem?_eq_some_iff.mp hnul
  have hsplit : buffer = val ++ 0 :: buffer.drop (val.length + 1) := by
    conv_lhs => rw [← List.take_append_drop val.length buffer]
    rw [htake, List.drop_eq_getElem_cons hlt, hget]
  have hnull : ∀ c ∈ val, (!is_null c) = true := by
    intro c hc
    have : c ≠ 0 := fun h => hval (h ▸ hc)
    simpa [is_null] using this
  rw [printed]
  rw [hsplit, if_neg, List.takeWhile_append_of_pos hnull]
  · simp [is_null]
  · simp [is_null]

/-- `mq_receive` takes a message. -/
theorem WorkerInv.receive {s : State ι} {e : TaskEntry} {he : e ∈ s.queue.waiting}
    (hI : WorkerInv attr s) (hc : s.worker.ctrl = .mq_receive)
    (hfits : e.val.length ≤ attr.mq_msgsize) :
    WorkerInv attr { s with
      worker :=
        { s.worker with
          ctrl := .terminateString
          bytes_read := e.val.length
          prio := UInt32.ofNat e.prio
          buffer := e.val ++ s.worker.buffer.drop e.val.length }
      queue := s.queue.handOut e he } := by
  have hlen := hI.block (by rw [hc]; rfl)
  refine ⟨fun _ => hI.armed (by rw [hc]; rfl), ?_, ?_⟩
  · intro _
    show (e.val ++ s.worker.buffer.drop e.val.length).length = attr.mq_msgsize
    rw [List.length_append, List.length_drop]
    omega
  · obtain ⟨done, hand, hserved, hout, hhand⟩ := hI.output
    have hnil := (inHand_idle (by rw [hc]; rfl)).mp hhand
    refine ⟨done, [e], ?_, hout, e, rfl, rfl, rfl, List.take_left' rfl⟩
    show s.queue.served ++ [e] = done ++ [e]
    rw [hserved, hnil, List.append_nil]

/-- `buffer[bytes_read] = '\0'`: it leaves the message as it is. -/
theorem WorkerInv.terminateString {s : State ι} (hI : WorkerInv attr s)
    (hc : s.worker.ctrl = .terminateString) :
    WorkerInv attr { s with worker :=
      { s.worker with ctrl := .printf, buffer := s.worker.buffer.set s.worker.bytes_read 0 } } := by
  have hlen := hI.block (by rw [hc]; rfl)
  refine ⟨fun _ => hI.armed (by rw [hc]; rfl), ?_, ?_⟩
  · intro _
    show (s.worker.buffer.set s.worker.bytes_read 0).length = attr.mq_msgsize
    rw [List.length_set]
    exact hlen
  · obtain ⟨done, hand, hserved, hout, hhand⟩ := hI.output
    rw [InHand] at hhand
    rw [hc] at hhand
    obtain ⟨e, rfl, hholds⟩ := hhand
    refine ⟨done, [e], hserved, hout, e, rfl, ⟨hholds.prio, hholds.bytes_read, ?_⟩, ?_⟩
    -- the NUL goes behind the message, or nowhere if this fills the block
    · show (s.worker.buffer.set s.worker.bytes_read 0).take e.val.length = e.val
      rw [hholds.bytes_read, List.take_set_of_le (Nat.le_refl _)]
      exact hholds.buffer
    · intro hlt
      show (s.worker.buffer.set s.worker.bytes_read 0)[e.val.length]? = some 0
      rw [hholds.bytes_read]
      exact List.getElem?_set_self (by omega)

/-- `printf` prints the message in hand. -/
theorem WorkerInv.printf {s : State ι} {heap : List UInt8} (hI : WorkerInv attr s)
    (hD : DispatcherInv attr argv s) (hc : s.worker.ctrl = .printf) :
    WorkerInv attr { s.goto .test with
      output := s.output ++ [⟨s.worker.prio.toInt32.toInt, printed s.worker.buffer heap⟩] } := by
  refine ⟨fun _ => hI.armed (by rw [hc]; rfl), fun _ => hI.block (by rw [hc]; rfl), ?_⟩
  obtain ⟨done, hand, hserved, hout, hhand⟩ := hI.output
  rw [InHand] at hhand
  rw [hc] at hhand
  obtain ⟨e, rfl, hholds, hnul⟩ := hhand
  have hsent : Sent attr argv e :=
    hD.arrived e (s.queue.served_subset (by rw [hserved]; simp))
  have hshows : Shows attr e ⟨s.worker.prio.toInt32.toInt, printed s.worker.buffer heap⟩ := by
    refine ⟨?_, fun hlt => printed_eq hsent.noNul hholds.buffer (hnul hlt)⟩
    -- `%d` of an unsigned value: the priorities of the queue are small
    have hmax : MQ_PRIO_MAX = 32768 := rfl
    have hlt := hsent.1
    show s.worker.prio.toInt32.toInt = e.prio
    rw [hholds.prio, toInt32_ofNat, Int32.toInt_ofInt_of_le (by omega) (by omega)]
  refine ⟨done ++ [e], [], by rw [List.append_nil]; exact hserved, ?_, ?_⟩
  · exact List.rel_append hout (List.Forall₂.cons hshows .nil)
  · exact (inHand_idle rfl).mpr rfl

/-- The worker ends outside an iteration. -/
theorem WorkerInv.stop {s : State ι} {c : WorkerCtrl} (hI : WorkerInv attr s)
    (hfrom : s.worker.ctrl.midway = false) (hc : c.installed = false) :
    WorkerInv attr (s.goto c) := by
  have hidle : c.midway = false ∧ c.inLoop = false := by
    cases c with
    | sigaction | ended e | killed => exact ⟨rfl, rfl⟩
    | _ => cases hc
  refine hI.goto hfrom hidle.1 ?_ ?_
  · intro h
    rw [hc] at h
    cases h
  · intro h
    rw [hidle.2] at h
    cases h

/-- One step of the worker. -/
theorem WorkerInv.worker_step {s s' : State ι} {error : Option Errno} {heap : List UInt8}
    (hI : WorkerInv attr s) (hD : DispatcherInv attr argv s)
    (h : workerStep attr dumpcore s error heap = some s') : WorkerInv attr s' := by
  unfold workerStep at h
  cases hc : s.worker.ctrl with
  | sigaction =>
      have hidle : s.worker.ctrl.midway = false := by rw [hc]; rfl
      simp only [hc] at h
      split at h
      · cases h
        exact hI.idle hidle rfl rfl rfl (fun _ => .inl rfl) (fun h => by cases h)
      · cases h
        exact hI.stop hidle rfl
  | mq_open =>
      have hidle : s.worker.ctrl.midway = false := by rw [hc]; rfl
      simp only [hc] at h
      split at h
      · cases h
        exact (hI.goto (c := .mq_getattr) hidle rfl (fun _ => by rw [hc]; rfl)
          (fun h => by cases h)).link true
      · cases h
        exact hI.stop hidle rfl
  | mq_getattr =>
      have hidle : s.worker.ctrl.midway = false := by rw [hc]; rfl
      simp only [hc] at h
      split at h
      · cases h
        exact hI.goto hidle rfl (fun _ => by rw [hc]; rfl) (fun h => by cases h)
      · cases h
        exact hI.stop hidle rfl
  | malloc =>
      have hidle : s.worker.ctrl.midway = false := by rw [hc]; rfl
      simp only [hc] at h
      split at h
      · cases h
        exact hI.idle hidle rfl rfl rfl (fun _ => hI.armed (by rw [hc]; rfl))
          (fun _ => List.takeD_length _ _ _)
      · cases h
        exact hI.stop hidle rfl
  | test =>
      have hidle : s.worker.ctrl.midway = false := by rw [hc]; rfl
      simp only [hc] at h
      cases h
      cases s.worker.is_running with
      | true => exact hI.goto hidle rfl (fun _ => by rw [hc]; rfl) (fun _ => by rw [hc]; rfl)
      | false => exact hI.goto hidle rfl (fun _ => by rw [hc]; rfl) (fun h => by cases h)
  | mq_receive =>
      have hidle : s.worker.ctrl.midway = false := by rw [hc]; rfl
      simp only [hc] at h
      cases error with
      | none =>
          obtain ⟨⟨e, q⟩, hserve, heq⟩ := Option.map_eq_some_iff.mp h
          obtain ⟨hhead, rfl⟩ := s.queue.serve_eq_some hserve
          cases heq
          have he := s.queue.head_mem hhead
          exact hI.receive hc (hD.arrived e (s.queue.mem_waiting.mp he).1).2.1
      | some errno =>
          cases errno with
          | EAGAIN =>
              cases h
              exact hI.goto hidle rfl (fun _ => by rw [hc]; rfl) (fun _ => by rw [hc]; rfl)
          | EINTR =>
              cases h
              exact hI.goto hidle rfl (fun _ => by rw [hc]; rfl) (fun _ => by rw [hc]; rfl)
          | other =>
              cases h
              exact hI.goto hidle rfl (fun _ => by rw [hc]; rfl) (fun h => by cases h)
  | usleep =>
      simp only [hc] at h
      cases h
      exact hI.goto (by rw [hc]; rfl) rfl (fun _ => by rw [hc]; rfl) (fun _ => by rw [hc]; rfl)
  | terminateString =>
      simp only [hc] at h
      cases h
      exact hI.terminateString hc
  | printf =>
      simp only [hc] at h
      cases h
      exact hI.printf hD hc
  | free | mq_close =>
      simp only [hc] at h
      cases h
      exact hI.goto (by rw [hc]; rfl) rfl (fun _ => by rw [hc]; rfl) (fun h => by cases h)
  | mq_unlink =>
      simp only [hc] at h
      cases h
      exact (hI.stop (by rw [hc]; rfl) rfl).link false
  | ended e | killed =>
      simp only [hc] at h
      cases h

/-- The default action of `SIGINT` does not hit the worker in an iteration. -/
theorem sigintStep_cases {s s' : State ι} (hI : WorkerInv attr s) (h : sigintStep s = some s') :
    s' = { s with
      worker := { s.worker with is_running := false, handler := false }, interrupted := true }
    ∨ (s.worker.ctrl.midway = false ∧ s' = { s.goto .killed with interrupted := true }) := by
  rw [sigintStep] at h
  cases hint : s.interrupted with
  | true =>
      rw [hint] at h
      cases h
  | false =>
      have hmid : s.worker.handler = false → s.worker.ctrl.midway = false := by
        intro hh
        cases hm : s.worker.ctrl.midway with
        | false => rfl
        | true =>
            -- the handler has been there since `sigaction`, and only `SIGINT` removes it
            have hinst : s.worker.ctrl.installed = true := by
              cases hc : s.worker.ctrl with
              | terminateString | printf => rfl
              | _ =>
                  rw [hc] at hm
                  cases hm
            rcases hI.armed hinst with h' | h'
            · rw [hh] at h'
              cases h'
            · rw [hint] at h'
              cases h'
      rw [hint] at h
      simp only [Bool.false_eq_true, if_false] at h
      split at h
      · cases h
      · cases h
      · split at h
        · cases h
          exact .inl rfl
        · cases h
          exact .inr ⟨hmid (by simpa using ‹¬ s.worker.handler = true›), rfl⟩

/-- One `SIGINT`. -/
theorem WorkerInv.sigint_step {s s' : State ι} (hI : WorkerInv attr s)
    (h : sigintStep s = some s') : WorkerInv attr s' := by
  rcases sigintStep_cases hI h with rfl | ⟨hmid, rfl⟩
  · refine ⟨fun _ => .inr rfl, hI.block, ?_⟩
    obtain ⟨done, hand, hs, ho, hhand⟩ := hI.output
    refine ⟨done, hand, hs, ho, ?_⟩
    unfold InHand at hhand ⊢
    cases hc : s.worker.ctrl with
    | terminateString =>
        rw [hc] at hhand
        obtain ⟨e, rfl, hholds⟩ := hhand
        exact ⟨e, rfl, hholds.prio, hholds.bytes_read, hholds.buffer⟩
    | printf =>
        rw [hc] at hhand
        obtain ⟨e, rfl, hholds, hnul⟩ := hhand
        exact ⟨e, rfl, ⟨hholds.prio, hholds.bytes_read, hholds.buffer⟩, hnul⟩
    | _ =>
        rw [hc] at hhand
        exact hhand
  · exact hI.idle hmid rfl rfl rfl (fun h => by cases h) (fun h => by cases h)

/-! ## The system -/

/-- What a step of the worker does not touch. -/
theorem workerStep_frame {s s' : State ι} {error : Option Errno} {heap : List UInt8}
    (h : workerStep attr dumpcore s error heap = some s') :
    s'.dispatcher = s.dispatcher
      ∧ (s'.queue = s.queue ∨ PriorityQueue.step s.queue .serve = some s'.queue) := by
  unfold workerStep at h
  cases hc : s.worker.ctrl with
  | sigaction | mq_open | mq_getattr | malloc =>
      simp only [hc] at h
      split at h
      · cases h
        exact ⟨rfl, .inl rfl⟩
      · cases h
        exact ⟨rfl, .inl rfl⟩
  | mq_receive =>
      simp only [hc] at h
      cases error with
      | none =>
          obtain ⟨⟨e, q⟩, hserve, heq⟩ := Option.map_eq_some_iff.mp h
          cases heq
          exact ⟨rfl, .inr (by rw [PriorityQueue.step, hserve]; rfl)⟩
      | some errno =>
          cases errno with
          | EAGAIN | EINTR | other =>
              cases h
              exact ⟨rfl, .inl rfl⟩
  | test | usleep | terminateString | printf | free | mq_close | mq_unlink =>
      simp only [hc] at h
      cases h
      exact ⟨rfl, .inl rfl⟩
  | ended e | killed =>
      simp only [hc] at h
      cases h

/-- What a step of a dispatcher does not touch. -/
theorem dispatcherStep_frame [DecidableEq ι] {s s' : State ι} {i : ι} {ok : Bool}
    (h : dispatcherStep attr dumpcore argv s i ok = some s') :
    s'.worker = s.worker ∧ s'.interrupted = s.interrupted ∧ s'.output = s.output
      ∧ (s'.queue = s.queue ∨ ∃ prio val, s'.queue = s.queue.arrive prio val) := by
  rw [dispatcherStep] at h
  cases hc : s.dispatcher i with
  | start =>
      simp only [hc] at h
      split at h
      · cases h
        exact ⟨rfl, rfl, rfl, .inl rfl⟩
      · cases h
        exact ⟨rfl, rfl, rfl, .inl rfl⟩
  | mq_open m =>
      simp only [hc] at h
      split at h
      · obtain ⟨-, heq⟩ := Option.ite_none_right_eq_some.mp h
        cases heq
        exact ⟨rfl, rfl, rfl, .inl rfl⟩
      · cases h
        exact ⟨rfl, rfl, rfl, .inl rfl⟩
  | mq_send m =>
      simp only [hc] at h
      split at h
      · cases h
        exact ⟨rfl, rfl, rfl, .inl rfl⟩
      · obtain ⟨-, heq⟩ := Option.ite_none_right_eq_some.mp h
        cases heq
        exact ⟨rfl, rfl, rfl, .inr ⟨_, _, rfl⟩⟩
  | mq_close status =>
      simp only [hc] at h
      cases h
      exact ⟨rfl, rfl, rfl, .inl rfl⟩
  | ended e =>
      simp only [hc] at h
      cases h

/-- `SIGINT` touches the worker alone. -/
theorem sigintStep_frame {s s' : State ι} (h : sigintStep s = some s') :
    s'.dispatcher = s.dispatcher ∧ s'.queue = s.queue := by
  rw [sigintStep] at h
  split at h
  · cases h
  · split at h
    · cases h
    · cases h
    · split at h
      · cases h
        exact ⟨rfl, rfl⟩
      · cases h
        exact ⟨rfl, rfl⟩

variable [DecidableEq ι]

/-- Every step of the system leaves the queue alone or is one of its steps. -/
theorem queue_step {s s' : State ι} {a : Act ι} (h : step attr dumpcore argv s a = some s') :
    s'.queue = s.queue ∨ ∃ ev, PriorityQueue.step s.queue ev = some s'.queue := by
  cases a with
  | worker error heap =>
      rcases (workerStep_frame h).2 with heq | hserve
      · exact .inl heq
      · exact .inr ⟨.serve, hserve⟩
  | dispatcher i ok =>
      rcases (dispatcherStep_frame h).2.2.2 with heq | ⟨prio, val, heq⟩
      · exact .inl heq
      · exact .inr ⟨.arrive prio val, by rw [heq]; rfl⟩
  | sigint => exact .inl (sigintStep_frame h).2

/-- **The queue of the system is a priority queue**: its runs are runs of one. -/
theorem queue_reachable {s s' : State ι} (h : Reachable (step attr dumpcore argv) s s') :
    Reachable PriorityQueue.step s.queue s'.queue := by
  obtain ⟨q, hq, heq⟩ : ∃ q, Reachable PriorityQueue.step s.queue q ∧ s'.queue = q := by
    refine h.simulate (R := fun t q => t.queue = q) rfl ?_
    intro t q a t' hR _ hs
    subst hR
    rcases queue_step hs with heq | ⟨ev, hev⟩
    · exact ⟨t.queue, .init, heq⟩
    · exact ⟨t'.queue, .next .init trivial hev, rfl⟩
  rw [heq]
  exact hq

/-- What serving does to the books of what has arrived. -/
theorem arrived_of_serve {q q' : PriorityQueue Nat (List UInt8)}
    (h : PriorityQueue.step q .serve = some q') : q'.arrived = q.arrived := by
  obtain ⟨⟨e, q₁⟩, hserve, rfl⟩ := Option.map_eq_some_iff.mp h
  obtain ⟨-, rfl⟩ := q.serve_eq_some hserve
  rfl

omit [DecidableEq ι] in
/-- The worker and `SIGINT` leave the dispatchers and their messages alone. -/
theorem DispatcherInv.frame {s s' : State ι} (hI : DispatcherInv attr argv s)
    (hd : s'.dispatcher = s.dispatcher) (hq : s'.queue.arrived = s.queue.arrived) :
    DispatcherInv attr argv s' := by
  refine ⟨?_, fun e he => hI.arrived e (hq ▸ he)⟩
  intro i
  rw [hd]
  exact hI.stage i

/-- A dispatcher leaves the worker, its output and what has been handed out alone. -/
theorem WorkerInv.dispatcher_step {s s' : State ι} {i : ι} {ok : Bool} (hI : WorkerInv attr s)
    (h : dispatcherStep attr dumpcore argv s i ok = some s') : WorkerInv attr s' := by
  obtain ⟨hw, hint, hout, hq⟩ := dispatcherStep_frame h
  have hserved : s'.queue.served = s.queue.served := by
    rcases hq with heq | ⟨prio, val, heq⟩
    · rw [heq]
    · rw [heq, PriorityQueue.served_arrive]
  refine ⟨?_, ?_, ?_⟩
  · rw [hw, hint]
    exact hI.armed
  · rw [hw]
    exact hI.block
  · rw [hw, hserved, hout]
    exact hI.output

/-- The invariant of the system. -/
structure Inv (attr : MqAttr) (argv : ι → List CString) (s : State ι) : Prop where
  dispatchers : DispatcherInv attr argv s
  worker      : WorkerInv attr s

omit [DecidableEq ι] in
theorem Inv.fresh (linked : Bool) : Inv attr argv (State.fresh linked : State ι) where
  dispatchers := ⟨fun _ => trivial, fun _ he => by cases he⟩
  worker := ⟨fun h => (by cases h), fun h => (by cases h), [], [], rfl, .nil, rfl⟩

/-- One step of the system. -/
theorem Inv.step {s s' : State ι} {a : Act ι} (hI : Inv attr argv s)
    (h : TaskQueue.step attr dumpcore argv s a = some s') : Inv attr argv s' := by
  obtain ⟨hD, hW⟩ := hI
  cases a with
  | worker error heap =>
      obtain ⟨hd, hq⟩ := workerStep_frame h
      refine ⟨hD.frame hd ?_, hW.worker_step hD h⟩
      rcases hq with heq | hserve
      · rw [heq]
      · exact arrived_of_serve hserve
  | dispatcher i ok => exact ⟨hD.dispatcher_step h, hW.dispatcher_step h⟩
  | sigint =>
      obtain ⟨hd, hq⟩ := sigintStep_frame h
      exact ⟨hD.frame hd (by rw [hq]), hW.sigint_step h⟩

theorem Inv.reachable {linked : Bool} {s : State ι}
    (h : Reachable (TaskQueue.step attr dumpcore argv) (State.fresh linked) s) :
    Inv attr argv s :=
  h.invariant (.fresh linked) fun _ _ _ hI _ hs => hI.step hs

/-- `mq_receive` is not kept from a message: it can succeed exactly if one waits. -/
theorem receive_ready {s : State ι} {heap : List UInt8} (hc : s.worker.ctrl = .mq_receive) :
    TaskQueue.step attr dumpcore argv s (.worker none heap) ≠ none ↔ s.queue.waiting ≠ [] := by
  rw [ne_eq, ne_eq, ← s.queue.head_eq_none, ← s.queue.serve_eq_none]
  show ¬ workerStep attr dumpcore s none heap = none ↔ _
  unfold workerStep
  simp only [hc, Option.map_eq_none_iff]

/-! ## The output -/

/-- The messages that have been printed. -/
def State.printedTasks (s : State ι) : List TaskEntry := s.queue.served.take s.output.length

omit [DecidableEq ι] in
/-- What has been handed out is what has been printed and what is in hand. -/
theorem WorkerInv.served_eq {s : State ι} (hI : WorkerInv attr s) :
    List.Forall₂ (Shows attr) s.printedTasks s.output
      ∧ ∃ hand, s.queue.served = s.printedTasks ++ hand ∧ InHand attr s.worker hand := by
  obtain ⟨done, hand, hserved, hout, hhand⟩ := hI.output
  have hprinted : s.printedTasks = done := by
    rw [State.printedTasks]
    rw [hserved, ← hout.length_eq, List.take_left' rfl]
  rw [hprinted]
  exact ⟨hout, hand, hserved, hhand⟩

omit [DecidableEq ι] in
/-- Outside an iteration everything that has been handed out has been printed. -/
theorem WorkerInv.printed_all {s : State ι} (hI : WorkerInv attr s)
    (hidle : s.worker.ctrl.midway = false) : s.printedTasks = s.queue.served := by
  obtain ⟨-, hand, hserved, hhand⟩ := hI.served_eq
  rw [hserved, (inHand_idle hidle).mp hhand, List.append_nil]

omit [DecidableEq ι] in
/-- An iteration that has taken a message prints it. -/
theorem midway_cases {s : State ι} (h : s.worker.ctrl.midway = true) :
    s.worker.ctrl = .terminateString ∨ s.worker.ctrl = .printf := by
  cases hc : s.worker.ctrl with
  | terminateString => exact .inl rfl
  | printf => exact .inr rfl
  | _ =>
      rw [hc] at h
      cases h

/-- An iteration that has taken a message is not blocked, and no step of anyone takes the worker
    out of it before the message is printed. -/
theorem Inv.finishes {s : State ι} (hI : Inv attr argv s)
    (hmid : s.worker.ctrl.midway = true) :
    (∀ error heap, TaskQueue.step attr dumpcore argv s (.worker error heap) ≠ none)
      ∧ ∀ a s', TaskQueue.step attr dumpcore argv s a = some s' →
        s'.queue.served = s.queue.served
        ∧ (s'.worker.ctrl.midway = true ∨ s'.printedTasks = s'.queue.served) := by
  constructor
  · intro error heap
    show workerStep attr dumpcore s error heap ≠ none
    unfold workerStep
    rcases midway_cases hmid with hc | hc
    · rw [hc]
      intro h
      cases h
    · rw [hc]
      intro h
      cases h
  · intro a s' hs
    cases a with
    | worker error heap =>
        have hs' : workerStep attr dumpcore s error heap = some s' := hs
        unfold workerStep at hs'
        rcases midway_cases hmid with hc | hc
        · rw [hc] at hs'
          cases hs'
          exact ⟨rfl, .inl rfl⟩
        · rw [hc] at hs'
          cases hs'
          exact ⟨rfl, .inr ((hI.step hs).worker.printed_all rfl)⟩
    | dispatcher i ok =>
        obtain ⟨hw, -, -, hq⟩ := dispatcherStep_frame hs
        refine ⟨?_, .inl (by rw [hw]; exact hmid)⟩
        rcases hq with heq | ⟨prio, val, heq⟩
        · rw [heq]
        · rw [heq, PriorityQueue.served_arrive]
    | sigint =>
        rcases sigintStep_cases hI.worker hs with rfl | ⟨hidle, -⟩
        · exact ⟨rfl, .inl hmid⟩
        · rw [hmid] at hidle
          cases hidle

/-- **THE WORKER'S OUTPUT**: whatever the dispatchers, the worker's calls and one `SIGINT` do, each
    message is printed at most once, as it was sent; outside an iteration all that has been handed
    out has been printed, and an iteration is not left before; and of two messages that once wait
    together the one that is before the other is printed before it. -/
theorem tasks_printed_in_order {linked : Bool} {s s' : State ι}
    (h : Reachable (TaskQueue.step attr dumpcore argv) (State.fresh linked) s)
    (h' : Reachable (TaskQueue.step attr dumpcore argv) s s') :
    (s'.printedTasks.Nodup ∧ s'.printedTasks ⊆ s'.queue.arrived
      ∧ ∀ e ∈ s'.queue.arrived, Sent attr argv e)
    ∧ List.Forall₂ (Shows attr) s'.printedTasks s'.output
    ∧ (s'.worker.ctrl.midway = false → s'.printedTasks = s'.queue.served)
    ∧ (s'.worker.ctrl.midway = true →
        (∀ error heap, TaskQueue.step attr dumpcore argv s' (.worker error heap) ≠ none)
        ∧ ∀ a s'', TaskQueue.step attr dumpcore argv s' a = some s'' →
          s''.queue.served = s'.queue.served
          ∧ (s''.worker.ctrl.midway = true ∨ s''.printedTasks = s''.queue.served))
    ∧ ∀ a b, a ∈ s.queue.waiting → b ∈ s.queue.waiting → a.Before b →
        b ∈ s'.printedTasks → [a, b].Sublist s'.printedTasks := by
  have hI : Inv attr argv s' := Inv.reachable (h.trans h')
  obtain ⟨hshows, hand, hserved, -⟩ := hI.worker.served_eq
  have hnd := s'.queue.served_nodup
  refine ⟨⟨?_, ?_, hI.dispatchers.arrived⟩, hshows, hI.worker.printed_all, hI.finishes, ?_⟩
  · exact hnd.sublist (List.take_sublist _ _)
  · intro e he
    exact s'.queue.served_subset (List.mem_of_mem_take he)
  · intro a b ha hb hab hprinted
    -- the queue has handed them out in order, and what is in hand comes last
    have hin : b ∈ s'.queue.served := List.mem_of_mem_take hprinted
    have hord := PriorityQueue.in_order (queue_reachable h') ha hb hab hin
    rw [hserved] at hord hnd
    exact PriorityQueue.pair_sublist_of_append hnd hord hprinted

/-- Two dispatchers: `dispatcher 1 a` and `dispatcher 2 b`. -/
def twoTasks : Bool → List CString
  | false => [⟨[100], by decide⟩, ⟨[49], by decide⟩, ⟨[97], by decide⟩]
  | true => [⟨[100], by decide⟩, ⟨[50], by decide⟩, ⟨[98], by decide⟩]

/-- Both tasks are sent while the worker prepares. -/
def bothSent : List (Act Bool) :=
  List.replicate 4 (.worker none []) ++ List.replicate 3 (.dispatcher false true)
    ++ List.replicate 3 (.dispatcher true true)

/-- The worker takes them, the second one in the iteration in which `SIGINT` arrives. -/
def bothTaken : List (Act Bool) :=
  List.replicate 6 (.worker none []) ++ [.sigint] ++ List.replicate 3 (.worker none [])

/-- The theorem for two tasks that are sent in the wrong order. -/
theorem urgent_task_first : ∃ s s' : State Bool,
    Reachable (TaskQueue.step ⟨10, 8⟩ none twoTasks) (State.fresh false) s
      ∧ Reachable (TaskQueue.step ⟨10, 8⟩ none twoTasks) s s'
      ∧ s'.output = [⟨2, [98]⟩, ⟨1, [97]⟩]
      ∧ [⟨1, 2, [98]⟩, ⟨0, 1, [97]⟩].Sublist s'.printedTasks := by
  obtain ⟨s, hs, hf⟩ := Option.bind_eq_some_iff.mp
    (show ((run (TaskQueue.step ⟨10, 8⟩ none twoTasks) (State.fresh false) bothSent).bind fun s =>
        (run (TaskQueue.step ⟨10, 8⟩ none twoTasks) s bothTaken).map fun s' =>
          (s.queue.waiting, s'.output, s'.printedTasks))
      = some ([⟨0, 1, [97]⟩, ⟨1, 2, [98]⟩], [⟨2, [98]⟩, ⟨1, [97]⟩],
          [⟨1, 2, [98]⟩, ⟨0, 1, [97]⟩]) by decide +kernel)
  obtain ⟨s', hs', heq⟩ := Option.map_eq_some_iff.mp hf
  obtain ⟨hwait, hout, hprinted⟩ : s.queue.waiting = [⟨0, 1, [97]⟩, ⟨1, 2, [98]⟩]
      ∧ s'.output = [⟨2, [98]⟩, ⟨1, [97]⟩]
      ∧ s'.printedTasks = [⟨1, 2, [98]⟩, ⟨0, 1, [97]⟩] := by
    simpa using heq
  have h := reachable_of_run hs
  have h' := reachable_of_run hs'
  refine ⟨s, s', h, h', hout, ?_⟩
  obtain ⟨-, -, -, -, hord⟩ := tasks_printed_in_order h h'
  refine hord _ _ ?_ ?_ (.inl (by decide)) ?_
  · rw [hwait]
    decide
  · rw [hwait]
    decide
  · rw [hprinted]
    decide

end TaskQueue
