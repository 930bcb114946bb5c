import LinuxPrograming.SemaphoreKitchenProofs
import LinuxPrograming.CmnBaseProofs

/-!
# The parent of the restaurant (`10-Semaphore/main.c`)

`main` forks one child for each entry of a table, idles in a loop until `is_running` is cleared,
and then waits for the children.  The handler of `SIGINT` clears `is_running`, but it also
restores the default action and raises the signal again, which ends the process as soon as the
handler returns; a failed `fork` ends it through `terminate`.

* **`Inv`** — the loop is left by no other way, so `waitForChildren` is never reached and the
  children forked so far are all still there.
* **`none_left_iff`** — when the parent leaves no child behind.
-/

namespace RestaurantMain

open Transition CmnBase SemaphoreKitchen

/-! ## The program -/

/-- The number of elements of `cid`. -/
def cidSize : Nat := 5

/-- The `roleDesc`s of the table `handlers`; the `parentHandler`s are all `NULL`. -/
def handlers : List String :=
  ["Chef Donatello", "Chef Portecelli", "Non-Vegan Customer", "Vegan Customer", "Hybrid Customer"]

/-- Where `main` is; `spawn i` and `wait i` are the tests of the loops in `spawnChildProcesses` and
    `waitForChildren`. -/
inductive ParentCtrl where
  | signal
  | shmInit (t : ShmIdx)
  | spawn (i : Nat)
  | test
  | sleep
  | wait (i : Nat)
  | cleanup
  | ended (e : Ending)
  | killed
deriving DecidableEq

/-- Where `handle_sigint` is: before the statement that the control point names. -/
inductive HandlerCtrl where
  | clear
  | cleanup
  | signal
  | raise
  | leave
deriving DecidableEq

/-- The parent and its children, by their process ids.  `handler` is the handler if it runs,
    `caught` tells whether it is installed, `pending` whether a blocked `SIGINT` waits, and `forks`
    (ghost) counts the forks that have succeeded. -/
structure State where
  ctrl       : ParentCtrl
  handler    : Option HandlerCtrl
  caught     : Bool
  pending    : Bool
  is_running : Bool
  cid        : Nat → Int
  running    : List Nat
  zombies    : List Nat
  forks      : Nat

/-- A step of the parent, whose call succeeds or not and returns `pid`; `SIGINT` for the parent; or
    the end of a child, by `exit` or by a signal. -/
inductive Act where
  | parent (ok : Bool) (pid : Nat)
  | sigint
  | childEnds (pid : Nat)

/-- The parent has terminated. -/
def ParentCtrl.isEnded : ParentCtrl → Bool
  | .ended _ | .killed => true
  | _ => false

def State.goto (s : State) (c : ParentCtrl) : State := { s with ctrl := c }

/-- `waitpid(cid, &status, 0)`: a child that has ended is reaped, one that has not is waited for,
    and anything else fails; an id that is not positive stands for any child. -/
def waitpid (s : State) (cid : Int) (pid : Nat) : Option State :=
  if 0 < cid then
    if cid.toNat ∈ s.zombies then some { s with zombies := s.zombies.erase cid.toNat }
    else if cid.toNat ∈ s.running then none
    else some s
  else if s.running = [] ∧ s.zombies = [] then some s
  else if pid ∈ s.zombies then some { s with zombies := s.zombies.erase pid }
  else none

/-- `main`, outside the handler. -/
def mainStep (table : List String) (dumpcore : Option String) (s : State) (ok : Bool) (pid : Nat) :
    Option State :=
  let failed := s.goto (.ended (terminate dumpcore EXIT_FAILURE true))
  match s.ctrl with
  | .signal => some { s.goto (.shmInit .vegan) with caught := true }
  | .shmInit .vegan => some (if ok then s.goto (.shmInit .nonVegan) else failed)
  | .shmInit .nonVegan => some (if ok then s.goto (.spawn 0) else failed)
  | .spawn i =>
      if table.length ≤ i then some (s.goto .test)
      else if cidSize ≤ i then some failed
      else if ok then
        -- a new process id
        if 0 < pid ∧ pid ∉ s.running ∧ pid ∉ s.zombies then
          some { s.goto (.spawn (i + 1)) with
            cid := Function.update s.cid i pid
            running := s.running ++ [pid]
            forks := s.forks + 1 }
        else none
      else some { failed with cid := Function.update s.cid i (-1) }
  | .test => some (s.goto (if s.is_running then .sleep else .wait 0))
  | .sleep => some (s.goto .test)
  | .wait i =>
      if i < cidSize then (waitpid s (s.cid i) pid).map fun s' => s'.goto (.wait (i + 1))
      else some (s.goto .cleanup)
  | .cleanup => some (s.goto (.ended (.exit 0)))
  | .ended _ | .killed => none

/-- `handle_sigint`.  The signal is blocked while its handler runs; what is raised meanwhile is
    delivered when the handler returns. -/
def handle_sigint (s : State) : HandlerCtrl → State
  | .clear => { s with is_running := false, handler := some .cleanup }
  | .cleanup => { s with handler := some .signal }
  | .signal => { s with caught := false, handler := some .raise }
  | .raise => { s with pending := true, handler := some .leave }
  | .leave =>
      if s.pending then
        if s.caught then { s with pending := false, handler := some .clear }
        else { s.goto .killed with pending := false, handler := none }
      else { s with handler := none }

/-- `SIGINT` arrives. -/
def sigint (s : State) : Option State :=
  if s.ctrl.isEnded then none
  else if s.handler.isSome then some { s with pending := true }
  else if s.caught then some { s with handler := some .clear }
  else some (s.goto .killed)

def step (table : List String) (dumpcore : Option String) (s : State) : Act → Option State
  | .parent ok pid => s.handler.elim (mainStep table dumpcore s ok pid) fun h =>
      some (handle_sigint s h)
  | .sigint => sigint s
  | .childEnds pid =>
      if pid ∈ s.running then
        some { s with running := s.running.erase pid, zombies := s.zombies ++ [pid] }
      else none

/-- After `is_running = true`. -/
def State.fresh : State where
  ctrl       := .signal
  handler    := none
  caught     := false
  pending    := false
  is_running := true
  cid        := fun _ => 0
  running    := []
  zombies    := []
  forks      := 0

/-! ## What the parent leaves behind -/

/-- When the parent has terminated, no child of it is running or unreaped. -/
def NoneLeft (s : State) : Prop := s.ctrl.isEnded = true → s.running = [] ∧ s.zombies = []

/-- The next step of the parent, or the signal, ends it. -/
def State.ends (table : List String) (s : State) : Act → Bool
  | .parent ok _ =>
      match s.handler, s.ctrl with
      | some .leave, _ => s.pending && !s.caught
      | some _, _ => false
      | none, .shmInit _ => !ok
      | none, .spawn i => decide (i < table.length) && (decide (cidSize ≤ i) || !ok)
      | none, .cleanup => true
      | none, _ => false
  | .sigint => s.handler.isNone && !s.caught
  | .childEnds _ => false

/-- The parent ends only as long as no fork has succeeded. -/
def EndsBeforeForks (table : List String) (s : State) (a : Act) : Prop :=
  s.ends table a = true → s.forks = 0

instance (table : List String) (s : State) (a : Act) : Decidable (EndsBeforeForks table s a) := by
  unfold EndsBeforeForks
  infer_instance

/-- The control points behind the loop. -/
def ParentCtrl.behindLoop : ParentCtrl → Bool
  | .wait _ | .cleanup => true
  | _ => false

/-- The handler has run to its end: the default action is restored, and then the signal raised. -/
def State.Framed (s : State) : Prop :=
  match s.handler with
  | some .raise => s.caught = false
  | some .leave => s.caught = false ∧ s.pending = true
  | _ => True

/-- The loop is left by no other way than the end of the process, so nothing is ever reaped. -/
structure Inv (s : State) : Prop where
  loop    : s.ctrl.behindLoop = false
  running : s.handler = none → s.ctrl.isEnded = false → s.is_running = true
  alive   : s.handler ≠ none → s.ctrl.isEnded = false
  framed  : s.Framed
  books   : s.forks = s.running.length + s.zombies.length

variable {table : List String} {dumpcore : Option String}

/-- A step of `main` that only moves on. -/
theorem Inv.goto {s : State} {c : ParentCtrl} (hI : Inv s) (hnone : s.handler = none)
    (hrun : s.is_running = true) (hc : c.behindLoop = false) : Inv (s.goto c) where
  loop := hc
  running := fun _ _ => hrun
  alive := fun h => absurd hnone h
  framed := hI.framed
  books := hI.books

/-- What a step of `main` does: it ends the process if it was about to, and keeps the invariant. -/
theorem Inv.mainStep {s s' : State} {ok : Bool} {pid : Nat} (hI : Inv s) (hnone : s.handler = none)
    (h : mainStep table dumpcore s ok pid = some s') :
    Inv s' ∧ s'.ctrl.isEnded = s.ends table (.parent ok pid) ∧
      (s.ends table (.parent ok pid) = true → s'.forks = s.forks) := by
  have halive : s.ctrl.isEnded = false := by
    cases hc : s.ctrl with
    | ended e => simp [RestaurantMain.mainStep, hc] at h
    | killed => simp [RestaurantMain.mainStep, hc] at h
    | _ => rfl
  have hrun := hI.running hnone halive
  rw [RestaurantMain.mainStep] at h
  rw [State.ends, hnone]
  cases hc : s.ctrl with
  | signal =>
      simp only [hc, Option.some.injEq] at h
      subst h
      refine ⟨⟨rfl, fun _ _ => hrun, fun hh => absurd hnone hh, ?_, hI.books⟩, rfl, fun _ => rfl⟩
      simp [State.Framed, State.goto, hnone]
  | shmInit t =>
      simp only [hc] at h
      cases ok with
      | true =>
          cases t <;> cases h <;> exact ⟨hI.goto hnone hrun rfl, rfl, fun _ => rfl⟩
      | false =>
          cases t <;> cases h <;> exact ⟨hI.goto hnone hrun rfl, rfl, fun _ => rfl⟩
  | spawn i =>
      simp only [hc] at h
      split at h
      case isTrue hle =>
        cases h
        refine ⟨hI.goto hnone hrun rfl, ?_, fun _ => rfl⟩
        simp [State.goto, ParentCtrl.isEnded, Nat.not_lt.mpr hle]
      case isFalse hlt =>
        have hlt' : i < table.length := Nat.lt_of_not_le hlt
        split at h
        case isTrue hfull =>
          cases h
          refine ⟨hI.goto hnone hrun rfl, ?_, fun _ => rfl⟩
          simp [State.goto, ParentCtrl.isEnded, hlt', hfull]
        case isFalse hfit =>
          cases ok with
          | true =>
              -- the fork succeeds: one more child, and one more in the count
              obtain ⟨-, heq⟩ := Option.ite_none_right_eq_some.mp h
              cases heq
              refine ⟨⟨rfl, fun _ _ => hrun, fun hh => absurd hnone hh, hI.framed, ?_⟩, ?_, ?_⟩
              · show s.forks + 1 = (s.running ++ [pid]).length + s.zombies.length
                rw [hI.books, List.length_append, List.length_singleton]
                omega
              · simp [State.goto, ParentCtrl.isEnded, hfit]
              · simp [hfit]
          | false =>
              cases h
              refine ⟨⟨rfl, fun _ _ => hrun, fun hh => absurd hnone hh, hI.framed, hI.books⟩, ?_,
                fun _ => rfl⟩
              simp [State.goto, ParentCtrl.isEnded, hlt']
  | test =>
      -- `is_running` is cleared by the handler alone, which does not return
      simp only [hc, hrun, if_true, Option.some.injEq] at h
      subst h
      exact ⟨hI.goto hnone hrun rfl, rfl, fun _ => rfl⟩
  | sleep =>
      simp only [hc, Option.some.injEq] at h
      subst h
      exact ⟨hI.goto hnone hrun rfl, rfl, fun _ => rfl⟩
  | wait i =>
      have := hI.loop
      rw [hc] at this
      cases this
  | cleanup =>
      have := hI.loop
      rw [hc] at this
      cases this
  | ended e => simp [hc] at h
  | killed => simp [hc] at h

/-- What a step of the handler does. -/
theorem Inv.handle_sigint {s : State} {hc : HandlerCtrl} (hI : Inv s) (hh : s.handler = some hc)
    (table : List String) (ok : Bool) (pid : Nat) :
    Inv (handle_sigint s hc) ∧
      (handle_sigint s hc).ctrl.isEnded = s.ends table (.parent ok pid) ∧
      (handle_sigint s hc).forks = s.forks := by
  have halive := hI.alive (by rw [hh]; simp)
  have hframed := hI.framed
  rw [State.Framed, hh] at hframed
  rw [State.ends, hh]
  cases hc with
  | clear => exact ⟨⟨hI.loop, fun h => (by cases h), fun _ => halive, trivial, hI.books⟩, halive, rfl⟩
  | cleanup =>
      exact ⟨⟨hI.loop, fun h => (by cases h), fun _ => halive, trivial, hI.books⟩, halive, rfl⟩
  | signal => exact ⟨⟨hI.loop, fun h => (by cases h), fun _ => halive, rfl, hI.books⟩, halive, rfl⟩
  | raise =>
      exact ⟨⟨hI.loop, fun h => (by cases h), fun _ => halive, ⟨hframed, rfl⟩, hI.books⟩, halive, rfl⟩
  | leave =>
      -- the raised signal is delivered now, and kills
      obtain ⟨hcaught, hpending⟩ := hframed
      simp only [RestaurantMain.handle_sigint, hcaught, hpending, if_true, Bool.false_eq_true,
        if_false]
      exact ⟨⟨rfl, fun _ h => (by cases h), fun h => absurd rfl h, trivial, hI.books⟩, rfl, rfl⟩

/-- What the arrival of `SIGINT` does. -/
theorem Inv.sigint {s s' : State} (hI : Inv s) (table : List String)
    (h : sigint s = some s') :
    Inv s' ∧ s'.ctrl.isEnded = s.ends table .sigint ∧ s'.forks = s.forks := by
  rw [RestaurantMain.sigint] at h
  cases halive : s.ctrl.isEnded with
  | true =>
      rw [halive] at h
      cases h
  | false =>
      rw [halive] at h
      rw [State.ends]
      cases hh : s.handler with
      | some hc =>
          rw [hh] at h
          cases h
          -- the signal is blocked
          refine ⟨⟨hI.loop, fun hn => (by cases hn), fun _ => halive, ?_, hI.books⟩, halive, rfl⟩
          have hframed := hI.framed
          rw [State.Framed, hh] at hframed
          cases hc with
          | raise => exact hframed
          | leave => exact ⟨hframed.1, rfl⟩
          | _ => trivial
      | none =>
          rw [hh] at h
          simp only [Bool.false_eq_true, if_false, Option.isSome_none] at h
          cases hcaught : s.caught with
          | true =>
              rw [hcaught] at h
              cases h
              exact ⟨⟨hI.loop, fun hn => (by cases hn), fun _ => halive, trivial, hI.books⟩, halive,
                rfl⟩
          | false =>
              rw [hcaught] at h
              cases h
              refine ⟨⟨rfl, fun _ hn => (by cases hn), fun hn => absurd hh hn, hI.framed, hI.books⟩,
                rfl, rfl⟩

/-- What the end of a child does. -/
theorem Inv.childEnds {s : State} {pid : Nat} (hI : Inv s) (h : pid ∈ s.running) :
    Inv { s with running := s.running.erase pid, zombies := s.zombies ++ [pid] } := by
  refine ⟨hI.loop, hI.running, hI.alive, hI.framed, ?_⟩
  show s.forks = (s.running.erase pid).length + (s.zombies ++ [pid]).length
  have hpos := List.length_pos_of_mem h
  rw [hI.books, List.length_erase_of_mem h, List.length_append, List.length_singleton]
  omega

/-- **One step** keeps the invariant; while the parent runs, it is ended by the steps that `ends`
    names and by no others, and these fork nothing. -/
theorem Inv.step {s s' : State} {a : Act} (hI : Inv s)
    (h : RestaurantMain.step table dumpcore s a = some s') :
    Inv s' ∧ (s.ends table a = true → s'.ctrl.isEnded = true ∧ s'.forks = s.forks) ∧
      (s'.ctrl.isEnded = true → s.ends table a = true ∨
        s.ctrl.isEnded = true ∧ s'.forks = s.forks) := by
  cases a with
  | parent ok pid =>
      cases hh : s.handler with
      | none =>
          rw [RestaurantMain.step, hh] at h
          obtain ⟨hI', hend, hforks⟩ := hI.mainStep hh h
          rw [hend]
          exact ⟨hI', fun he => ⟨he, hforks he⟩, fun he => Or.inl he⟩
      | some hc =>
          rw [RestaurantMain.step, hh] at h
          cases h
          obtain ⟨hI', hend, hforks⟩ := hI.handle_sigint hh table ok pid
          rw [hend]
          exact ⟨hI', fun he => ⟨he, hforks⟩, fun he => Or.inl he⟩
  | sigint =>
      obtain ⟨hI', hend, hforks⟩ := hI.sigint table h
      rw [hend]
      exact ⟨hI', fun he => ⟨he, hforks⟩, fun he => Or.inl he⟩
  | childEnds pid =>
      obtain ⟨hmem, heq⟩ := Option.ite_none_right_eq_some.mp h
      cases heq
      exact ⟨hI.childEnds hmem, fun he => (by cases he), fun he => Or.inr ⟨he, rfl⟩⟩

theorem Inv.fresh : Inv State.fresh where
  loop := rfl
  running := fun _ _ => rfl
  alive := fun h => absurd rfl h
  framed := trivial
  books := rfl

/-- **The children are never waited for**: the loop of `main` is not left alive. -/
theorem never_waits {s : State} (h : Reachable (RestaurantMain.step table dumpcore) .fresh s) :
    s.ctrl.behindLoop = false := by
  have hI : Inv s := h.invariant .fresh fun _ _ _ hI _ hs => (hI.step hs).1
  exact hI.loop

/-- The invariant together with what is wanted of it. -/
structure Clean (s : State) : Prop where
  inv    : Inv s
  forks  : s.ctrl.isEnded = true → s.forks = 0

/-- Whoever has forked nothing leaves nothing behind. -/
theorem Inv.noneLeft_iff {s : State} (hI : Inv s) :
    NoneLeft s ↔ (s.ctrl.isEnded = true → s.forks = 0) := by
  have hbooks := hI.books
  constructor
  · intro h hend
    obtain ⟨hr, hz⟩ := h hend
    rw [hbooks, hr, hz]
    rfl
  · intro h hend
    have hzero := h hend
    exact ⟨List.eq_nil_of_length_eq_zero (by omega), List.eq_nil_of_length_eq_zero (by omega)⟩

/-- **WHAT THE PARENT LEAVES BEHIND.**  For a table of any length and any order of the steps, in
    every state that a run passes through a parent that has terminated has no child running or
    unreaped, exactly if it terminates before any fork has succeeded. -/
theorem none_left_iff (table : List String) (dumpcore : Option String) (acts : List Act) (s : State)
    (h : run (RestaurantMain.step table dumpcore) .fresh acts = some s) :
    Throughout (RestaurantMain.step table dumpcore) NoneLeft .fresh acts ↔
      runWhen (RestaurantMain.step table dumpcore) (EndsBeforeForks table) .fresh acts = some s := by
  refine throughout_iff_runWhen (J := Clean) (fun u hu => hu.inv.noneLeft_iff.mpr hu.forks) ?_ ?_
    ⟨.fresh, fun h => by cases h⟩ h
  · intro u a u' hu hok hs
    obtain ⟨hI', hend, hended⟩ := hu.inv.step hs
    refine ⟨hI', fun he => ?_⟩
    rcases hended he with hends | ⟨he', hforks⟩
    · rw [(hend hends).2]
      exact hok hends
    · rw [hforks]
      exact hu.forks he'
  · intro u a u' hu hbad hs hnone
    obtain ⟨hI', hend, -⟩ := hu.inv.step hs
    obtain ⟨hends, hforks⟩ : u.ends table a = true ∧ u.forks ≠ 0 := by
      simpa [EndsBeforeForks] using hbad
    obtain ⟨he, hsame⟩ := hend hends
    exact hforks (hsame ▸ hI'.noneLeft_iff.mp hnone he)

/-- The first fork fails. -/
def firstForkFails : List Act :=
  List.replicate 3 (.parent true 0) ++ [.parent false 0]

theorem none_left_first_fork_fails :
    Throughout (RestaurantMain.step handlers none) NoneLeft .fresh firstForkFails := by
  obtain ⟨s, hs, -⟩ := Option.map_eq_some_iff.mp
    (show (runWhen (RestaurantMain.step handlers none) (EndsBeforeForks handlers) .fresh
      firstForkFails).map (fun s => s.ctrl) = some (.ended (.exit 1)) by decide +kernel)
  exact (none_left_iff handlers none firstForkFails s (run_of_runWhen hs)).mpr hs

/-- The second fork fails; or all five succeed and `SIGINT` arrives in the loop. -/
theorem children_left :
    (∃ s, Reachable (RestaurantMain.step handlers none) .fresh s ∧
      s.ctrl = .ended (.exit EXIT_FAILURE) ∧ s.running = [11]) ∧
    ∃ s, Reachable (RestaurantMain.step handlers none) .fresh s ∧
      s.ctrl = .killed ∧ s.running = [11, 12, 13, 14, 15] := by
  constructor
  · obtain ⟨s, hs, hf⟩ := reachable_of_run_map (RestaurantMain.step handlers none) .fresh
      (List.replicate 3 (.parent true 0) ++ [.parent true 11, .parent false 0])
      (fun s => (s.ctrl, s.running)) (c := (.ended (.exit EXIT_FAILURE), [11]))
      (by decide +kernel)
    exact ⟨s, hs, by simpa using hf⟩
  · obtain ⟨s, hs, hf⟩ := reachable_of_run_map (RestaurantMain.step handlers none) .fresh
      (List.replicate 3 (.parent true 0) ++ [.parent true 11, .parent true 12, .parent true 13,
        .parent true 14, .parent true 15, .parent true 0, .parent true 0, .sigint]
        ++ List.replicate 5 (.parent true 0))
      (fun s => (s.ctrl, s.running)) (c := (.killed, [11, 12, 13, 14, 15])) (by decide +kernel)
    exact ⟨s, hs, by simpa using hf⟩

end RestaurantMain
