import LinuxPrograming.TransitionProofs
import LinuxPrograming.FdTableProofs
import LinuxPrograming.CmnBaseProofs

/-!
# `ls -l | wc -l` (`8-Pipe/main.c`)

The parent makes a pipe, forks the two children and closes its own copies of the pipe's ends; each
child closes the end it does not need, moves the other one to its standard descriptor with `dup2`,
closes the original and executes its command.  The three processes interleave freely; each system
call of a step succeeds or fails as the action says.

`dup2` does nothing when the end already has the number it is to be moved to, and then the `close`
that follows closes the redirected descriptor itself.  That happens exactly if descriptor `0` is
free when the pipe is made.

* **`Inv`** — the table of each process is a function of the table before `pipe` and of where the
  process is.
* **`redirected_refers`** — what a child's redirection leaves of the two ends.
* **`pipe_ends_iff`** — the children end up with the right ends, and only with them, exactly if
  descriptor `0` was open.
-/

namespace Pipe

open Transition CmnBase FdTable

/-! ## The program -/

/-- What a descriptor may refer to: a file that was open before, or an end of the pipe. -/
inductive File (φ : Type) where
  | other (f : φ)
  | readEnd
  | writeEnd
deriving DecidableEq

def STDIN_FILENO : Nat := 0
def STDOUT_FILENO : Nat := 1

/-- The two entries of `handlers`. -/
inductive Child where
  | ls
  | wc
deriving DecidableEq

/-- The arguments `redirectFd` and `pipeEndToUse` of `executeCommandWithPipe`. -/
structure Redirect where
  redirectFd   : Nat
  pipeEndToUse : Nat

def childHandlerLs (pfd : Nat × Nat) : Redirect := ⟨STDOUT_FILENO, pfd.2⟩

def childHandlerWc (pfd : Nat × Nat) : Redirect := ⟨STDIN_FILENO, pfd.1⟩

def childHandler : Child → Nat × Nat → Redirect
  | .ls => childHandlerLs
  | .wc => childHandlerWc

/-- `pfd[redirectFd == STDIN_FILENO ? 1 : 0]`. -/
def unusedEnd (pfd : Nat × Nat) (redirectFd : Nat) : Nat :=
  if redirectFd = STDIN_FILENO then pfd.2 else pfd.1

/-- Where the parent is: before the call that the control point names. -/
inductive ParentCtrl where
  | pipe
  | fork (child : Child)
  | closeRead
  | closeWrite
  | waitForChildren
  | ended (e : Ending)
deriving DecidableEq

/-- Where a child is, from the call of its handler on; `command` is the program executed. -/
inductive ChildCtrl where
  | unborn
  | closeUnused
  | dup2
  | closeOriginal
  | execl
  | command
  | ended (e : Ending)
deriving DecidableEq

/-- A process: where it is, its descriptors and its copy of `pfd`. -/
structure Proc (C φ : Type) where
  ctrl : C
  fds  : FdTable (File φ)
  pfd  : Nat × Nat

structure State (φ : Type) where
  parent : Proc ParentCtrl φ
  child  : Child → Proc ChildCtrl φ

variable {φ : Type}

/-- The parent has failed. -/
def State.fail (s : State φ) (dumpcore : Option String) : State φ :=
  { s with parent := { s.parent with ctrl := .ended (terminate dumpcore EXIT_FAILURE true) } }

/-- The parent.  The results of `close` are ignored; a failed `pipe` or `fork` ends in
    `terminate`. -/
def parentStep (dumpcore : Option String) (s : State φ) (ok : Bool) : Option (State φ) :=
  match s.parent.ctrl with
  | .pipe =>
      if ok then
        -- the two lowest free numbers
        let fds := s.parent.fds.alloc .readEnd
        some { s with parent :=
          ⟨.fork .ls, fds.alloc .writeEnd, s.parent.fds.lowestFree, fds.lowestFree⟩ }
      else some (s.fail dumpcore)
  | .fork c =>
      if ok then
        some { parent := { s.parent with
                 ctrl := match c with | .ls => .fork .wc | .wc => .closeRead }
               child  := Function.update s.child c ⟨.closeUnused, s.parent.fds, s.parent.pfd⟩ }
      else some (s.fail dumpcore)
  | .closeRead =>
      if ok = s.parent.fds.isOpen s.parent.pfd.1 then
        some { s with parent :=
          ⟨.closeWrite, s.parent.fds.close s.parent.pfd.1, s.parent.pfd⟩ }
      else none
  | .closeWrite =>
      if ok = s.parent.fds.isOpen s.parent.pfd.2 then
        some { s with parent :=
          ⟨.waitForChildren, s.parent.fds.close s.parent.pfd.2, s.parent.pfd⟩ }
      else none
  | .waitForChildren | .ended _ => none

/-- A child in `executeCommandWithPipe`. -/
def executeCommandWithPipe (dumpcore : Option String) (r : Redirect) (p : Proc ChildCtrl φ)
    (ok : Bool) : Option (Proc ChildCtrl φ) :=
  match p.ctrl with
  | .closeUnused =>
      let fd := unusedEnd p.pfd r.redirectFd
      if ok = p.fds.isOpen fd then some ⟨.dup2, p.fds.close fd, p.pfd⟩ else none
  | .dup2 =>
      if ok then
        if p.fds.isOpen r.pipeEndToUse then
          some ⟨.closeOriginal, p.fds.dup2 r.pipeEndToUse r.redirectFd, p.pfd⟩
        else none
      else some { p with ctrl := .ended (terminate dumpcore EXIT_FAILURE false) }
  | .closeOriginal =>
      if ok = p.fds.isOpen r.pipeEndToUse then
        some ⟨.execl, p.fds.close r.pipeEndToUse, p.pfd⟩
      else none
  | .execl =>
      if ok then some ⟨.command, p.fds.exec, p.pfd⟩
      else some { p with ctrl := .ended (terminate dumpcore EXIT_FAILURE false) }
  | .unborn | .command | .ended _ => none

/-- Which process makes its next call, and whether the call succeeds. -/
inductive Act where
  | parent (ok : Bool)
  | child (c : Child) (ok : Bool)

/-- One system call of one process. -/
def step (dumpcore : Option String) (s : State φ) : Act → Option (State φ)
  | .parent ok  => parentStep dumpcore s ok
  | .child c ok =>
      (executeCommandWithPipe dumpcore (childHandler c (s.child c).pfd) (s.child c) ok).map fun p =>
        { s with child := Function.update s.child c p }

/-- The parent before `initializePipe`, with the descriptors `fds`, none of which refers to the
    pipe yet. -/
def opening (fds : FdTable φ) : State φ where
  parent := ⟨.pipe, fds.map .other, 0, 0⟩
  child  := fun _ => ⟨.unborn, fds.map .other, 0, 0⟩

/-- The system call of the step succeeds. -/
def Succeeds (_ : State φ) : Act → Prop
  | .parent ok | .child _ ok => ok = true

instance (s : State φ) (a : Act) : Decidable (Succeeds s a) := by
  cases a <;> unfold Succeeds <;> infer_instance

/-! ## The descriptors of each process -/

/-- The numbers `pipe` returns. -/
def pipeFds (fds : FdTable φ) : Nat × Nat :=
  ((fds.map File.other).lowestFree, ((fds.map File.other).alloc File.readEnd).lowestFree)

/-- The table after `pipe`. -/
def piped (fds : FdTable φ) : FdTable (File φ) :=
  ((fds.map File.other).alloc .readEnd).alloc .writeEnd

/-- The table of a child after its redirection. -/
def redirected (r : Redirect) (pfd : Nat × Nat) (t : FdTable (File φ)) : FdTable (File φ) :=
  ((t.close (unusedEnd pfd r.redirectFd)).dup2 r.pipeEndToUse r.redirectFd).close r.pipeEndToUse

/-- What the parent's table is at each point. -/
def ParentCtrl.Holds (fds : FdTable φ) (t : FdTable (File φ)) (pfd : Nat × Nat) :
    ParentCtrl → Prop
  | .pipe => t = fds.map .other
  | .fork _ | .closeRead => t = piped fds ∧ pfd = pipeFds fds
  | .closeWrite => t = (piped fds).close (pipeFds fds).1 ∧ pfd = pipeFds fds
  | .waitForChildren => t = ((piped fds).close (pipeFds fds).1).close (pipeFds fds).2
  | .ended _ => False

/-- What a child's table is at each point. -/
def ChildCtrl.Holds (fds : FdTable φ) (c : Child) (t : FdTable (File φ)) (pfd : Nat × Nat) :
    ChildCtrl → Prop
  | .unborn => True
  | .closeUnused => t = piped fds ∧ pfd = pipeFds fds
  | .dup2 =>
      t = (piped fds).close (unusedEnd (pipeFds fds) (childHandler c (pipeFds fds)).redirectFd)
        ∧ pfd = pipeFds fds
  | .closeOriginal =>
      t = ((piped fds).close
            (unusedEnd (pipeFds fds) (childHandler c (pipeFds fds)).redirectFd)).dup2
          (childHandler c (pipeFds fds)).pipeEndToUse (childHandler c (pipeFds fds)).redirectFd
        ∧ pfd = pipeFds fds
  | .execl => t = redirected (childHandler c (pipeFds fds)) (pipeFds fds) (piped fds)
  | .command => t = (redirected (childHandler c (pipeFds fds)) (pipeFds fds) (piped fds)).exec
  | .ended _ => False

/-- **The invariant**: each process has the table its control point says. -/
structure Inv (fds : FdTable φ) (s : State φ) : Prop where
  parent : s.parent.ctrl.Holds fds s.parent.fds s.parent.pfd
  child  : ∀ c, (s.child c).ctrl.Holds fds c (s.child c).fds (s.child c).pfd

namespace Inv

variable {fds : FdTable φ} {s s' : State φ} {dumpcore : Option String}

theorem opening (fds : FdTable φ) : Inv fds (opening fds) := ⟨rfl, fun _ => trivial⟩

/-- **A successful step of the parent keeps the invariant.** -/
theorem parentStep (hI : Inv fds s) (h : Pipe.parentStep dumpcore s true = some s') :
    Inv fds s' := by
  have hp := hI.parent
  rw [Pipe.parentStep] at h
  cases hc : s.parent.ctrl with
  | pipe =>
      rw [hc] at h hp
      cases h
      refine ⟨?_, hI.child⟩
      show (s.parent.fds.alloc .readEnd).alloc .writeEnd = piped fds ∧ _ = pipeFds fds
      rw [show s.parent.fds = fds.map .other from hp]
      exact ⟨rfl, rfl⟩
  | fork c =>
      rw [hc] at h hp
      cases h
      constructor
      · cases c <;> exact hp
      · intro d
        by_cases hd : d = c
        · subst hd
          simp only [Function.update_self]
          exact hp
        · simp only [Function.update_of_ne hd]
          exact hI.child d
  | closeRead =>
      rw [hc] at h hp
      obtain ⟨-, heq⟩ := Option.ite_none_right_eq_some.mp h
      cases heq
      obtain ⟨hfds, hpfd⟩ := hp
      exact ⟨⟨by rw [hfds, hpfd], hpfd⟩, hI.child⟩
  | closeWrite =>
      rw [hc] at h hp
      obtain ⟨-, heq⟩ := Option.ite_none_right_eq_some.mp h
      cases heq
      obtain ⟨hfds, hpfd⟩ := hp
      refine ⟨?_, hI.child⟩
      show s.parent.fds.close s.parent.pfd.2 = _
      rw [hfds, hpfd]
  | waitForChildren => rw [hc] at h; cases h
  | ended e => rw [hc] at h; cases h

/-- **A successful step of a child keeps the invariant.** -/
theorem childStep {c : Child} {p : Proc ChildCtrl φ} (hI : Inv fds s)
    (h : executeCommandWithPipe dumpcore (childHandler c (s.child c).pfd) (s.child c) true
      = some p) : Inv fds { s with child := Function.update s.child c p } := by
  have hp := hI.child c
  suffices hnew : p.ctrl.Holds fds c p.fds p.pfd by
    refine ⟨hI.parent, ?_⟩
    intro d
    by_cases hd : d = c
    · subst hd
      simp only [Function.update_self]
      exact hnew
    · simp only [Function.update_of_ne hd]
      exact hI.child d
  rw [executeCommandWithPipe] at h
  cases hc : (s.child c).ctrl with
  | closeUnused =>
      rw [hc] at h hp
      obtain ⟨-, heq⟩ := Option.ite_none_right_eq_some.mp h
      cases heq
      obtain ⟨hfds, hpfd⟩ := hp
      exact ⟨by rw [hfds, hpfd], hpfd⟩
  | dup2 =>
      rw [hc] at h hp
      obtain ⟨-, heq⟩ := Option.ite_none_right_eq_some.mp h
      cases heq
      obtain ⟨hfds, hpfd⟩ := hp
      exact ⟨by rw [hfds, hpfd], hpfd⟩
  | closeOriginal =>
      rw [hc] at h hp
      obtain ⟨-, heq⟩ := Option.ite_none_right_eq_some.mp h
      cases heq
      obtain ⟨hfds, hpfd⟩ := hp
      show (s.child c).fds.close _ = _
      rw [hfds, hpfd]
      rfl
  | execl =>
      rw [hc] at h hp
      cases h
      show (s.child c).fds.exec = _
      rw [show (s.child c).fds = _ from hp]
  | unborn => rw [hc] at h; cases h
  | command => rw [hc] at h; cases h
  | ended e => rw [hc] at h; cases h

theorem step {a : Act} (hI : Inv fds s) (hok : Succeeds s a)
    (h : Pipe.step dumpcore s a = some s') : Inv fds s' := by
  cases a with
  | parent ok =>
      rw [show ok = true from hok] at h
      exact hI.parentStep h
  | child c ok =>
      rw [show ok = true from hok] at h
      obtain ⟨p, hp, rfl⟩ := Option.map_eq_some_iff.mp h
      exact hI.childStep hp

end Inv

/-- **The invariant holds in every state reached without a failing call.** -/
theorem inv_reach {fds : FdTable φ} {dumpcore : Option String} {s : State φ}
    (h : Reach (step dumpcore) Succeeds (opening fds) s) : Inv fds s :=
  h.invariant (Inv.opening fds) fun _ _ _ hI hok hs => hI.step hok hs

/-! ## Where the two ends are -/

section Ends

variable (fds : FdTable φ)

theorem not_refers_map {n : Nat} {e : File φ} (he : ∀ f, File.other f ≠ e) :
    ¬ (fds.map File.other).Refers n e := by
  intro h
  obtain ⟨d, hd, hf⟩ := Option.map_eq_some_iff.mp h
  obtain ⟨d₀, -, rfl⟩ := Option.map_eq_some_iff.mp hd
  exact he _ hf

/-- The second number is chosen when the first is taken. -/
theorem pipeFds_lt : (pipeFds fds).1 < (pipeFds fds).2 := lowestFree_lt_alloc

/-- After `pipe`, one number refers to each end. -/
theorem piped_refers (n : Nat) :
    ((piped fds).Refers n .readEnd ↔ n = (pipeFds fds).1) ∧
    ((piped fds).Refers n .writeEnd ↔ n = (pipeFds fds).2) := by
  have hread := not_refers_map fds (n := n) (e := .readEnd) fun f => by simp
  have hwrite := not_refers_map fds (n := n) (e := .writeEnd) fun f => by simp
  have hne := Nat.ne_of_lt (pipeFds_lt fds)
  have hfst : (fds.map File.other).lowestFree = (pipeFds fds).1 := rfl
  have hsnd : ((fds.map File.other).alloc File.readEnd).lowestFree = (pipeFds fds).2 := rfl
  rw [piped]
  rw [refers_alloc, refers_alloc, refers_alloc, refers_alloc, hfst, hsnd]
  by_cases h1 : n = (pipeFds fds).1
  · subst h1
    simp [hne]
  · by_cases h2 : n = (pipeFds fds).2
    · subst h2
      simp [h1]
    · simp [h1, h2, hread, hwrite]

/-- The pipe's ends survive an `exec`. -/
theorem piped_plain {e : File φ} (he : ∀ f, File.other f ≠ e) : (piped fds).Plain e := by
  refine Plain.alloc (Plain.alloc ?_)
  intro n d hd hf
  obtain ⟨d₀, -, rfl⟩ := Option.map_eq_some_iff.mp hd
  exact absurd hf (he _)

end Ends

/-- **What a redirection leaves.**  `keep` is the end that number `o` refers to and is moved to
    `d`; `drop` is the other end, at number `u`.  If `o` is `d` already, `keep` is lost. -/
theorem redirected_refers {t : FdTable (File φ)} {keep drop : File φ} {u o d : Nat}
    (hkeep : ∀ n, t.Refers n keep ↔ n = o) (hdrop : ∀ n, t.Refers n drop ↔ n = u) (hne : u ≠ o)
    (hends : keep ≠ drop) (n : Nat) :
    ((((t.close u).dup2 o d).close o).Refers n keep ↔ o ≠ d ∧ n = d) ∧
    ¬ (((t.close u).dup2 o d).close o).Refers n drop := by
  have hold : (t.close u).Refers o keep := refers_close.mpr ⟨hne.symm, (hkeep o).mpr rfl⟩
  rw [refers_close, refers_close, refers_dup2 hold, refers_dup2 hold, refers_close, refers_close,
    hkeep, hdrop]
  by_cases hnd : n = d
  · subst hnd
    simp [hends, eq_comm]
  · simp only [if_neg hnd]
    constructor
    · constructor
      · rintro ⟨hno, -, hn⟩
        exact absurd hn hno
      · rintro ⟨-, hn⟩
        exact absurd hn hnd
    · rintro ⟨-, hnu, hn⟩
      exact hnu hn

/-! ## The result -/

/-- Both children have executed their commands, and the parent has run `cleanup`. -/
def Finished (s : State φ) : Prop :=
  (s.child .ls).ctrl = .command ∧ (s.child .wc).ctrl = .command ∧ s.parent.ctrl = .waitForChildren

/-- The write end of the pipe is descriptor `1` of `ls` and nothing else, its read end descriptor
    `0` of `wc` and nothing else. -/
def EndsInPlace (s : State φ) : Prop :=
  (∀ n, ¬ s.parent.fds.Refers n .writeEnd ∧ ¬ s.parent.fds.Refers n .readEnd) ∧
  (∀ n, ((s.child .ls).fds.Refers n .writeEnd ↔ n = STDOUT_FILENO) ∧
    ¬ (s.child .ls).fds.Refers n .readEnd) ∧
  (∀ n, ((s.child .wc).fds.Refers n .readEnd ↔ n = STDIN_FILENO) ∧
    ¬ (s.child .wc).fds.Refers n .writeEnd)

/-- The parent's copies are closed. -/
theorem parent_ends (fds : FdTable φ) (n : Nat) :
    ¬ (((piped fds).close (pipeFds fds).1).close (pipeFds fds).2).Refers n .writeEnd ∧
    ¬ (((piped fds).close (pipeFds fds).1).close (pipeFds fds).2).Refers n .readEnd := by
  obtain ⟨hread, hwrite⟩ := piped_refers fds n
  rw [refers_close, refers_close, refers_close, refers_close, hread, hwrite]
  exact ⟨fun h => h.1 h.2.2, fun h => h.2.1 h.2.2⟩

/-- The ends of the pipe in `ls`, once it is executed. -/
theorem ls_ends (fds : FdTable φ) (n : Nat) :
    ((redirected (childHandler .ls (pipeFds fds)) (pipeFds fds) (piped fds)).exec.Refers n .writeEnd
      ↔ (pipeFds fds).2 ≠ STDOUT_FILENO ∧ n = STDOUT_FILENO) ∧
    ¬ (redirected (childHandler .ls (pipeFds fds)) (pipeFds fds) (piped fds)).exec.Refers n
      .readEnd := by
  have hplain : ∀ e : File φ, (∀ f, File.other f ≠ e) →
      (redirected (childHandler .ls (pipeFds fds)) (pipeFds fds) (piped fds)).Plain e :=
    fun e he => ((piped_plain fds he).close.dup2).close
  rw [refers_exec (hplain _ fun f => by simp), refers_exec (hplain _ fun f => by simp)]
  exact redirected_refers (fun n => (piped_refers fds n).2) (fun n => (piped_refers fds n).1)
    (Nat.ne_of_lt (pipeFds_lt fds)) (by simp) n

/-- The ends of the pipe in `wc`, once it is executed. -/
theorem wc_ends (fds : FdTable φ) (n : Nat) :
    ((redirected (childHandler .wc (pipeFds fds)) (pipeFds fds) (piped fds)).exec.Refers n .readEnd
      ↔ (pipeFds fds).1 ≠ STDIN_FILENO ∧ n = STDIN_FILENO) ∧
    ¬ (redirected (childHandler .wc (pipeFds fds)) (pipeFds fds) (piped fds)).exec.Refers n
      .writeEnd := by
  have hplain : ∀ e : File φ, (∀ f, File.other f ≠ e) →
      (redirected (childHandler .wc (pipeFds fds)) (pipeFds fds) (piped fds)).Plain e :=
    fun e he => ((piped_plain fds he).close.dup2).close
  rw [refers_exec (hplain _ fun f => by simp), refers_exec (hplain _ fun f => by simp)]
  exact redirected_refers (fun n => (piped_refers fds n).1) (fun n => (piped_refers fds n).2)
    (Nat.ne_of_gt (pipeFds_lt fds)) (by simp) n

/-- **THE ENDS ARE IN PLACE IF DESCRIPTOR 0 WAS OPEN**, and only then.  For every table before
    `pipe` and every order of the steps of the three processes. -/
theorem pipe_ends_iff {fds : FdTable φ} {dumpcore : Option String} {s : State φ}
    (h : Reach (step dumpcore) Succeeds (opening fds) s) (hfin : Finished s) :
    EndsInPlace s ↔ fds.isOpen STDIN_FILENO = true := by
  obtain ⟨hls, hwc, hparent⟩ := hfin
  have hI := inv_reach h
  have hp := hI.parent
  have hl := hI.child .ls
  have hw := hI.child .wc
  rw [hparent] at hp
  rw [hls] at hl
  rw [hwc] at hw
  have hpfds : s.parent.fds = _ := hp
  have hlfds : (s.child .ls).fds = _ := hl
  have hwfds : (s.child .wc).fds = _ := hw
  have hopen : fds.isOpen STDIN_FILENO = true ↔ (pipeFds fds).1 ≠ STDIN_FILENO := by
    have hzero : (pipeFds fds).1 = STDIN_FILENO ↔ (fds.map File.other).isOpen 0 = false :=
      lowestFree_eq_zero_iff
    rw [isOpen_map] at hzero
    rw [ne_eq, hzero, Bool.not_eq_false]
    rfl
  rw [hopen, EndsInPlace, hpfds, hlfds, hwfds]
  constructor
  · rintro ⟨-, -, hwc⟩
    exact ((wc_ends fds STDIN_FILENO).1.mp ((hwc STDIN_FILENO).1.mpr rfl)).1
  · intro hne
    have hne' : (pipeFds fds).2 ≠ STDOUT_FILENO := by
      have hlt := pipeFds_lt fds
      have hpos := Nat.pos_of_ne_zero hne
      simp only [STDOUT_FILENO]
      omega
    refine ⟨parent_ends fds, ?_, ?_⟩
    · intro n
      obtain ⟨hwrite, hread⟩ := ls_ends fds n
      exact ⟨hwrite.trans (and_iff_right hne'), hread⟩
    · intro n
      obtain ⟨hread, hwrite⟩ := wc_ends fds n
      exact ⟨hread.trans (and_iff_right hne), hwrite⟩

/-- All three processes, the parent first. -/
def allSteps : List Act :=
  List.replicate 5 (.parent true) ++ List.replicate 4 (.child .ls true)
    ++ List.replicate 4 (.child .wc true)

/-- The descriptors `first, …, 2`, all on the terminal. -/
def terminal (first : Nat) : FdTable String where
  entry  := fun n => if first ≤ n ∧ n < 3 then some ⟨"tty", false⟩ else none
  limit  := 3
  closed := fun _ hn => if_neg fun h => Nat.not_lt.mpr hn h.2

/-- The theorem from the usual three descriptors. -/
theorem standard_ends_in_place : ∃ s, Reach (step none) Succeeds (opening (terminal 0)) s ∧
    Finished s ∧ EndsInPlace s := by
  obtain ⟨s, hs, hf⟩ : ∃ s, Reach (step none) Succeeds (opening (terminal 0)) s ∧
      ((s.child .ls).ctrl, (s.child .wc).ctrl, s.parent.ctrl)
        = (.command, .command, .waitForChildren) :=
    reach_of_runWhen_map _ _ _ allSteps _ (by decide +kernel)
  simp only [Prod.mk.injEq] at hf
  exact ⟨s, hs, hf, (pipe_ends_iff hs hf).mpr rfl⟩

/-- **With standard input closed the read end is lost**: `pipe` returns `0` for it, `dup2(0, 0)`
    does nothing, and `close(0)` follows. -/
theorem closed_stdin_loses_read_end :
    ¬ ∀ (fds : FdTable String) (s : State String), Reach (step none) Succeeds (opening fds) s →
      Finished s → EndsInPlace s := by
  intro hall
  obtain ⟨s, hs, hf⟩ : ∃ s, Reach (step none) Succeeds (opening (terminal 1)) s ∧
      (((s.child .ls).ctrl, (s.child .wc).ctrl, s.parent.ctrl),
        (s.child .wc).fds.isOpen STDIN_FILENO)
        = ((.command, .command, .waitForChildren), false) :=
    reach_of_runWhen_map _ _ _ allSteps _ (by decide +kernel)
  simp only [Prod.mk.injEq] at hf
  obtain ⟨hfin, hclosed⟩ := hf
  have hread := ((hall (terminal 1) s hs hfin).2.2 STDIN_FILENO).1.mpr rfl
  rw [isOpen_of_refers hread] at hclosed
  cases hclosed

end Pipe
