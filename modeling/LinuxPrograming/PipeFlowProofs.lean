import LinuxPrograming.PipeProofs

/-!
# What flows through the pipe (`8-Pipe/main.c`)

The two commands are not part of the program: each is any program (`Command`) of which only what
its manual says is assumed, that `ls -l` writes its listing to descriptor `1` and exits (`Lists`), and
that `wc -l` reads descriptor `0` until it finds the end of the file, then writes what it has to say
and exits (`Counts`).  A read finds that end only when no process has the write end open any more,
and a write without a reader raises `SIGPIPE`.  So both depend on which descriptors the three
processes have closed, and when.  The parent waits for `ls` and then for `wc`.

`log_info` writes to descriptor `2`.  If that is open at the start, it refers to an end of the pipe in
no process (`logs_elsewhere`); otherwise it can be the write end.

* **`FlowInv`** — the bytes are conserved, and the end of the file means the end of the listing.
* **`no_byte_lost`** — if descriptors `0` and `2` were open, `ls` is never killed and what `wc` has
  read when it finds the end of the file is the whole listing.
* **`pipeline_completes`** — every run can be completed, and then the parent has waited for both.
-/

namespace Pipe

open Transition CmnBase FdTable

variable {φ : Type}

/-! ## Who is born when -/

/-- The children that have been forked. -/
def Births (s : State φ) : Prop :=
  match s.parent.ctrl with
  | .pipe | .fork .ls => ∀ c, (s.child c).ctrl = .unborn
  | .fork .wc => (s.child .ls).ctrl ≠ .unborn ∧ (s.child .wc).ctrl = .unborn
  | .closeRead | .closeWrite | .waitForChildren => ∀ c, (s.child c).ctrl ≠ .unborn
  | .ended _ => True

section Ends

variable {fds : FdTable φ} {dumpcore : Option String} {s s' : State φ} {c : Child}

/-- Only a child that is born takes steps, and it stays born. -/
theorem born_of_step {p q : Proc ChildCtrl φ} {r : Redirect} {ok : Bool}
    (h : executeCommandWithPipe dumpcore r q ok = some p) :
    q.ctrl ≠ .unborn ∧ p.ctrl ≠ .unborn := by
  rw [executeCommandWithPipe] at h
  cases hq : q.ctrl with
  | closeUnused =>
      rw [hq] at h
      obtain ⟨-, heq⟩ := Option.ite_none_right_eq_some.mp h
      cases heq
      exact ⟨fun h => (by cases h), fun h => (by cases h)⟩
  | dup2 =>
      rw [hq] at h
      simp only at h
      split at h
      · obtain ⟨-, heq⟩ := Option.ite_none_right_eq_some.mp h
        cases heq
        exact ⟨fun h => (by cases h), fun h => (by cases h)⟩
      · cases h
        exact ⟨fun h => (by cases h), fun h => (by cases h)⟩
  | closeOriginal =>
      rw [hq] at h
      obtain ⟨-, heq⟩ := Option.ite_none_right_eq_some.mp h
      cases heq
      exact ⟨fun h => (by cases h), fun h => (by cases h)⟩
  | execl =>
      rw [hq] at h
      simp only at h
      split at h <;> cases h <;> exact ⟨fun h => (by cases h), fun h => (by cases h)⟩
  | unborn => rw [hq] at h; cases h
  | command => rw [hq] at h; cases h
  | ended e => rw [hq] at h; cases h

theorem births_step {a : Act} (h : Births s) (hs : step dumpcore s a = some s') : Births s' := by
  cases a with
  | child c ok =>
      obtain ⟨p, hp, rfl⟩ := Option.map_eq_some_iff.mp hs
      obtain ⟨hborn, hborn'⟩ := born_of_step hp
      have hall : ∀ d, (Function.update s.child c p d).ctrl = .unborn ↔ (s.child d).ctrl = .unborn := by
        intro d
        by_cases hd : d = c
        · subst hd
          rw [Function.update_self]
          exact iff_of_false hborn' hborn
        · rw [Function.update_of_ne hd]
      unfold Births at h ⊢
      simpa only [ne_eq, hall] using h
  | parent ok =>
      rw [step, parentStep] at hs
      unfold Births at h
      cases hc : s.parent.ctrl with
      | pipe =>
          rw [hc] at hs h
          simp only at hs
          split at hs <;> cases hs
          · exact h
          · trivial
      | fork c =>
          rw [hc] at hs h
          simp only at hs
          split at hs <;> cases hs
          · cases c with
            | ls =>
                refine ⟨?_, ?_⟩
                · simp only [Function.update_self]
                  exact fun h => (by cases h)
                · simp only [Function.update_of_ne (show Child.wc ≠ .ls from fun h => (by cases h))]
                  exact h .wc
            | wc =>
                rintro ⟨⟩
                · simp only [Function.update_of_ne (show Child.ls ≠ .wc from fun h => (by cases h))]
                  exact h.1
                · simp only [Function.update_self]
                  exact fun h => (by cases h)
          · trivial
      | closeRead =>
          rw [hc] at hs h
          obtain ⟨-, heq⟩ := Option.ite_none_right_eq_some.mp hs
          cases heq
          exact h
      | closeWrite =>
          rw [hc] at hs h
          obtain ⟨-, heq⟩ := Option.ite_none_right_eq_some.mp hs
          cases heq
          exact h
      | waitForChildren => rw [hc] at hs; cases hs
      | ended e => rw [hc] at hs; cases hs

/-! ## Which ends are open -/

/-- The end that a child works with, and the one it closes. -/
def Child.keeps : Child → File φ
  | .ls => .writeEnd
  | .wc => .readEnd

def Child.drops : Child → File φ
  | .ls => .readEnd
  | .wc => .writeEnd

/-- The two ends in the table that a child starts with. -/
theorem child_ends (fds : FdTable φ) (c : Child) :
    (∀ n, (piped fds).Refers n c.keeps ↔ n = (childHandler c (pipeFds fds)).pipeEndToUse) ∧
    (∀ n, (piped fds).Refers n c.drops
      ↔ n = unusedEnd (pipeFds fds) (childHandler c (pipeFds fds)).redirectFd) ∧
    unusedEnd (pipeFds fds) (childHandler c (pipeFds fds)).redirectFd
      ≠ (childHandler c (pipeFds fds)).pipeEndToUse := by
  have hlt := pipeFds_lt fds
  cases c with
  | ls => exact ⟨fun n => (piped_refers fds n).2, fun n => (piped_refers fds n).1, Nat.ne_of_lt hlt⟩
  | wc => exact ⟨fun n => (piped_refers fds n).1, fun n => (piped_refers fds n).2, Nat.ne_of_gt hlt⟩

/-- With descriptor `0` open the ends are not where they are to be moved. -/
theorem pipeEnd_ne (h0 : fds.isOpen STDIN_FILENO = true) (c : Child) :
    (childHandler c (pipeFds fds)).pipeEndToUse ≠ (childHandler c (pipeFds fds)).redirectFd := by
  have hne : (pipeFds fds).1 ≠ 0 := by
    intro hzero
    have hclosed : (fds.map File.other).isOpen 0 = false := lowestFree_eq_zero_iff.mp hzero
    rw [isOpen_map] at hclosed
    cases hclosed.symm.trans h0
  have hlt := pipeFds_lt fds
  cases c with
  | ls =>
      show (pipeFds fds).2 ≠ 1
      omega
  | wc => exact hne

/-- **What a child has open** of the pipe, wherever it is: the end it works with; and when it
    executes its command, that is its standard descriptor, and the other end is closed. -/
theorem child_keeps (h0 : fds.isOpen STDIN_FILENO = true) (hI : Inv fds s)
    (hborn : (s.child c).ctrl ≠ .unborn) : ∃ n, (s.child c).fds.Refers n c.keeps := by
  obtain ⟨hkeep, hdrop, hne⟩ := child_ends fds c
  have hoff := pipeEnd_ne h0 c
  have hkept := (hkeep _).mpr rfl
  have hclosed := refers_close.mpr ⟨hne.symm, hkept⟩
  have hends : (c.keeps : File φ) ≠ c.drops := by cases c <;> exact fun h => (by cases h)
  have hI := hI.child c
  cases hc : (s.child c).ctrl with
  | unborn => exact absurd hc hborn
  | closeUnused =>
      rw [hc] at hI
      exact ⟨_, by rw [hI.1]; exact hkept⟩
  | dup2 =>
      rw [hc] at hI
      exact ⟨_, by rw [hI.1]; exact hclosed⟩
  | closeOriginal =>
      rw [hc] at hI
      refine ⟨(childHandler c (pipeFds fds)).redirectFd, ?_⟩
      rw [hI.1]
      exact (refers_dup2 hclosed).mpr (by rw [if_pos rfl])
  | execl =>
      rw [hc] at hI
      refine ⟨(childHandler c (pipeFds fds)).redirectFd, ?_⟩
      rw [show (s.child c).fds = _ from hI]
      exact (redirected_refers hkeep hdrop hne hends _).1.mpr ⟨hoff, rfl⟩
  | command =>
      rw [hc] at hI
      refine ⟨(childHandler c (pipeFds fds)).redirectFd, ?_⟩
      rw [show (s.child c).fds = _ from hI]
      cases c with
      | ls => exact (ls_ends fds _).1.mpr ⟨hoff, rfl⟩
      | wc => exact (wc_ends fds _).1.mpr ⟨hoff, rfl⟩
  | ended e =>
      rw [hc] at hI
      exact hI.elim

/-- A command has its end at the standard descriptor, and the other one is closed. -/
theorem command_ends (h0 : fds.isOpen STDIN_FILENO = true) (hI : Inv fds s)
    (hc : (s.child c).ctrl = .command) :
    (s.child c).fds.Refers (childHandler c (pipeFds fds)).redirectFd c.keeps ∧
      ∀ n, ¬ (s.child c).fds.Refers n c.drops := by
  have hoff := pipeEnd_ne h0 c
  have hI := hI.child c
  rw [hc] at hI
  rw [show (s.child c).fds = _ from hI]
  cases c with
  | ls => exact ⟨(ls_ends fds _).1.mpr ⟨hoff, rfl⟩, fun n => (ls_ends fds n).2⟩
  | wc => exact ⟨(wc_ends fds _).1.mpr ⟨hoff, rfl⟩, fun n => (wc_ends fds n).2⟩

/-! ## No call waits -/

/-- The parent gets to `waitForChildren`. -/
theorem parent_enabled (dumpcore : Option String) (hI : Inv fds s) (hc : s.parent.ctrl ≠ .waitForChildren) :
    (parentStep dumpcore s true).isSome := by
  have hI := hI.parent
  rw [parentStep]
  cases hp : s.parent.ctrl with
  | pipe => rfl
  | fork c => rfl
  | closeRead =>
      rw [hp] at hI
      have hopen : s.parent.fds.isOpen s.parent.pfd.1 = true := by
        rw [hI.1, hI.2]
        exact isOpen_of_refers ((piped_refers fds _).1.mpr rfl)
      simp only [hopen, if_true]
      rfl
  | closeWrite =>
      rw [hp] at hI
      have hopen : s.parent.fds.isOpen s.parent.pfd.2 = true := by
        rw [hI.1, hI.2]
        exact isOpen_of_refers
          (refers_close.mpr ⟨Nat.ne_of_gt (pipeFds_lt fds), (piped_refers fds _).2.mpr rfl⟩)
      simp only [hopen, if_true]
      rfl
  | waitForChildren => exact absurd hp hc
  | ended e =>
      rw [hp] at hI
      exact hI.elim

/-- A child gets to its command. -/
theorem child_enabled (dumpcore : Option String) (hI : Inv fds s) (hborn : (s.child c).ctrl ≠ .unborn)
    (hc : (s.child c).ctrl ≠ .command) :
    (executeCommandWithPipe dumpcore (childHandler c (s.child c).pfd) (s.child c) true).isSome := by
  obtain ⟨hkeep, hdrop, hne⟩ := child_ends fds c
  have hclosed := refers_close.mpr ⟨hne.symm, (hkeep _).mpr rfl⟩
  have hI := hI.child c
  rw [executeCommandWithPipe]
  cases hp : (s.child c).ctrl with
  | unborn => exact absurd hp hborn
  | closeUnused =>
      rw [hp] at hI
      have hopen : (s.child c).fds.isOpen
          (unusedEnd (s.child c).pfd (childHandler c (s.child c).pfd).redirectFd) = true := by
        rw [hI.1, hI.2]
        exact isOpen_of_refers ((hdrop _).mpr rfl)
      simp only [hopen, if_true]
      rfl
  | dup2 =>
      rw [hp] at hI
      have hopen : (s.child c).fds.isOpen (childHandler c (s.child c).pfd).pipeEndToUse = true := by
        rw [hI.1, hI.2]
        exact isOpen_of_refers hclosed
      simp only [hopen, if_true]
      rfl
  | closeOriginal =>
      rw [hp] at hI
      have hopen : (s.child c).fds.isOpen (childHandler c (s.child c).pfd).pipeEndToUse = true := by
        rw [hI.1, hI.2]
        refine isOpen_of_refers (f := c.keeps) ((refers_dup2 hclosed).mpr ?_)
        split
        · rfl
        · exact hclosed
      simp only [hopen, if_true]
      rfl
  | execl => rfl
  | command => exact absurd hp hc
  | ended e =>
      rw [hp] at hI
      exact hI.elim

end Ends

/-! ## Where the log goes -/

/-- `log_info` writes to it. -/
def STDERR_FILENO : Nat := 2

/-- Descriptor `2` is no end of the pipe. -/
def Apart (t : FdTable (File φ)) : Prop :=
  ¬ t.Refers STDERR_FILENO .readEnd ∧ ¬ t.Refers STDERR_FILENO .writeEnd

/-- No process logs into the pipe. -/
def LogsElsewhere (s : State φ) : Prop :=
  Apart s.parent.fds ∧ ∀ c, (s.child c).ctrl ≠ .unborn → Apart (s.child c).fds

section Log

variable {fds : FdTable φ} {s : State φ} {t t' : FdTable (File φ)} {n old new : Nat}

theorem Apart.of_imp (ht : Apart t)
    (himp : ∀ e, t'.Refers STDERR_FILENO e → t.Refers STDERR_FILENO e) : Apart t' :=
  ⟨fun h => ht.1 (himp _ h), fun h => ht.2 (himp _ h)⟩

theorem Apart.close (ht : Apart t) : Apart (t.close n) :=
  ht.of_imp fun _ h => (refers_close.mp h).2

theorem Apart.dup2 (ht : Apart t) (hne : STDERR_FILENO ≠ new) : Apart (t.dup2 old new) :=
  ht.of_imp fun _ h => refers_of_dup2 hne h

theorem Apart.exec (ht : Apart t) : Apart t.exec := ht.of_imp fun _ h => refers_of_exec h

theorem apart_opening (fds : FdTable φ) : Apart (fds.map File.other) :=
  ⟨not_refers_map fds fun f => by simp, not_refers_map fds fun f => by simp⟩

/-- `pipe` does not return a number that is open. -/
theorem apart_piped (h2 : fds.isOpen STDERR_FILENO = true) : Apart (piped fds) := by
  have hopen : (fds.map File.other).isOpen STDERR_FILENO = true := (isOpen_map File.other).trans h2
  have hfst : STDERR_FILENO ≠ (pipeFds fds).1 := by
    intro heq
    have hclosed : (fds.map File.other).isOpen (pipeFds fds).1 = false := lowestFree_closed
    rw [← heq, hopen] at hclosed
    cases hclosed
  have hsnd : STDERR_FILENO ≠ (pipeFds fds).2 := by
    intro heq
    have hclosed : ((fds.map File.other).alloc File.readEnd).isOpen (pipeFds fds).2 = false :=
      lowestFree_closed
    rw [← heq, isOpen_alloc_of_ne hfst, hopen] at hclosed
    cases hclosed
  obtain ⟨hread, hwrite⟩ := piped_refers fds STDERR_FILENO
  exact ⟨fun h => hfst (hread.mp h), fun h => hsnd (hwrite.mp h)⟩

theorem ParentCtrl.Holds.apart (h2 : fds.isOpen STDERR_FILENO = true) {ctrl : ParentCtrl}
    {pfd : Nat × Nat} (h : ctrl.Holds fds t pfd) : Apart t := by
  cases ctrl with
  | pipe =>
      cases h
      exact apart_opening fds
  | fork c =>
      obtain ⟨rfl, -⟩ := h
      exact apart_piped h2
  | closeRead =>
      obtain ⟨rfl, -⟩ := h
      exact apart_piped h2
  | closeWrite =>
      obtain ⟨rfl, -⟩ := h
      exact (apart_piped h2).close
  | waitForChildren =>
      cases h
      exact (apart_piped h2).close.close
  | ended e => exact h.elim

theorem ChildCtrl.Holds.apart (h2 : fds.isOpen STDERR_FILENO = true) {ctrl : ChildCtrl} {c : Child}
    {pfd : Nat × Nat} (h : ctrl.Holds fds c t pfd) (hborn : ctrl ≠ .unborn) : Apart t := by
  have hclosed : Apart ((piped fds).close
      (unusedEnd (pipeFds fds) (childHandler c (pipeFds fds)).redirectFd)) := (apart_piped h2).close
  -- `dup2` replaces descriptor `0` or `1`
  have hmoved : Apart (((piped fds).close
      (unusedEnd (pipeFds fds) (childHandler c (pipeFds fds)).redirectFd)).dup2
        (childHandler c (pipeFds fds)).pipeEndToUse (childHandler c (pipeFds fds)).redirectFd) :=
    hclosed.dup2 (by cases c <;> exact fun h => (by cases h))
  cases ctrl with
  | unborn => exact absurd rfl hborn
  | closeUnused =>
      obtain ⟨rfl, -⟩ := h
      exact apart_piped h2
  | dup2 =>
      obtain ⟨rfl, -⟩ := h
      exact hclosed
  | closeOriginal =>
      obtain ⟨rfl, -⟩ := h
      exact hmoved
  | execl =>
      cases h
      exact hmoved.close
  | command =>
      cases h
      exact hmoved.close.exec
  | ended e => exact h.elim

/-- **The log does not go into the pipe** when descriptor `2` was open. -/
theorem logs_elsewhere (h2 : fds.isOpen STDERR_FILENO = true) (hI : Inv fds s) :
    LogsElsewhere s :=
  ⟨hI.parent.apart h2, fun c hborn => (hI.child c).apart h2 hborn⟩

end Log

/-! ## The commands -/

/-- A call of a command: a `read` of up to `size` bytes, a `write` of some bytes, or its end. -/
inductive Call where
  | read (fd size : Nat)
  | write (fd : Nat) (bytes : List UInt8)
  | exit

/-- A program that a child executes: the call that it makes in each of its states, and how it goes on
    when the call has transferred some bytes (none at the end of the file) or has failed.  What else
    it does, with the directory or in its memory, is part of these. -/
structure Command (σ : Type) where
  start  : σ
  call   : σ → Call
  resume : σ → List UInt8 → σ
  fail   : σ → σ

section Commands

variable {σ : Type}

/-- **`ls -l`**: it writes `listing` to its standard output, in pieces of any size, and exits; `left`
    is what it has still to write. -/
structure Lists (ls : Command σ) (listing : List UInt8) (left : σ → List UInt8) : Prop where
  start  : left ls.start = listing
  call   : ∀ x, left x = [] ∧ ls.call x = .exit ∨
    ∃ piece, piece ≠ [] ∧ piece <+: left x ∧ ls.call x = .write STDOUT_FILENO piece
  resume : ∀ x bytes, bytes <+: left x → left (ls.resume x bytes) = (left x).drop bytes.length

/-- **`wc -l`**: it reads its standard input until it finds the end of the file, then makes some
    `write` calls and exits; from then on `todo` is a bound on these calls. -/
structure Counts (wc : Command σ) (todo : σ → Option Nat) : Prop where
  start  : todo wc.start = none
  reads  : ∀ x, todo x = none → ∃ size, 0 < size ∧ wc.call x = .read STDIN_FILENO size
  more   : ∀ x bytes, todo x = none → bytes ≠ [] → todo (wc.resume x bytes) = none
  eof    : ∀ x, todo x = none → todo (wc.resume x []) ≠ none
  report : ∀ x k, todo x = some k → wc.call x = .exit ∨
    ∃ fd text, text ≠ [] ∧ wc.call x = .write fd text ∧
      (∀ bytes, bytes ≠ [] → bytes <+: text → ∃ j < k, todo (wc.resume x bytes) = some j) ∧
      ∃ j < k, todo (wc.fail x) = some j

end Commands

/-! ## Two programs that do this -/

/-- `ls -l` with what it has still to write, `wc -l` with the newlines it has counted or with what it
    has still to print. -/
abbrev Progress := Nat ⊕ List UInt8

def lsCommand (listing : List UInt8) : Command Progress where
  start  := .inr listing
  call
    | .inl _ | .inr [] => .exit
    | .inr (b :: rest) => .write STDOUT_FILENO (b :: rest)
  resume
    | .inl n, _ => .inl n
    | .inr text, bytes => .inr (text.drop bytes.length)
  fail   := fun _ => .inr []

def wcCommand : Command Progress where
  start  := .inl 0
  call
    | .inl _ => .read STDIN_FILENO 16384
    | .inr [] => .exit
    | .inr (b :: rest) => .write STDOUT_FILENO (b :: rest)
  resume
    | .inl n, [] => .inr ((Nat.toDigits 10 n).map (fun c => c.toNat.toUInt8) ++ [10])
    | .inl n, b :: rest => .inl (n + (b :: rest).count 10)
    | .inr text, bytes => .inr (text.drop bytes.length)
  fail   := fun _ => .inr []

def lsThenWc (listing : List UInt8) : Child → Command Progress
  | .ls => lsCommand listing
  | .wc => wcCommand

def Progress.left : Progress → List UInt8 := Sum.elim (fun _ => []) id

def Progress.todo : Progress → Option Nat := Sum.elim (fun _ => none) fun text => some text.length

theorem lists_lsCommand (listing : List UInt8) :
    Lists (lsCommand listing) listing Progress.left where
  start  := rfl
  call
    | .inl _ | .inr [] => Or.inl ⟨rfl, rfl⟩
    | .inr (b :: rest) => Or.inr ⟨b :: rest, List.cons_ne_nil _ _, List.prefix_refl _, rfl⟩
  resume
    | .inl _, _ => fun _ => List.drop_nil.symm
    | .inr _, _ => fun _ => rfl

theorem counts_wcCommand : Counts wcCommand Progress.todo where
  start  := rfl
  reads
    | .inl n, _ => ⟨16384, by omega, rfl⟩
    | .inr text, h => (by cases h)
  more
    | .inl n, [], _ => fun hne => absurd rfl hne
    | .inl n, b :: rest, _ => fun _ => rfl
    | .inr text, _, h => (by cases h)
  eof
    | .inl n, _ => fun h => (by cases h)
    | .inr text, h => (by cases h)
  report
    | .inl n, k, h => (by cases h)
    | .inr [], k, h => Or.inl rfl
    | .inr (b :: rest), k, h => by
        cases h
        refine Or.inr ⟨_, _, List.cons_ne_nil _ _, rfl, fun bytes hne _ => ⟨_, ?_, rfl⟩,
          ⟨0, Nat.succ_pos _, rfl⟩⟩
        have hpos := List.length_pos_iff.mpr hne
        simp only [List.length_drop, List.length_cons]
        omega

/-! ## The commands and the pipe -/

/-- The processes, how far the commands are, the bytes in the pipe, the bytes that have been read from
    it, who has exited, and how many children `waitForChildren` has waited for. -/
structure Flow (φ σ : Type) where
  procs   : State φ
  prog    : Child → σ
  buffer  : List UInt8
  got     : List UInt8
  exited  : Child → Bool
  sigpipe : Bool
  waited  : Nat

/-- A system call up to the commands; a call of a command that transfers some bytes; a `waitpid` of
    the parent. -/
inductive FlowAct where
  | call (a : Act)
  | command (c : Child) (bytes : List UInt8)
  | wait

/-- `cid`. -/
def cid : Nat → Child
  | 0 => .ls
  | _ => .wc

variable {σ : Type} [DecidableEq φ]

instance (t : FdTable (File φ)) (n : Nat) (e : File φ) : Decidable (t.Refers n e) :=
  inferInstanceAs (Decidable (_ = _))

/-- Some descriptor refers to `e`. -/
def has (t : FdTable (File φ)) (e : File φ) : Bool :=
  (List.range t.limit).any fun n => decide (t.Refers n e)

namespace Flow

/-- The child executes its command. -/
def running (s : Flow φ σ) (c : Child) : Bool :=
  (s.procs.child c).ctrl = .command && !s.exited c

/-- Some process has the end `e` of the pipe open. -/
def isOpen (s : Flow φ σ) (e : File φ) : Bool :=
  has s.procs.parent.fds e || [Child.ls, .wc].any fun c =>
    (s.procs.child c).ctrl ≠ .unborn && !s.exited c && has (s.procs.child c).fds e

/-- The command of `c` goes on in `x`. -/
def goto (s : Flow φ σ) (c : Child) (x : σ) : Flow φ σ :=
  { s with prog := Function.update s.prog c x }

/-- The command of `c` ends. -/
def exit (s : Flow φ σ) (c : Child) : Flow φ σ :=
  { s with exited := Function.update s.exited c true }

end Flow

/-- The call that `c` makes next, with what the descriptor refers to; the pipe holds `cap` bytes.  A
    `write` waits for room, and a `read` for a byte or for the last write end to be closed. -/
def commandStep (cap : Nat) (commands : Child → Command σ) (s : Flow φ σ) (c : Child)
    (bytes : List UInt8) : Option (Flow φ σ) :=
  match (commands c).call (s.prog c) with
  | .write fd request =>
      match ((s.procs.child c).fds.entry fd).map Desc.file with
      | some .writeEnd =>
          if s.isOpen .readEnd then
            if bytes ≠ [] ∧ bytes <+: request ∧ s.buffer.length + bytes.length ≤ cap then
              some { s.goto c ((commands c).resume (s.prog c) bytes) with
                buffer := s.buffer ++ bytes }
            else none
          else some { s.exit c with sigpipe := true }
      | some (.other _) =>
          if bytes ≠ [] ∧ bytes <+: request then
            some (s.goto c ((commands c).resume (s.prog c) bytes))
          else none
      | some .readEnd | none => some (s.goto c ((commands c).fail (s.prog c)))
  | .read fd size =>
      match ((s.procs.child c).fds.entry fd).map Desc.file with
      | some .readEnd =>
          if bytes.length ≤ size ∧ bytes <+: s.buffer ∧
              (bytes = [] → s.buffer = [] ∧ s.isOpen .writeEnd = false) then
            some { s.goto c ((commands c).resume (s.prog c) bytes) with
              buffer := s.buffer.drop bytes.length, got := s.got ++ bytes }
          else none
      | some (.other _) =>
          if bytes.length ≤ size then some (s.goto c ((commands c).resume (s.prog c) bytes))
          else none
      | some .writeEnd | none => some (s.goto c ((commands c).fail (s.prog c)))
  | .exit => some (s.exit c)

/-- One step. -/
def flowStep (cap : Nat) (commands : Child → Command σ) (dumpcore : Option String)
    (s : Flow φ σ) : FlowAct → Option (Flow φ σ)
  | .call a => (step dumpcore s.procs a).map fun p => { s with procs := p }
  | .command c bytes => if s.running c then commandStep cap commands s c bytes else none
  | .wait =>
      if s.procs.parent.ctrl = .waitForChildren ∧ s.waited < 2 ∧ s.exited (cid s.waited) then
        some { s with waited := s.waited + 1 }
      else none

def flowOpening (commands : Child → Command σ) (fds : FdTable φ) : Flow φ σ :=
  ⟨opening fds, fun c => (commands c).start, [], [], fun _ => false, false, 0⟩

/-- No system call of the program fails. -/
def FlowSucceeds (s : Flow φ σ) : FlowAct → Prop
  | .call a => Succeeds s.procs a
  | _ => True

instance (s : Flow φ σ) (a : FlowAct) : Decidable (FlowSucceeds s a) := by
  cases a <;> unfold FlowSucceeds <;> infer_instance

theorem has_iff {t : FdTable (File φ)} {e : File φ} : has t e = true ↔ ∃ n, t.Refers n e := by
  simp only [has, List.any_eq_true, List.mem_range, decide_eq_true_iff]
  refine ⟨fun ⟨n, _, hn⟩ => ⟨n, hn⟩, fun ⟨n, hn⟩ => ⟨n, ?_, hn⟩⟩
  by_contra hlimit
  rw [Refers, t.closed n (Nat.le_of_not_lt hlimit)] at hn
  cases hn

namespace Flow

variable {s : Flow φ σ} {c d : Child} {x : σ}

omit [DecidableEq φ]

@[simp] theorem goto_got : (s.goto c x).got = s.got := rfl

@[simp] theorem goto_self : (s.goto c x).prog c = x := Function.update_self ..

@[simp] theorem goto_of_ne (h : d ≠ c) : (s.goto c x).prog d = s.prog d :=
  Function.update_of_ne h ..

theorem running_iff : s.running c = true ↔
    (s.procs.child c).ctrl = .command ∧ s.exited c = false := by
  simp [Flow.running]

theorem exit_exited : (s.exit c).exited d = true ↔ d = c ∨ s.exited d = true := by
  by_cases hd : d = c
  · subst hd
    simp [Flow.exit]
  · simp [Flow.exit, hd]

end Flow

section Moves

variable {commands : Child → Command σ} {listing bytes : List UInt8} {left : σ → List UInt8}
  {todo : σ → Option Nat} {cap : Nat} {s s' : Flow φ σ}

/-- **What `ls` does** in a pipe that has a reader: it puts its next bytes there, or ends. -/
theorem ls_cases (hls : Lists (commands .ls) listing left)
    (hout : (s.procs.child .ls).fds.Refers STDOUT_FILENO .writeEnd)
    (hreader : s.isOpen .readEnd = true) (hs : commandStep cap commands s .ls bytes = some s') :
    (left (s.prog .ls) = [] ∧ s' = s.exit .ls) ∨
    ∃ x, bytes ≠ [] ∧ left (s.prog .ls) = bytes ++ left x ∧
      s' = { s.goto .ls x with buffer := s.buffer ++ bytes } := by
  have hfile : ((s.procs.child .ls).fds.entry STDOUT_FILENO).map Desc.file = some .writeEnd := hout
  rw [commandStep] at hs
  rcases hls.call (s.prog .ls) with ⟨hleft, hcall⟩ | ⟨piece, -, hpiece, hcall⟩
  · rw [hcall] at hs
    cases hs
    exact Or.inl ⟨hleft, rfl⟩
  · rw [hcall] at hs
    simp only [hfile, if_pos hreader] at hs
    obtain ⟨⟨hne, hbytes, -⟩, heq⟩ := Option.ite_none_right_eq_some.mp hs
    cases heq
    have hpre := hbytes.trans hpiece
    refine Or.inr ⟨_, hne, ?_, rfl⟩
    rw [hls.resume _ _ hpre]
    exact List.prefix_iff_eq_append.mp hpre |>.symm

/-- **What `wc` does**: it takes the next bytes out of the pipe or finds the end of the file, and when
    it has found that, it goes on to its end. -/
theorem wc_cases (hwc : Counts (commands .wc) todo)
    (hin : (s.procs.child .wc).fds.Refers STDIN_FILENO .readEnd)
    (hwrite : ∀ n, ¬ (s.procs.child .wc).fds.Refers n .writeEnd)
    (hs : commandStep cap commands s .wc bytes = some s') :
    (todo (s.prog .wc) = none ∧ bytes <+: s.buffer ∧
      (bytes = [] → s.buffer = [] ∧ s.isOpen .writeEnd = false) ∧
      s' = { s.goto .wc ((commands .wc).resume (s.prog .wc) bytes) with
        buffer := s.buffer.drop bytes.length, got := s.got ++ bytes }) ∨
    ∃ k, todo (s.prog .wc) = some k ∧
      (s' = s.exit .wc ∨ ∃ x, (∃ j < k, todo x = some j) ∧ s' = s.goto .wc x) := by
  have hfile : ((s.procs.child .wc).fds.entry STDIN_FILENO).map Desc.file = some .readEnd := hin
  rw [commandStep] at hs
  cases htodo : todo (s.prog .wc) with
  | none =>
      obtain ⟨size, -, hcall⟩ := hwc.reads _ htodo
      rw [hcall] at hs
      simp only [hfile] at hs
      obtain ⟨⟨-, hbytes, heof⟩, heq⟩ := Option.ite_none_right_eq_some.mp hs
      cases heq
      exact Or.inl ⟨rfl, hbytes, heof, rfl⟩
  | some k =>
      refine Or.inr ⟨k, rfl, ?_⟩
      rcases hwc.report _ k htodo with hcall | ⟨fd, text, -, hcall, hresume, hfail⟩
      · rw [hcall] at hs
        cases hs
        exact Or.inl rfl
      · rw [hcall] at hs
        simp only at hs
        refine Or.inr ?_
        split at hs
        -- nothing that `wc` has open is the write end
        next hfd => exact absurd hfd (hwrite fd)
        next =>
          obtain ⟨⟨hne, hbytes⟩, heq⟩ := Option.ite_none_right_eq_some.mp hs
          cases heq
          exact ⟨_, hresume _ hne hbytes, rfl⟩
        all_goals
          cases hs
          exact ⟨_, hfail, rfl⟩

end Moves

/-! ## The invariant -/

/-- **The invariant**: the bytes of the listing are conserved, `ls` ends when it has written them all,
    and `wc` finds the end of the file when `ls` has ended and the pipe is empty. -/
structure FlowInv (fds : FdTable φ) (listing : List UInt8) (left : σ → List UInt8)
    (todo : σ → Option Nat) (s : Flow φ σ) : Prop where
  procs   : Inv fds s.procs
  births  : Births s.procs
  logs    : LogsElsewhere s.procs
  bytes   : s.got ++ s.buffer ++ left (s.prog .ls) = listing
  sigpipe : s.sigpipe = false
  command : ∀ c, s.exited c = true → (s.procs.child c).ctrl = .command
  ls      : s.exited .ls = true → left (s.prog .ls) = []
  eof     : todo (s.prog .wc) ≠ none → s.exited .ls = true ∧ s.buffer = []
  wc      : s.exited .wc = true → todo (s.prog .wc) ≠ none
  waited  : ∀ i, i < s.waited → s.exited (cid i) = true
  two     : s.waited ≤ 2

namespace FlowInv

variable {fds : FdTable φ} {listing : List UInt8} {left : σ → List UInt8}
  {todo : σ → Option Nat} {commands : Child → Command σ} {cap : Nat} {dumpcore : Option String}
  {s s' : Flow φ σ}

omit [DecidableEq φ] in
/-- `wc` does not end before `ls`. -/
theorem ls_of_wc (hI : FlowInv fds listing left todo s) (hwc : s.exited .wc = true) :
    s.exited .ls = true :=
  (hI.eof (hI.wc hwc)).1

/-- As long as `ls` has not ended there is a write end. -/
theorem writer (h0 : fds.isOpen STDIN_FILENO = true) (hI : FlowInv fds listing left todo s)
    (hwc : (s.procs.child .wc).ctrl ≠ .unborn) (hls : s.exited .ls = false) :
    s.isOpen .writeEnd = true := by
  have hborn : (s.procs.child .ls).ctrl ≠ .unborn := by
    have hbirths := hI.births
    unfold Births at hbirths
    split at hbirths
    · exact absurd (hbirths .wc) hwc
    · exact absurd (hbirths .wc) hwc
    · exact absurd hbirths.2 hwc
    · exact hbirths .ls
    · exact hbirths .ls
    · exact hbirths .ls
    next e hparent =>
      have hparents := hI.procs.parent
      rw [hparent] at hparents
      exact hparents.elim
  have hkeeps := has_iff.mpr (child_keeps h0 hI.procs hborn)
  simp [Flow.isOpen, hborn, hls, show has (s.procs.child .ls).fds .writeEnd = true from hkeeps]

/-- As long as `ls` has not ended there is a reader. -/
theorem reader (h0 : fds.isOpen STDIN_FILENO = true) (hI : FlowInv fds listing left todo s)
    (hls : s.running .ls = true) : s.isOpen .readEnd = true := by
  obtain ⟨hcommand, hexited⟩ := Flow.running_iff.mp hls
  have hwc : s.exited .wc = false := by
    rw [← Bool.not_eq_true]
    exact fun hwc => (by cases hexited.symm.trans (hI.ls_of_wc hwc))
  by_cases hborn : (s.procs.child .wc).ctrl = .unborn
  -- the parent has not closed its copies before `wc` has its own
  · have hparent := hI.procs.parent
    have hbirths := hI.births
    unfold Births at hbirths
    split at hbirths
    · exact absurd (hbirths .ls) (by rw [hcommand]; exact fun h => (by cases h))
    · exact absurd (hbirths .ls) (by rw [hcommand]; exact fun h => (by cases h))
    next hctrl =>
      rw [hctrl] at hparent
      have hhas : has s.procs.parent.fds .readEnd = true := by
        rw [hparent.1]
        exact has_iff.mpr ⟨_, (piped_refers fds _).1.mpr rfl⟩
      simp [Flow.isOpen, hhas]
    · exact absurd hborn (hbirths .wc)
    · exact absurd hborn (hbirths .wc)
    · exact absurd hborn (hbirths .wc)
    next e hctrl =>
      rw [hctrl] at hparent
      exact hparent.elim
  · have hkeeps := has_iff.mpr (child_keeps h0 hI.procs hborn)
    simp [Flow.isOpen, hborn, hwc, show has (s.procs.child .wc).fds .readEnd = true from hkeeps]

omit [DecidableEq φ] in
/-- A child that executes its command takes no more steps of its own. -/
theorem call_keeps {a : Act} {p : State φ} {c : Child} (hc : (s.procs.child c).ctrl = .command)
    (hs : Pipe.step dumpcore s.procs a = some p) (hbirths : Births s.procs) :
    (p.child c).ctrl = .command := by
  cases a with
  | child d ok =>
      obtain ⟨q, hq, rfl⟩ := Option.map_eq_some_iff.mp hs
      by_cases hd : c = d
      · subst hd
        rw [executeCommandWithPipe, hc] at hq
        cases hq
      · exact (congrArg Proc.ctrl (Function.update_of_ne hd ..)).trans hc
  | parent ok =>
      rw [Pipe.step, parentStep] at hs
      unfold Births at hbirths
      cases hp : s.procs.parent.ctrl with
      | fork d =>
          rw [hp] at hs hbirths
          simp only at hs
          split at hs <;> cases hs
          · have hd : c ≠ d := by
              rintro rfl
              cases c with
              | ls => cases hc.symm.trans (hbirths .ls)
              | wc => cases hc.symm.trans hbirths.2
            exact (congrArg Proc.ctrl (Function.update_of_ne hd ..)).trans hc
          · exact hc
      | pipe =>
          rw [hp] at hs
          simp only at hs
          split at hs <;> cases hs <;> exact hc
      | closeRead =>
          rw [hp] at hs
          obtain ⟨-, heq⟩ := Option.ite_none_right_eq_some.mp hs
          cases heq
          exact hc
      | closeWrite =>
          rw [hp] at hs
          obtain ⟨-, heq⟩ := Option.ite_none_right_eq_some.mp hs
          cases heq
          exact hc
      | waitForChildren => rw [hp] at hs; cases hs
      | ended e => rw [hp] at hs; cases hs

omit [DecidableEq φ] in
theorem opening (hls : Lists (commands .ls) listing left) (hwc : Counts (commands .wc) todo)
    (h2 : fds.isOpen STDERR_FILENO = true) :
    FlowInv fds listing left todo (flowOpening commands fds) where
  procs   := Inv.opening fds
  births  := fun _ => rfl
  logs    := logs_elsewhere h2 (Inv.opening fds)
  bytes   := hls.start
  sigpipe := rfl
  command := fun _ h => (by cases h)
  ls      := fun h => (by cases h)
  eof     := fun h => absurd hwc.start h
  wc      := fun h => (by cases h)
  waited  := fun _ h => absurd h (Nat.not_lt_zero _)
  two     := Nat.zero_le _

/-- A call of `ls` keeps the invariant. -/
theorem ls_step {bytes : List UInt8} (hls : Lists (commands .ls) listing left)
    (h0 : fds.isOpen STDIN_FILENO = true) (hI : FlowInv fds listing left todo s)
    (hrun : s.running .ls = true) (hs : commandStep cap commands s .ls bytes = some s') :
    FlowInv fds listing left todo s' := by
  obtain ⟨hcommand, hexited⟩ := Flow.running_iff.mp hrun
  have hreading : todo (s.prog .wc) = none := by
    by_contra hne
    cases hexited.symm.trans (hI.eof hne).1
  rcases ls_cases hls (command_ends h0 hI.procs hcommand).1 (hI.reader h0 hrun) hs with
    ⟨hleft, rfl⟩ | ⟨x, -, hsplit, rfl⟩
  · refine { hI with
      command := fun c hc => (Flow.exit_exited.mp hc).elim (fun he => he ▸ hcommand) (hI.command c)
      ls := fun _ => hleft
      eof := fun hne => absurd hreading hne
      wc := fun hwc => hI.wc ((Flow.exit_exited.mp hwc).resolve_left fun h => (by cases h))
      waited := fun i hi => Flow.exit_exited.mpr (.inr (hI.waited i hi)) }
  · have hprog : (s.goto .ls x).prog .wc = s.prog .wc := Flow.goto_of_ne fun h => (by cases h)
    refine { hI with
      bytes := ?_
      ls := fun hended => (by cases hexited.symm.trans hended)
      eof := fun hne => absurd (hprog ▸ hreading) hne
      wc := fun hwc => (by cases hexited.symm.trans (hI.ls_of_wc hwc)) }
    have hbytes := hI.bytes
    rw [hsplit] at hbytes
    rw [show (s.goto .ls x).prog .ls = x from Flow.goto_self]
    simpa only [Flow.goto_got, List.append_assoc] using hbytes

/-- A call of `wc` keeps the invariant. -/
theorem wc_step {bytes : List UInt8} (hwc : Counts (commands .wc) todo)
    (h0 : fds.isOpen STDIN_FILENO = true) (hI : FlowInv fds listing left todo s)
    (hrun : s.running .wc = true) (hs : commandStep cap commands s .wc bytes = some s') :
    FlowInv fds listing left todo s' := by
  obtain ⟨hcommand, hexited⟩ := Flow.running_iff.mp hrun
  obtain ⟨hin, hwrite⟩ := command_ends h0 hI.procs hcommand
  have hprog : ∀ x, (s.goto .wc x).prog .ls = s.prog .ls :=
    fun x => Flow.goto_of_ne fun h => (by cases h)
  rcases wc_cases hwc hin hwrite hs with
    ⟨hreading, hbytes, heof, rfl⟩ | ⟨k, htodo, rfl | ⟨x, ⟨j, -, hx⟩, rfl⟩⟩
  · refine { hI with
      bytes := ?_
      ls := fun hls => (congrArg left (hprog ((commands .wc).resume (s.prog .wc) bytes))).trans (hI.ls hls)
      eof := ?_
      wc := fun hended => (by cases hexited.symm.trans hended) }
    · have hsplit := List.prefix_iff_eq_append.mp hbytes
      rw [hprog, List.append_assoc s.got, hsplit]
      exact hI.bytes
    · intro hne
      rw [Flow.goto_self] at hne
      have hnil : bytes = [] := by
        by_contra hsome
        exact hne (hwc.more _ _ hreading hsome)
      obtain ⟨hbuffer, hwriter⟩ := heof hnil
      refine ⟨?_, by rw [hbuffer]; exact List.drop_nil⟩
      -- without a write end, `ls` has ended
      rw [← Bool.not_eq_false]
      intro hls
      have hborn : (s.procs.child .wc).ctrl ≠ .unborn := by
        rw [hcommand]
        exact fun h => (by cases h)
      cases hwriter.symm.trans (hI.writer h0 hborn hls)
  · have hne : todo (s.prog .wc) ≠ none := by simp [htodo]
    refine { hI with
      command := fun c hc => (Flow.exit_exited.mp hc).elim (fun he => he ▸ hcommand) (hI.command c)
      ls := fun hls => hI.ls ((Flow.exit_exited.mp hls).resolve_left fun h => (by cases h))
      eof := fun _ => ⟨Flow.exit_exited.mpr (.inr (hI.eof hne).1), (hI.eof hne).2⟩
      wc := fun _ => hne
      waited := fun i hi => Flow.exit_exited.mpr (.inr (hI.waited i hi)) }
  · have hne : todo (s.prog .wc) ≠ none := by simp [htodo]
    refine { hI with
      bytes := ?_
      ls := fun hls => (congrArg left (hprog x)).trans (hI.ls hls)
      eof := fun _ => hI.eof hne
      wc := fun hended => (by cases hexited.symm.trans hended) }
    rw [hprog x]
    exact hI.bytes

theorem step {a : FlowAct} (hls : Lists (commands .ls) listing left)
    (hwc : Counts (commands .wc) todo) (h0 : fds.isOpen STDIN_FILENO = true)
    (h2 : fds.isOpen STDERR_FILENO = true) (hI : FlowInv fds listing left todo s)
    (hok : FlowSucceeds s a) (hs : flowStep cap commands dumpcore s a = some s') :
    FlowInv fds listing left todo s' := by
  cases a with
  | call a =>
      obtain ⟨p, hp, rfl⟩ := Option.map_eq_some_iff.mp hs
      have hprocs := hI.procs.step hok hp
      exact { hI with
        procs := hprocs
        births := births_step hI.births hp
        logs := logs_elsewhere h2 hprocs
        command := fun c hc => call_keeps (hI.command c hc) hp hI.births }
  | command c bytes =>
      obtain ⟨hrun, hs⟩ := Option.ite_none_right_eq_some.mp hs
      cases c with
      | ls => exact hI.ls_step hls h0 hrun hs
      | wc => exact hI.wc_step hwc h0 hrun hs
  | wait =>
      obtain ⟨⟨-, htwo, hexited⟩, heq⟩ := Option.ite_none_right_eq_some.mp hs
      cases heq
      refine { hI with waited := ?_, two := htwo }
      intro i hi
      rcases Nat.lt_succ_iff_lt_or_eq.mp hi with hi | rfl
      · exact hI.waited i hi
      · exact hexited

end FlowInv

theorem flowInv_reach {fds : FdTable φ} {commands : Child → Command σ} {listing : List UInt8}
    {left : σ → List UInt8} {todo : σ → Option Nat} {cap : Nat} {dumpcore : Option String}
    {s : Flow φ σ} (hls : Lists (commands .ls) listing left) (hwc : Counts (commands .wc) todo)
    (h0 : fds.isOpen STDIN_FILENO = true) (h2 : fds.isOpen STDERR_FILENO = true)
    (h : Reach (flowStep cap commands dumpcore) FlowSucceeds (flowOpening commands fds) s) :
    FlowInv fds listing left todo s :=
  h.invariant (FlowInv.opening hls hwc h2) fun _ _ _ hI hok hs => hI.step hls hwc h0 h2 hok hs

/-! ## Every run can be completed -/

/-- How many calls the parent can still make. -/
def ParentCtrl.weight : ParentCtrl → Nat
  | .pipe            => 5
  | .fork .ls        => 4
  | .fork .wc        => 3
  | .closeRead       => 2
  | .closeWrite      => 1
  | .waitForChildren => 0
  | .ended _         => 0

/-- How many calls a child can still make; one that is not born will make as many as one that is. -/
def ChildCtrl.weight : ChildCtrl → Nat
  | .unborn | .closeUnused => 4
  | .dup2          => 3
  | .closeOriginal => 2
  | .execl         => 1
  | .command       => 0
  | .ended _       => 0

def State.weight (s : State φ) : Nat :=
  s.parent.ctrl.weight + (s.child .ls).ctrl.weight + (s.child .wc).ctrl.weight

/-- How many commands have not ended. -/
def alive (exited : Child → Bool) : Nat :=
  (if exited .ls then 0 else 1) + (if exited .wc then 0 else 1)

/-- What the steps lower: the calls and bytes to come, and when `wc` has found the end of the file, its
    last calls. -/
def Flow.weight (left : σ → List UInt8) (todo : σ → Option Nat) (s : Flow φ σ) : Nat × Nat :=
  (s.procs.weight + (2 * (left (s.prog .ls)).length + s.buffer.length) + alive s.exited
      + (2 - s.waited) + (todo (s.prog .wc)).elim 1 fun _ => 0,
    (todo (s.prog .wc)).getD 0)

omit [DecidableEq φ] in
theorem child_weight {dumpcore : Option String} {r : Redirect} {p q : Proc ChildCtrl φ} {ok : Bool}
    (h : executeCommandWithPipe dumpcore r q ok = some p) : p.ctrl.weight < q.ctrl.weight := by
  rw [executeCommandWithPipe] at h
  cases hq : q.ctrl with
  | closeUnused =>
      rw [hq] at h
      obtain ⟨-, heq⟩ := Option.ite_none_right_eq_some.mp h
      cases heq
      exact Nat.lt_succ_self _
  | dup2 =>
      rw [hq] at h
      simp only at h
      split at h
      · obtain ⟨-, heq⟩ := Option.ite_none_right_eq_some.mp h
        cases heq
        exact Nat.lt_succ_self _
      · cases h
        exact Nat.succ_pos _
  | closeOriginal =>
      rw [hq] at h
      obtain ⟨-, heq⟩ := Option.ite_none_right_eq_some.mp h
      cases heq
      exact Nat.lt_succ_self _
  | execl =>
      rw [hq] at h
      simp only at h
      split at h <;> cases h <;> exact Nat.succ_pos _
  | unborn => rw [hq] at h; cases h
  | command => rw [hq] at h; cases h
  | ended e => rw [hq] at h; cases h

omit [DecidableEq φ] in
theorem step_weight {dumpcore : Option String} {s s' : State φ} {a : Act}
    (hbirths : Births s) (hs : step dumpcore s a = some s') : s'.weight < s.weight := by
  cases a with
  | child c ok =>
      obtain ⟨p, hp, rfl⟩ := Option.map_eq_some_iff.mp hs
      have hless := child_weight hp
      cases c with
      | ls =>
          simp only [State.weight, Function.update_self,
            Function.update_of_ne (show Child.wc ≠ .ls from fun h => (by cases h))]
          omega
      | wc =>
          simp only [State.weight, Function.update_self,
            Function.update_of_ne (show Child.ls ≠ .wc from fun h => (by cases h))]
          omega
  | parent ok =>
      rw [step, parentStep] at hs
      unfold Births at hbirths
      cases hc : s.parent.ctrl with
      | pipe =>
          rw [hc] at hs
          simp only at hs
          split at hs <;> cases hs <;> simp [State.weight, hc, ParentCtrl.weight, State.fail]
      | fork c =>
          rw [hc] at hs hbirths
          simp only at hs
          split at hs <;> cases hs
          · cases c with
            | ls =>
                simp [State.weight, hc, ParentCtrl.weight, ChildCtrl.weight, hbirths .ls]
            | wc =>
                simp [State.weight, hc, ParentCtrl.weight, ChildCtrl.weight, hbirths.2]
          · cases c <;> simp [State.weight, hc, ParentCtrl.weight, State.fail]
      | closeRead =>
          rw [hc] at hs
          obtain ⟨-, heq⟩ := Option.ite_none_right_eq_some.mp hs
          cases heq
          simp [State.weight, hc, ParentCtrl.weight]
      | closeWrite =>
          rw [hc] at hs
          obtain ⟨-, heq⟩ := Option.ite_none_right_eq_some.mp hs
          cases heq
          simp [State.weight, hc, ParentCtrl.weight]
      | waitForChildren => rw [hc] at hs; cases hs
      | ended e => rw [hc] at hs; cases hs

section Result

variable {fds : FdTable φ} {listing : List UInt8} {left : σ → List UInt8}
  {todo : σ → Option Nat} {commands : Child → Command σ} {cap : Nat} {dumpcore : Option String}
  {s s' : Flow φ σ}

theorem alive_update {exited : Child → Bool} {c : Child} (h : exited c = false) :
    alive (Function.update exited c true) + 1 = alive exited := by
  cases c with
  | ls => cases hwc : exited .wc <;> simp [alive, h, hwc]
  | wc => cases hls : exited .ls <;> simp [alive, h, hls]

omit [DecidableEq φ] in
/-- The end of a command brings the end nearer. -/
theorem exit_weight {c : Child} (hrun : s.running c = true) :
    Prod.Lex (· < ·) (· < ·) ((s.exit c).weight left todo) (s.weight left todo) := by
  have hless := alive_update (Flow.running_iff.mp hrun).2
  refine Prod.Lex.left _ _ ?_
  simp only [Flow.exit]
  omega

/-- **Every step brings the end nearer.** -/
theorem flow_weight {a : FlowAct} (hls : Lists (commands .ls) listing left)
    (hwc : Counts (commands .wc) todo) (h0 : fds.isOpen STDIN_FILENO = true)
    (hI : FlowInv fds listing left todo s) (hs : flowStep cap commands dumpcore s a = some s') :
    Prod.Lex (· < ·) (· < ·) (s'.weight left todo) (s.weight left todo) := by
  cases a with
  | call a =>
      obtain ⟨p, hp, rfl⟩ := Option.map_eq_some_iff.mp hs
      have hless := step_weight hI.births hp
      refine Prod.Lex.left _ _ ?_
      simp only
      omega
  | command c bytes =>
      obtain ⟨hrun, hs⟩ := Option.ite_none_right_eq_some.mp hs
      obtain ⟨hcommand, -⟩ := Flow.running_iff.mp hrun
      cases c with
      | ls =>
          rcases ls_cases hls (command_ends h0 hI.procs hcommand).1 (hI.reader h0 hrun) hs with
            ⟨-, rfl⟩ | ⟨x, hne, hsplit, rfl⟩
          · exact exit_weight hrun
          · have hpos := List.length_pos_iff.mpr hne
            have hprog : (s.goto .ls x).prog .wc = s.prog .wc :=
              Flow.goto_of_ne fun h => (by cases h)
            refine Prod.Lex.left _ _ ?_
            rw [hprog, Flow.goto_self, hsplit]
            simp only [Flow.goto, List.length_append]
            omega
      | wc =>
          obtain ⟨hin, hwrite⟩ := command_ends h0 hI.procs hcommand
          have hprog : ∀ x, (s.goto .wc x).prog .ls = s.prog .ls :=
            fun x => Flow.goto_of_ne fun h => (by cases h)
          rcases wc_cases hwc hin hwrite hs with
            ⟨hreading, hbytes, -, rfl⟩ | ⟨k, htodo, rfl | ⟨x, ⟨j, hj, hx⟩, rfl⟩⟩
          · refine Prod.Lex.left _ _ ?_
            rw [hprog, Flow.goto_self, hreading]
            simp only [Flow.goto, List.length_drop, Option.elim_none]
            by_cases hnil : bytes = []
            · obtain ⟨k, hk⟩ := Option.ne_none_iff_exists'.mp (hwc.eof _ hreading)
              rw [hnil, hk]
              simp only [List.length_nil, Option.elim_some]
              omega
            · have hpos := List.length_pos_iff.mpr hnil
              have hle := hbytes.length_le
              rw [hwc.more _ _ hreading hnil, Option.elim_none]
              omega
          · exact exit_weight hrun
          · refine Prod.lex_def.mpr (Or.inr ⟨?_, ?_⟩)
            · simp only [Flow.weight, hprog, Flow.goto_self, htodo, hx]
              rfl
            · simp only [Flow.weight, Flow.goto_self, htodo, hx]
              exact hj
  | wait =>
      obtain ⟨⟨-, htwo, -⟩, heq⟩ := Option.ite_none_right_eq_some.mp hs
      cases heq
      refine Prod.Lex.left _ _ ?_
      simp only
      omega

/-- Nobody has the write end open when `ls` has ended and the parent has run `cleanup`. -/
theorem no_writer (h0 : fds.isOpen STDIN_FILENO = true) (hI : FlowInv fds listing left todo s)
    (hparent : s.procs.parent.ctrl = .waitForChildren) (hls : s.exited .ls = true)
    (hwc : (s.procs.child .wc).ctrl = .command) : s.isOpen .writeEnd = false := by
  have hholds := hI.procs.parent
  rw [hparent] at hholds
  have hnone : has s.procs.parent.fds .writeEnd = false := by
    rw [← Bool.not_eq_true, has_iff]
    rintro ⟨n, hn⟩
    rw [show s.procs.parent.fds = _ from hholds] at hn
    exact (parent_ends fds n).1 hn
  have hnone' : has (s.procs.child .wc).fds .writeEnd = false := by
    rw [← Bool.not_eq_true, has_iff]
    rintro ⟨n, hn⟩
    exact (command_ends h0 hI.procs hwc).2 n hn
  simp [Flow.isOpen, hnone, hnone', hls]

/-- `ls` can go on when there is room in the pipe. -/
theorem ls_enabled (hls : Lists (commands .ls) listing left)
    (hout : (s.procs.child .ls).fds.Refers STDOUT_FILENO .writeEnd) (hcap : s.buffer.length < cap) :
    ∃ bytes, (commandStep cap commands s .ls bytes).isSome := by
  have hfile : ((s.procs.child .ls).fds.entry STDOUT_FILENO).map Desc.file = some .writeEnd := hout
  rcases hls.call (s.prog .ls) with ⟨-, hcall⟩ | ⟨piece, hne, -, hcall⟩
  · refine ⟨[], ?_⟩
    rw [commandStep, hcall]
    rfl
  · obtain ⟨b, rest, rfl⟩ := List.exists_cons_of_ne_nil hne
    refine ⟨[b], ?_⟩
    rw [commandStep, hcall]
    simp only [hfile]
    split
    · rw [if_pos ⟨List.cons_ne_nil _ _, List.singleton_prefix_cons_iff.mpr rfl, hcap⟩]
      rfl
    · rfl

variable (cap) in
/-- `wc` can go on when there is something in the pipe or nobody can write any more. -/
theorem wc_enabled (hwc : Counts (commands .wc) todo)
    (hin : (s.procs.child .wc).fds.Refers STDIN_FILENO .readEnd)
    (hwrite : ∀ n, ¬ (s.procs.child .wc).fds.Refers n .writeEnd)
    (hgo : todo (s.prog .wc) = none → s.buffer = [] → s.isOpen .writeEnd = false) :
    ∃ bytes, (commandStep cap commands s .wc bytes).isSome := by
  have hfile : ((s.procs.child .wc).fds.entry STDIN_FILENO).map Desc.file = some .readEnd := hin
  cases htodo : todo (s.prog .wc) with
  | none =>
      obtain ⟨size, hsize, hcall⟩ := hwc.reads _ htodo
      cases hbuffer : s.buffer with
      | nil =>
          refine ⟨[], ?_⟩
          rw [commandStep, hcall]
          simp [hfile, hbuffer, hgo htodo hbuffer]
      | cons b rest =>
          refine ⟨[b], ?_⟩
          rw [commandStep, hcall]
          simp only [hfile, hbuffer]
          rw [if_pos ⟨hsize, List.singleton_prefix_cons_iff.mpr rfl, fun h => (by cases h)⟩]
          rfl
  | some k =>
      rcases hwc.report _ k htodo with hcall | ⟨fd, text, hne, hcall, -⟩
      · refine ⟨[], ?_⟩
        rw [commandStep, hcall]
        rfl
      · refine ⟨text, ?_⟩
        rw [commandStep, hcall]
        simp only
        split
        next hfd => exact absurd hfd (hwrite fd)
        next =>
          rw [if_pos ⟨hne, List.prefix_refl text⟩]
          rfl
        all_goals rfl

/-- Where no call of the program is left, the parent waits and both children have got to their
    commands. -/
theorem commands_of_stuck (hI : FlowInv fds listing left todo s)
    (hstuck : Stuck (flowStep cap commands dumpcore) FlowSucceeds s) :
    s.procs.parent.ctrl = .waitForChildren ∧ ∀ c, (s.procs.child c).ctrl = .command := by
  have hcall : ∀ a, Succeeds s.procs a → Pipe.step dumpcore s.procs a = none := fun a ha =>
    Option.map_eq_none_iff.mp (hstuck (.call a) ha)
  have hparent : s.procs.parent.ctrl = .waitForChildren := by
    by_contra hne
    have hsome := parent_enabled dumpcore hI.procs hne
    rw [show parentStep dumpcore s.procs true = none from hcall (.parent true) rfl] at hsome
    cases hsome
  have hborn : ∀ c, (s.procs.child c).ctrl ≠ .unborn := by
    have hbirths := hI.births
    unfold Births at hbirths
    rwa [hparent] at hbirths
  refine ⟨hparent, fun c => ?_⟩
  by_contra hne
  have hsome := child_enabled dumpcore hI.procs (hborn c) hne
  have hnone := Option.map_eq_none_iff.mp (hcall (.child c true) rfl)
  rw [hnone] at hsome
  cases hsome

/-- **Where nobody can go on, everything is done.** -/
theorem done_of_stuck (hls : Lists (commands .ls) listing left) (hwc : Counts (commands .wc) todo)
    (h0 : fds.isOpen STDIN_FILENO = true) (hcap : 0 < cap) (hI : FlowInv fds listing left todo s)
    (hstuck : Stuck (flowStep cap commands dumpcore) FlowSucceeds s) : s.waited = 2 := by
  obtain ⟨hparent, hcommand⟩ := commands_of_stuck hI hstuck
  have hends : ∀ c, s.exited c = true ∨ ∀ bytes, commandStep cap commands s c bytes = none := by
    intro c
    cases hc : s.exited c with
    | true => exact Or.inl rfl
    | false =>
        refine Or.inr fun bytes => ?_
        have hnone := hstuck (.command c bytes) trivial
        rwa [flowStep, if_pos (Flow.running_iff.mpr ⟨hcommand c, hc⟩)] at hnone
  obtain ⟨hin, hwrite⟩ := command_ends h0 hI.procs (hcommand .wc)
  -- `wc` goes on as long as there is something in the pipe
  have hread : s.exited .ls = false → s.buffer = [] := by
    intro hls'
    by_contra hne
    rcases hends .wc with hended | hnone
    · cases hls'.symm.trans (hI.ls_of_wc hended)
    · obtain ⟨bytes, hsome⟩ := wc_enabled cap hwc hin hwrite fun _ h => absurd h hne
      rw [hnone bytes] at hsome
      cases hsome
  have hls' : s.exited .ls = true := by
    rw [← Bool.not_eq_false]
    intro hrunning
    rcases hends .ls with hended | hnone
    · cases hrunning.symm.trans hended
    · have hroom : s.buffer.length < cap := by
        rw [hread hrunning]
        exact hcap
      obtain ⟨bytes, hsome⟩ := ls_enabled hls (command_ends h0 hI.procs (hcommand .ls)).1 hroom
      rw [hnone bytes] at hsome
      cases hsome
  have hwc' : s.exited .wc = true := by
    rcases hends .wc with hended | hnone
    · exact hended
    · obtain ⟨bytes, hsome⟩ := wc_enabled cap hwc hin hwrite
        fun _ _ => no_writer h0 hI hparent hls' (hcommand .wc)
      rw [hnone bytes] at hsome
      cases hsome
  by_contra hne
  have hlt : s.waited < 2 := Nat.lt_of_le_of_ne hI.two hne
  have hexited : ∀ c, s.exited c = true := by rintro ⟨⟩ <;> assumption
  have hnone := hstuck .wait trivial
  rw [flowStep, if_pos ⟨hparent, hlt, hexited _⟩] at hnone
  cases hnone

omit [DecidableEq φ] in
/-- What `wc` has read when it finds the end of the file. -/
theorem FlowInv.whole (hI : FlowInv fds listing left todo s) (heof : todo (s.prog .wc) ≠ none) :
    s.got = listing := by
  obtain ⟨hls, hbuffer⟩ := hI.eof heof
  have hbytes := hI.bytes
  rwa [hbuffer, hI.ls hls, List.append_nil, List.append_nil] at hbytes

/-- **NO BYTE IS LOST**, whatever the order of the steps and the sizes of the reads and writes, if
    descriptors `0` and `2` were open and no call of the program fails: what `wc` has read and what is
    in the pipe is what `ls` has written, `ls` is not killed by `SIGPIPE`, and when `wc` finds the
    end of the file it has read the whole listing.  No process logs into the pipe. -/
theorem no_byte_lost (hls : Lists (commands .ls) listing left) (hwc : Counts (commands .wc) todo)
    (h0 : fds.isOpen STDIN_FILENO = true) (h2 : fds.isOpen STDERR_FILENO = true)
    (h : Reach (flowStep cap commands dumpcore) FlowSucceeds (flowOpening commands fds) s) :
    s.got ++ s.buffer ++ left (s.prog .ls) = listing ∧ s.sigpipe = false ∧
      (todo (s.prog .wc) ≠ none → s.got = listing) ∧
      (s.exited .wc = true → todo (s.prog .wc) ≠ none) ∧ LogsElsewhere s.procs := by
  have hI := flowInv_reach hls hwc h0 h2 h
  exact ⟨hI.bytes, hI.sigpipe, hI.whole, hI.wc, hI.logs⟩

/-- From the usual descriptors, in the middle of the listing. -/
theorem no_byte_lost_midway : ∃ s : Flow String Progress,
    Reach (flowStep 2 (lsThenWc [97, 98, 10, 10]) none) FlowSucceeds
      (flowOpening (lsThenWc [97, 98, 10, 10]) (terminal 0)) s ∧
    s.prog .ls = .inr [10] ∧ s.got ++ s.buffer = [97, 98, 10] := by
  obtain ⟨s, hs, hleft⟩ : ∃ s, Reach (flowStep 2 (lsThenWc [97, 98, 10, 10]) none) FlowSucceeds
      (flowOpening (lsThenWc [97, 98, 10, 10]) (terminal 0)) s ∧ s.prog .ls = .inr [10] :=
    reach_of_runWhen_map _ _ _ (allSteps.map .call ++
      [.command .ls [97, 98], .command .wc [97], .command .ls [10]]) _ (by decide +kernel)
  have hbytes := (no_byte_lost (lists_lsCommand _) counts_wcCommand rfl rfl hs).1
  rw [hleft] at hbytes
  exact ⟨s, hs, hleft,
    List.append_cancel_right (hbytes.trans (show _ = [97, 98, 10] ++ [10] from rfl))⟩

/-- **THE PIPELINE ENDS.**  Under the same conditions, with a pipe that holds at least a byte, every
    run can be completed; then both commands have ended, `wc` has read the whole listing and the
    parent has waited for both. -/
theorem pipeline_completes (hls : Lists (commands .ls) listing left)
    (hwc : Counts (commands .wc) todo) (h0 : fds.isOpen STDIN_FILENO = true)
    (h2 : fds.isOpen STDERR_FILENO = true) (hcap : 0 < cap)
    (h : Reach (flowStep cap commands dumpcore) FlowSucceeds (flowOpening commands fds) s) :
    ∃ s', Reach (flowStep cap commands dumpcore) FlowSucceeds s s' ∧ s'.waited = 2 ∧
      (∀ c, s'.exited c = true) ∧ s'.got = listing := by
  obtain ⟨s', hs', hstuck⟩ := Reach.exhausts_of_wellFounded (Prod.lex Nat.lt_wfRel Nat.lt_wfRel).wf
    (FlowInv fds listing left todo) (Flow.weight left todo)
    (fun _ _ _ hI hok hs => hI.step hls hwc h0 h2 hok hs)
    (fun _ _ _ hI _ hs => flow_weight hls hwc h0 hI hs) (flowInv_reach hls hwc h0 h2 h)
  have hI := flowInv_reach hls hwc h0 h2 (Reach.trans h hs')
  have htwo := done_of_stuck hls hwc h0 hcap hI hstuck
  have hls' : s'.exited .ls = true := hI.waited 0 (by omega)
  have hwc' : s'.exited .wc = true := hI.waited 1 (by omega)
  exact ⟨s', hs', htwo, by rintro ⟨⟩ <;> assumption, hI.whole (hI.wc hwc')⟩

/-- From the usual descriptors. -/
theorem pipeline_completes_standard : ∃ s : Flow String Progress,
    Reach (flowStep 1 (lsThenWc [97, 10]) none) FlowSucceeds
      (flowOpening (lsThenWc [97, 10]) (terminal 0)) s ∧
    s.waited = 2 ∧ s.got = [97, 10] := by
  obtain ⟨s, hs, hwaited, -, hgot⟩ :=
    pipeline_completes (lists_lsCommand [97, 10]) counts_wcCommand rfl rfl Nat.one_pos
      (show Reach (flowStep 1 (lsThenWc [97, 10]) none) FlowSucceeds
        (flowOpening (lsThenWc [97, 10]) (terminal 0)) _ from .init)
  exact ⟨s, hs, hwaited, hgot⟩

end Result

end Pipe
