import LinuxPrograming.SignalFdProofs

/-!
# What the loop gets done by itself (`5-Signal/task4.c`)

The two signals of the mask are read between two lines only.  Inside `fgets` the program waits for
the rest of a line, and neither of the two wakes it up, as they are blocked; of other signals, which
are not, nothing is said here.

* **`Turn`** — what a step does when no call fails.
* **`sigterm_exits_or_deaf`** — after a `SIGTERM` the program exits, both signals reported, unless it
  waits for the end of an unfinished line.
* **`closed_input_echoed`** — after the end of the input everything that has arrived is handed to
  `printf`, and so echoed if there is no NUL in it.
-/

namespace SignalFd

open Transition CmnBase Lines

variable {bufsiz : Nat} {dumpcore : Option String} {s s' : State}

/-! ## Steps in which no call fails -/

/-- The program takes a step, and its call does not fail. -/
def Alone (_ : State) (a : Act) : Prop := a = .main true

instance (s : State) (a : Act) : Decidable (Alone s a) := by
  cases a with
  | main ok => exact decidable_of_iff (ok = true) (by simp [Alone])
  | _ => exact isFalse (fun h => by cases h)

/-- **What such a step does.** -/
inductive Turn (bufsiz : Nat) (s : State) : State → Prop where
  | sigprocmask : s.ctrl = .sigprocmask → Turn bufsiz s (s.goto .signalfd)
  | signalfd : s.ctrl = .signalfd → Turn bufsiz s ((s.log "Program is running...").goto .select)
  | signal : s.ctrl = .select → s.signalReady = true →
      Turn bufsiz s (s.goto (.read s.stdinReady))
  | input : s.ctrl = .select → s.signalReady = false → s.stdinReady = true →
      Turn bufsiz s (s.goto (.fgets []))
  | sigint (stdin : Bool) : s.ctrl = .read stdin → s.pending .SIGINT = true →
      Turn bufsiz s (({ s with pending := Function.update s.pending .SIGINT false }.log
        "SIGINT received.").goto (if stdin then .fgets [] else .select))
  | sigterm (stdin : Bool) : s.ctrl = .read stdin → s.pending .SIGINT = false →
      s.pending .SIGTERM = true →
      Turn bufsiz s { s with
        pending := Function.update s.pending .SIGTERM false
        ctrl := .ended (.exit EXIT_SUCCESS)
        out := s.out ++ [.log "SIGTERM received. Exit program"] ++ [.ending] }
  | character (acc : List UInt8) (c : UInt8) (rest : List UInt8) : s.ctrl = .fgets acc →
      s.stdio = c :: rest → Turn bufsiz s { s with stdio := rest, ctrl := .fgets (acc ++ [c]) }
  | line (acc : List UInt8) (c : UInt8) (rest : List UInt8) : s.ctrl = .fgets acc →
      s.stdio = c :: rest → Turn bufsiz s { s with stdio := rest, ctrl := .printf (acc ++ [c]) }
  | nothing : s.ctrl = .fgets [] → s.stdio = [] → s.eof = true → Turn bufsiz s (s.goto .select)
  | unfinished (acc : List UInt8) : s.ctrl = .fgets acc → acc ≠ [] → s.stdio = [] →
      s.eof = true → Turn bufsiz s (s.goto (.printf acc))
  | fill (acc : List UInt8) : s.ctrl = .fgets acc → s.stdio = [] → s.eof = false →
      s.kernel ≠ [] →
      Turn bufsiz s { s with stdio := s.kernel.take bufsiz, kernel := s.kernel.drop bufsiz }
  | eof (acc : List UInt8) : s.ctrl = .fgets acc → s.stdio = [] → s.eof = false →
      s.kernel = [] → s.closed = true → Turn bufsiz s { s with eof := true }
  | echo (buffer : List UInt8) : s.ctrl = .printf buffer →
      Turn bufsiz s { s with out := s.out ++ [.yourInput buffer], ctrl := .select }

theorem Turn.live (h : Turn bufsiz s s') : s.ctrl.isEnded = false := by
  cases h <;> simp only [*, Ctrl.isEnded]

/-- A round of `fgets`. -/
theorem turn_of_fgets {acc : List UInt8} (hc : s.ctrl = .fgets acc)
    (h : fgets bufsiz s acc = some s') : Turn bufsiz s s' := by
  unfold fgets at h
  split at h
  next c rest hio =>
    cases h
    by_cases hend : c = NEWLINE ∨ bufferSize ≤ (acc ++ [c]).length + 1
    · rw [if_pos hend]
      exact .line acc c rest hc hio
    · rw [if_neg hend]
      exact .character acc c rest hc hio
  next hio =>
    split at h
    case isTrue heof =>
      cases h
      by_cases hnil : acc = []
      · subst hnil
        exact .nothing hc hio heof
      · rw [if_neg hnil]
        exact .unfinished acc hc hnil hio heof
    case isFalse heof =>
      have heof := Bool.eq_false_iff.mpr heof
      split at h
      case isTrue hkernel =>
        cases h
        exact .fill acc hc hio heof hkernel
      case isFalse hkernel =>
        obtain ⟨hclosed, heq⟩ := Option.ite_none_right_eq_some.mp h
        cases heq
        exact .eof acc hc hio heof (Classical.not_not.mp hkernel) hclosed

theorem turn_of_step (h : mainStep bufsiz dumpcore s true = some s') : Turn bufsiz s s' := by
  unfold mainStep at h
  cases hc : s.ctrl with
  | sigprocmask =>
      simp only [hc, if_true, Option.some.injEq] at h
      exact h ▸ .sigprocmask hc
  | signalfd =>
      simp only [hc, if_true, Option.some.injEq] at h
      exact h ▸ .signalfd hc
  | select =>
      simp only [hc, if_true] at h
      split at h
      case isTrue hsignal =>
        cases h
        exact .signal hc hsignal
      case isFalse hsignal =>
        obtain ⟨hready, heq⟩ := Option.ite_none_right_eq_some.mp h
        cases heq
        exact .input hc (Bool.eq_false_iff.mpr hsignal) hready
  | read stdin =>
      simp only [hc, if_true] at h
      split at h
      case isTrue hint =>
        cases h
        exact .sigint stdin hc hint
      case isFalse hint =>
        obtain ⟨hterm, heq⟩ := Option.ite_none_right_eq_some.mp h
        cases heq
        exact .sigterm stdin hc (Bool.eq_false_iff.mpr hint) hterm
  | fgets acc =>
      simp only [hc] at h
      exact turn_of_fgets hc h
  | printf buffer =>
      simp only [hc, Option.some.injEq] at h
      exact h ▸ .echo buffer hc
  | ended e => simp [hc] at h
  | killed => simp [hc] at h

/-- A call that fails ends the program; `fgets` and `printf` are not checked. -/
theorem mainStep_false (h : mainStep bufsiz dumpcore s false = some s') :
    (∃ text, s' = s.fail dumpcore text) ∨ mainStep bufsiz dumpcore s true = some s' := by
  unfold mainStep at h ⊢
  cases hc : s.ctrl with
  | fgets acc =>
      simp only [hc] at h ⊢
      exact .inr h
  | printf buffer =>
      simp only [hc] at h ⊢
      exact .inr h
  | ended e => simp [hc] at h
  | killed => simp [hc] at h
  | _ =>
      simp only [hc, Bool.false_eq_true, if_false, Option.some.injEq] at h
      exact .inl ⟨_, h.symm⟩

/-- When the program cannot take a step. -/
theorem mainStep_eq_none (h : mainStep bufsiz dumpcore s true = none) :
    s.Waits ∨ (∃ stdin, s.ctrl = .read stdin ∧ s.signalReady = false) ∨
      (∃ acc, s.ctrl = .fgets acc ∧ s.stdio = [] ∧ s.eof = false ∧ s.stdinReady = false) ∨
      s.ctrl.isEnded = true := by
  unfold mainStep at h
  cases hc : s.ctrl with
  | select =>
      simp only [hc, if_true] at h
      split at h
      · cases h
      case isFalse hsignal =>
        split at h
        · cases h
        case isFalse hready =>
          exact .inl ⟨hc, Bool.eq_false_iff.mpr hready, Bool.eq_false_iff.mpr hsignal⟩
  | read stdin =>
      simp only [hc, if_true] at h
      split at h
      · cases h
      case isFalse hint =>
        split at h
        · cases h
        case isFalse hterm =>
          refine .inr (.inl ⟨stdin, rfl, ?_⟩)
          rw [State.signalReady, Bool.or_eq_false_iff]
          exact ⟨Bool.eq_false_iff.mpr hint, Bool.eq_false_iff.mpr hterm⟩
  | fgets acc =>
      simp only [hc] at h
      unfold fgets at h
      split at h
      · cases h
      next hio =>
        split at h
        · cases h
        case isFalse heof =>
          split at h
          · cases h
          case isFalse hkernel =>
            split at h
            · cases h
            case isFalse hclosed =>
              refine .inr (.inr (.inl ⟨acc, rfl, hio, Bool.eq_false_iff.mpr heof, ?_⟩))
              rw [State.stdinReady, Classical.not_not.mp hkernel, Bool.eq_false_iff.mpr hclosed]
              rfl
  | ended e => exact .inr (.inr (.inr rfl))
  | killed => exact .inr (.inr (.inr rfl))
  | _ => simp [hc] at h

/-! ## When the program reads -/

/-- The program reads only what there is: a signal, and input or its end. -/
structure Ready (s : State) : Prop where
  signal : ∀ stdin, s.ctrl = .read stdin → s.signalReady = true
  stdin  : s.ctrl = .read true → s.stdinReady = true
  fgets  : s.ctrl = .fgets [] → s.stdio ≠ [] ∨ s.stdinReady = true
  eof    : s.eof = true → s.kernel = [] ∧ s.closed = true

/-- The program goes on to a call that reads nothing. -/
theorem Ready.elsewhere (hR : Ready s) (hread : ∀ stdin, s'.ctrl ≠ .read stdin)
    (hfgets : s'.ctrl ≠ .fgets []) (hkernel : s'.kernel = s.kernel) (hclosed : s'.closed = s.closed)
    (heof : s'.eof = s.eof) : Ready s' where
  signal := fun stdin h => absurd h (hread stdin)
  stdin := fun h => absurd h (hread true)
  fgets := fun h => absurd h hfgets
  eof := by
    rw [hkernel, hclosed, heof]
    exact hR.eof

/-- **A step in which no call fails.** -/
theorem Ready.turn (hR : Ready s) (hbufsiz : 0 < bufsiz) (h : Turn bufsiz s s') : Ready s' := by
  cases h with
  | signal hc hsignal =>
      exact ⟨fun _ _ => hsignal, fun h => Ctrl.read.inj h, fun h => (by cases h), hR.eof⟩
  | input hc hsignal hready =>
      exact ⟨fun _ h => (by cases h), fun h => (by cases h), fun _ => Or.inr hready, hR.eof⟩
  | sigint stdin hc hint =>
      cases stdin with
      | true =>
          exact ⟨fun _ h => (by cases h), fun h => (by cases h), fun _ => Or.inr (hR.stdin hc),
            hR.eof⟩
      | false =>
          exact hR.elsewhere (fun _ h => (by cases h)) (fun h => (by cases h)) rfl rfl rfl
  | character acc c rest hc hio =>
      refine hR.elsewhere (fun _ h => (by cases h)) (fun h => ?_) rfl rfl rfl
      simp at h
  | fill acc hc hio heof hkernel =>
      refine ⟨fun _ h => (by cases hc.symm.trans h), fun h => (by cases hc.symm.trans h),
        fun _ => Or.inl ?_, fun h => (by cases heof.symm.trans h)⟩
      simp [List.take_eq_nil_iff, hkernel, Nat.ne_of_gt hbufsiz]
  | eof acc hc hio heof hkernel hclosed =>
      refine ⟨fun _ h => (by cases hc.symm.trans h), fun h => (by cases hc.symm.trans h),
        fun _ => Or.inr ?_, fun _ => ⟨hkernel, hclosed⟩⟩
      show (!s.kernel.isEmpty || s.closed) = true
      rw [hclosed, Bool.or_true]
  | _ => exact hR.elsewhere (fun _ h => (by cases h)) (fun h => (by cases h)) rfl rfl rfl

/-- **One step** of the program or of its surroundings. -/
theorem Ready.step {a : Act} (hR : Ready s) (hbufsiz : 0 < bufsiz)
    (h : step bufsiz dumpcore s a = some s') : Ready s' := by
  cases a with
  | main ok =>
      cases ok with
      | true => exact hR.turn hbufsiz (turn_of_step h)
      | false =>
          rcases mainStep_false h with ⟨text, rfl⟩ | h
          · exact hR.elsewhere (fun _ h => (by cases h)) (fun h => (by cases h)) rfl rfl rfl
          · exact hR.turn hbufsiz (turn_of_step h)
  | input bytes =>
      obtain ⟨⟨hne, hopen⟩, heq⟩ := Option.ite_none_right_eq_some.mp h
      cases heq
      have hready : (!(s.kernel ++ bytes).isEmpty || s.closed) = true := by simp [hne]
      refine ⟨hR.signal, fun _ => hready, fun _ => Or.inr hready, fun heof => ?_⟩
      cases hopen.symm.trans (hR.eof heof).2
  | close =>
      rw [SignalFd.step] at h
      split at h
      · cases h
      · cases h
        have hready : (!s.kernel.isEmpty || true) = true := Bool.or_true _
        exact ⟨hR.signal, fun _ => hready, fun _ => Or.inr hready,
          fun heof => ⟨(hR.eof heof).1, rfl⟩⟩
  | signal sig =>
      rw [SignalFd.step] at h
      split at h
      · cases h
      · split at h
        · cases h
          exact hR.elsewhere (fun _ h => (by cases h)) (fun h => (by cases h)) rfl rfl rfl
        · cases h
          refine ⟨fun _ _ => ?_, hR.stdin, hR.fgets, hR.eof⟩
          cases sig with
          | SIGINT => simp [State.signalReady]
          | SIGTERM => simp [State.signalReady]

theorem Ready.fresh : Ready State.fresh where
  signal := fun _ h => (by cases h)
  stdin := fun h => (by cases h)
  fgets := fun h => (by cases h)
  eof := fun h => (by cases h)

/-! ## After a `SIGTERM` -/

/-- The program waits inside `fgets` for the end of the line that it has begun, and can wait there
    for ever. -/
structure Deaf (bufsiz : Nat) (dumpcore : Option String) (s : State) (line : List UInt8) : Prop where
  blocked : mainStep bufsiz dumpcore s true = none
  ctrl    : s.ctrl = .fgets line
  begun   : line ≠ []
  noEnd   : NEWLINE ∉ line
  last    : s.arrived = (pieces s.out).flatten ++ line
  closed  : s.closed = false

/-- What is left to do until the next turn of the loop. -/
def Ctrl.weight : Ctrl → Nat
  | .sigprocmask => 4
  | .signalfd => 3
  | .select => 2
  | .read _ => 1
  | .fgets _ => 4
  | .printf _ => 3
  | .ended _ | .killed => 0

/-- What is left to do for the input that has not been read, before the end of the input is found
    or after. -/
def inputWeight (kernel stdio : List UInt8) (eof : Bool) : Nat :=
  2 * kernel.length + stdio.length + if eof then 0 else 1

/-- What is left to do while a `SIGTERM` is pending. -/
def State.weight (s : State) : Nat :=
  s.ctrl.weight + (if s.pending .SIGINT then 4 else 0) + inputWeight s.kernel s.stdio s.eof

/-- The program is on its way to the exit, or there. -/
structure Leaving (s : State) : Prop where
  inv   : Inv s
  ready : Ready s
  term  : (s.pending .SIGTERM = true ∧ s.ctrl.isEnded = false) ∨
    (s.ctrl = .ended (.exit EXIT_SUCCESS) ∧ s.signalReady = false)

theorem inputWeight_fill {kernel : List UInt8} (eof : Bool) (hbufsiz : 0 < bufsiz)
    (hkernel : kernel ≠ []) :
    inputWeight (kernel.drop bufsiz) (kernel.take bufsiz) eof < inputWeight kernel [] eof := by
  have hlen := List.length_pos_iff.mpr hkernel
  rw [inputWeight, inputWeight, List.length_drop, List.length_take, List.length_nil]
  omega

theorem inputWeight_cons (kernel rest : List UInt8) (c : UInt8) (eof : Bool) :
    inputWeight kernel rest eof + 1 = inputWeight kernel (c :: rest) eof := by
  rw [inputWeight, inputWeight, List.length_cons]
  omega

/-- The program goes on, and reads nothing. -/
theorem weight_goto {c : Ctrl} (h : c.weight < s.ctrl.weight) : (s.goto c).weight < s.weight :=
  Nat.add_lt_add_right (Nat.add_lt_add_right h _) _

/-- Every step brings the program nearer to the exit. -/
theorem Leaving.turn (hL : Leaving s) (hbufsiz : 0 < bufsiz) (hI : Inv s')
    (h : Turn bufsiz s s') : Leaving s' ∧ s'.weight < s.weight := by
  have hR := hL.ready.turn hbufsiz h
  have hlive := h.live
  obtain ⟨hterm, -⟩ := hL.term.resolve_right fun hend => (by rw [hend.1] at hlive; cases hlive)
  cases h with
  | sigprocmask hc =>
      refine ⟨⟨hI, hR, Or.inl ⟨hterm, rfl⟩⟩, weight_goto ?_⟩
      rw [hc]
      decide
  | signalfd hc =>
      refine ⟨⟨hI, hR, Or.inl ⟨hterm, rfl⟩⟩, ?_⟩
      show (s.goto .select).weight < s.weight
      refine weight_goto ?_
      rw [hc]
      decide
  | signal hc hsignal =>
      refine ⟨⟨hI, hR, Or.inl ⟨hterm, rfl⟩⟩, weight_goto ?_⟩
      rw [hc]
      exact Nat.lt_succ_self 1
  | input hc hsignal hready =>
      rw [State.signalReady, hterm, Bool.or_true] at hsignal
      cases hsignal
  | sigint stdin hc hint =>
      refine ⟨⟨hI, hR, Or.inl ⟨hterm, by cases stdin <;> rfl⟩⟩, ?_⟩
      have hless : (if stdin then Ctrl.fgets [] else .select).weight + 0 < s.ctrl.weight + 4 := by
        rw [hc]
        cases stdin <;> decide
      rw [State.weight, State.weight, hint, if_pos rfl]
      exact Nat.add_lt_add_right hless _
  | sigterm stdin hc hint hterm' =>
      refine ⟨⟨hI, hR, Or.inr ⟨rfl, ?_⟩⟩, ?_⟩
      · simp [State.signalReady, hint]
      · refine Nat.add_lt_add_right (Nat.add_lt_add_right ?_ _) _
        rw [hc]
        exact Nat.one_pos
  | character acc c rest hc hio =>
      refine ⟨⟨hI, hR, Or.inl ⟨hterm, rfl⟩⟩, ?_⟩
      have hinput := inputWeight_cons s.kernel rest c s.eof
      rw [State.weight, State.weight, hc, hio, ← hinput]
      exact Nat.lt_succ_self _
  | line acc c rest hc hio =>
      refine ⟨⟨hI, hR, Or.inl ⟨hterm, rfl⟩⟩, ?_⟩
      have hinput := inputWeight_cons s.kernel rest c s.eof
      rw [State.weight, State.weight, hc, hio, ← hinput]
      refine Nat.add_lt_add (Nat.add_lt_add_right ?_ _) (Nat.lt_succ_self _)
      exact Nat.lt_succ_self 3
  | nothing hc hio heof =>
      refine ⟨⟨hI, hR, Or.inl ⟨hterm, rfl⟩⟩, weight_goto ?_⟩
      rw [hc]
      decide
  | unfinished acc hc hne hio heof =>
      refine ⟨⟨hI, hR, Or.inl ⟨hterm, rfl⟩⟩, weight_goto ?_⟩
      rw [hc]
      exact Nat.lt_succ_self 3
  | fill acc hc hio heof hkernel =>
      refine ⟨⟨hI, hR, Or.inl ⟨hterm, hlive⟩⟩, ?_⟩
      have hless := inputWeight_fill s.eof hbufsiz hkernel
      rw [← hio] at hless
      exact Nat.add_lt_add_left hless _
  | eof acc hc hio heof hkernel hclosed =>
      refine ⟨⟨hI, hR, Or.inl ⟨hterm, hlive⟩⟩, ?_⟩
      refine Nat.add_lt_add_left ?_ (s.ctrl.weight + _)
      rw [heof]
      exact Nat.lt_succ_self _
  | echo buffer hc =>
      refine ⟨⟨hI, hR, Or.inl ⟨hterm, rfl⟩⟩, ?_⟩
      show (s.goto .select).weight < s.weight
      refine weight_goto ?_
      rw [hc]
      exact Nat.lt_succ_self 2

/-- A step of the program, when it is alone. -/
theorem Leaving.step {a : Act} (hL : Leaving s) (hbufsiz : 0 < bufsiz) (ha : Alone s a)
    (h : SignalFd.step bufsiz dumpcore s a = some s') : Leaving s' ∧ s'.weight < s.weight := by
  subst ha
  exact hL.turn hbufsiz (hL.inv.mainStep h).1 (turn_of_step h)

/-- When the program is stuck on its way to the exit, it is there or deaf. -/
theorem Leaving.of_stuck (hL : Leaving s)
    (hstuck : Stuck (SignalFd.step bufsiz dumpcore) Alone s) :
    (s.ctrl = .ended (.exit EXIT_SUCCESS) ∧ s.signalReady = false) ∨
      ∃ line, Deaf bufsiz dumpcore s line := by
  rcases hL.term with ⟨hterm, hlive⟩ | hend
  · have hnone : mainStep bufsiz dumpcore s true = none := hstuck (.main true) rfl
    have hsignal : s.signalReady = true := by rw [State.signalReady, hterm, Bool.or_true]
    rcases mainStep_eq_none hnone with hw | ⟨_, -, hno⟩ | ⟨line, hc, hio, -, hready⟩ | hended
    · cases hsignal.symm.trans hw.2.2
    · cases hsignal.symm.trans hno
    · refine Or.inr ⟨line, hnone, hc, ?_, hL.inv.reading line hc, ?_, ?_⟩
      · rintro rfl
        rcases hL.ready.fgets hc with hne | hyes
        · exact hne hio
        · cases hyes.symm.trans hready
      · rw [State.stdinReady, Bool.or_eq_false_iff, Bool.not_eq_false', List.isEmpty_iff] at hready
        have harrived := hL.inv.arrived
        rw [hc, hio, hready.1, List.append_nil, List.append_nil] at harrived
        exact harrived
      · rw [State.stdinReady, Bool.or_eq_false_iff] at hready
        exact hready.2
    · cases hlive.symm.trans hended
  · exact Or.inl hend

/-- Neither input nor its end arrives. -/
def NoInput (_ : State) : Act → Prop
  | .input _ | .close => False
  | .main _ | .signal _ => True

/-- There is nothing that `fgets` could read. -/
theorem fgets_eq_none {acc : List UInt8} (hio : s.stdio = []) (heof : s.eof = false)
    (hready : s.stdinReady = false) : fgets bufsiz s acc = none := by
  rw [State.stdinReady, Bool.or_eq_false_iff, Bool.not_eq_false', List.isEmpty_iff] at hready
  simp [fgets, hio, heof, hready.1, hready.2]

theorem Deaf.starved {line : List UInt8} (hD : Deaf bufsiz dumpcore s line) :
    s.stdio = [] ∧ s.eof = false ∧ s.stdinReady = false := by
  have hc := hD.ctrl
  rcases mainStep_eq_none hD.blocked with hw | ⟨_, hread, -⟩ | ⟨_, -, hstarved⟩ | hended
  · cases hc.symm.trans hw.1
  · cases hc.symm.trans hread
  · exact hstarved
  · rw [hc] at hended
    cases hended

/-- Only input ends it: whatever signals arrive, the program stays where it is. -/
theorem Deaf.step {a : Act} {line : List UInt8} (hD : Deaf bufsiz dumpcore s line)
    (ha : NoInput s a) (h : SignalFd.step bufsiz dumpcore s a = some s') :
    Deaf bufsiz dumpcore s' line := by
  have hc := hD.ctrl
  cases a with
  | main ok =>
      have hnone := hD.blocked
      rw [mainStep, hc] at hnone
      rw [SignalFd.step, mainStep, hc] at h
      cases hnone.symm.trans h
  | input bytes => exact ha.elim
  | close => exact ha.elim
  | signal sig =>
      have hlive : ¬ s.ctrl.isEnded = true := by
        rw [hc]
        exact fun h => (by cases h)
      have hmask : ¬ s.ctrl = .sigprocmask := by
        rw [hc]
        exact fun h => (by cases h)
      rw [SignalFd.step, if_neg hlive, if_neg hmask] at h
      cases h
      refine ⟨?_, hc, hD.begun, hD.noEnd, hD.last, hD.closed⟩
      obtain ⟨hio, heof, hready⟩ := hD.starved
      rw [mainStep, hc]
      exact fgets_eq_none hio heof hready

/-- **AFTER A `SIGTERM`**, from any state that the program can get into and has not ended in, its
    own steps lead to the exit, where neither `SIGINT` nor `SIGTERM` is left unreported, or into
    `fgets`, where it waits for the end of an unfinished line: there it stays, however often the two
    signals arrive, as long as there is no input. -/
theorem sigterm_exits_or_deaf (hbufsiz : 0 < bufsiz)
    (h : Reachable (SignalFd.step bufsiz dumpcore) .fresh s)
    (hterm : s.pending .SIGTERM = true) (hlive : s.ctrl.isEnded = false) :
    ∃ s', Reach (SignalFd.step bufsiz dumpcore) Alone s s' ∧
      ((s'.ctrl = .ended (.exit EXIT_SUCCESS) ∧ s'.signalReady = false) ∨
        ∃ line, ∀ u, Reach (SignalFd.step bufsiz dumpcore) NoInput s' u →
          Deaf bufsiz dumpcore u line) := by
  have hI : Inv s := h.invariant .fresh fun _ _ _ hI _ hs => (hI.step hs).1
  have hR : Ready s := h.invariant .fresh fun _ _ _ hR _ hs => hR.step hbufsiz hs
  have hL : Leaving s := ⟨hI, hR, Or.inl ⟨hterm, hlive⟩⟩
  have hstep : ∀ u a u', Leaving u → Alone u a →
      SignalFd.step bufsiz dumpcore u a = some u' → Leaving u' ∧ u'.weight < u.weight :=
    fun _ _ _ hL ha hs => hL.step hbufsiz ha hs
  obtain ⟨s', hs', hstuck⟩ := Reach.exhausts Leaving State.weight
    (fun u a u' hL ha hs => (hstep u a u' hL ha hs).1)
    (fun u a u' hL ha hs => (hstep u a u' hL ha hs).2) hL
  have hL' : Leaving s' := hs'.invariant hL fun u a u' hL ha hs => (hstep u a u' hL ha hs).1
  refine ⟨s', hs', (hL'.of_stuck hstuck).imp_right ?_⟩
  rintro ⟨line, hD⟩
  have hkeep : ∀ u a u', Deaf bufsiz dumpcore u line → NoInput u a →
      SignalFd.step bufsiz dumpcore u a = some u' → Deaf bufsiz dumpcore u' line :=
    fun _ _ _ hD ha hs => hD.step ha hs
  refine ⟨line, fun u hu => ?_⟩
  exact Reach.invariant (s := u) hD hkeep hu

/-- A `SIGTERM` and a `SIGINT` arrive while the program is inside `fgets`, with `"a"` read. -/
def insideFgets : List Act := afterInput [97] 3 ++ [.signal .SIGTERM, .signal .SIGINT]

/-- The theorem for these signals. -/
theorem sigterm_exits_or_deaf_inside : ∃ s, Reachable (SignalFd.step 4096 none) .fresh s ∧
    s.ctrl = .fgets [97] ∧ ∃ s', Reach (SignalFd.step 4096 none) Alone s s' ∧
      ((s'.ctrl = .ended (.exit EXIT_SUCCESS) ∧ s'.signalReady = false) ∨
        ∃ line, ∀ u, Reach (SignalFd.step 4096 none) NoInput s' u → Deaf 4096 none u line) := by
  obtain ⟨s, hs, hf⟩ := reachable_of_run_map (SignalFd.step 4096 none) .fresh insideFgets
    (fun s => (s.ctrl, s.pending .SIGTERM)) (c := (.fgets [97], true)) (by decide +kernel)
  simp only [Prod.mk.injEq] at hf
  exact ⟨s, hs, hf.1, sigterm_exits_or_deaf (by decide) hs hf.2 (by rw [hf.1]; rfl)⟩

/-! ## After the end of the input -/

/-- Everything that has arrived has been handed to `printf`. -/
def Handed (s : State) : Prop := (pieces s.out).flatten = s.arrived

/-- The program is alone, and has not echoed everything. -/
def Echoing (s : State) (a : Act) : Prop := Alone s a ∧ ¬ Handed s

/-- What is left to do until the next turn of the loop; a call of `fgets` is paid for by the first
    character that it takes. -/
def Ctrl.cost : Ctrl → Nat
  | .sigprocmask => 4
  | .signalfd => 3
  | .select => 2
  | .read _ => 1
  | .fgets [] => 1
  | .fgets (_ :: _) => 4
  | .printf _ => 3
  | .ended _ | .killed => 0

/-- What is left to do until everything is echoed. -/
def State.cost (s : State) : Nat :=
  s.ctrl.cost + (if s.pending .SIGINT then 2 else 0)
    + (6 * s.kernel.length + 5 * s.stdio.length + if s.eof then 0 else 1)

/-- The input `arrived` has ended, and the program goes on. -/
structure Ending (arrived : List UInt8) (s : State) : Prop where
  inv    : Inv s
  ready  : Ready s
  closed : s.closed = true
  term   : s.pending .SIGTERM = false
  live   : s.ctrl.isEnded = false
  same   : s.arrived = arrived

theorem cost_goto {c : Ctrl} (h : c.cost < s.ctrl.cost) : (s.goto c).cost < s.cost :=
  Nat.add_lt_add_right (Nat.add_lt_add_right h _) _

theorem cost_fgets (acc : List UInt8) : 1 ≤ (Ctrl.fgets acc).cost ∧ (Ctrl.fgets acc).cost ≤ 4 := by
  cases acc with
  | nil => exact ⟨Nat.le_refl 1, by decide⟩
  | cons c acc => exact ⟨Nat.succ_le_succ (Nat.zero_le 3), Nat.le_refl 4⟩

/-- Every step brings the program nearer to the end of its input. -/
theorem Ending.turn {arrived : List UInt8} (hE : Ending arrived s) (hbufsiz : 0 < bufsiz)
    (hI : Inv s') (hnot : ¬ Handed s) (h : Turn bufsiz s s') :
    Ending arrived s' ∧ s'.cost < s.cost := by
  have hR := hE.ready.turn hbufsiz h
  cases h with
  | sigprocmask hc =>
      refine ⟨⟨hI, hR, hE.closed, hE.term, rfl, hE.same⟩, cost_goto ?_⟩
      rw [hc]
      decide
  | signalfd hc =>
      refine ⟨⟨hI, hR, hE.closed, hE.term, rfl, hE.same⟩, ?_⟩
      show (s.goto .select).cost < s.cost
      refine cost_goto ?_
      rw [hc]
      decide
  | signal hc hsignal =>
      refine ⟨⟨hI, hR, hE.closed, hE.term, rfl, hE.same⟩, cost_goto ?_⟩
      rw [hc]
      exact Nat.lt_succ_self 1
  | input hc hsignal hready =>
      refine ⟨⟨hI, hR, hE.closed, hE.term, rfl, hE.same⟩, cost_goto ?_⟩
      rw [hc]
      decide
  | sigint stdin hc hint =>
      refine ⟨⟨hI, hR, hE.closed, hE.term, by cases stdin <;> rfl, hE.same⟩, ?_⟩
      have hless : (if stdin then Ctrl.fgets [] else .select).cost + 0 < s.ctrl.cost + 2 := by
        rw [hc]
        cases stdin <;> decide
      rw [State.cost, State.cost, hint, if_pos rfl]
      exact Nat.add_lt_add_right hless _
  | sigterm stdin hc hint hterm => cases hE.term.symm.trans hterm
  | character acc c rest hc hio =>
      refine ⟨⟨hI, hR, hE.closed, hE.term, rfl, hE.same⟩, ?_⟩
      have hbefore := (cost_fgets acc).1
      have hafter := (cost_fgets (acc ++ [c])).2
      rw [State.cost, State.cost, hc, hio, List.length_cons]
      dsimp only
      omega
  | line acc c rest hc hio =>
      refine ⟨⟨hI, hR, hE.closed, hE.term, rfl, hE.same⟩, ?_⟩
      have hbefore := (cost_fgets acc).1
      have hafter : (Ctrl.printf (acc ++ [c])).cost = 3 := rfl
      rw [State.cost, State.cost, hc, hio, List.length_cons]
      dsimp only
      omega
  | nothing hc hio heof =>
      -- then nothing is left
      have harrived := hE.inv.arrived
      rw [hc, hio, (hE.ready.eof heof).1, List.append_nil, List.append_nil] at harrived
      exact absurd ((List.append_nil _).symm.trans harrived.symm) hnot
  | unfinished acc hc hne hio heof =>
      refine ⟨⟨hI, hR, hE.closed, hE.term, rfl, hE.same⟩, cost_goto ?_⟩
      rw [hc]
      cases acc with
      | nil => exact absurd rfl hne
      | cons c acc => exact Nat.lt_succ_self 3
  | fill acc hc hio heof hkernel =>
      refine ⟨⟨hI, hR, hE.closed, hE.term, hE.live, hE.same⟩, ?_⟩
      have hlen := List.length_pos_iff.mpr hkernel
      refine Nat.add_lt_add_left ?_ (s.ctrl.cost + _)
      show 6 * (s.kernel.drop bufsiz).length + 5 * (s.kernel.take bufsiz).length + _
        < 6 * s.kernel.length + 5 * s.stdio.length + _
      rw [List.length_drop, List.length_take, hio, List.length_nil, heof]
      omega
  | eof acc hc hio heof hkernel hclosed =>
      refine ⟨⟨hI, hR, hE.closed, hE.term, hE.live, hE.same⟩, ?_⟩
      refine Nat.add_lt_add_left ?_ (s.ctrl.cost + _)
      rw [heof]
      exact Nat.lt_succ_self _
  | echo buffer hc =>
      refine ⟨⟨hI, hR, hE.closed, hE.term, rfl, hE.same⟩, ?_⟩
      show (s.goto .select).cost < s.cost
      refine cost_goto ?_
      rw [hc]
      exact Nat.lt_succ_self 2

/-- The program is never stuck before everything is echoed. -/
theorem Ending.of_stuck {arrived : List UInt8} (hE : Ending arrived s)
    (hstuck : Stuck (SignalFd.step bufsiz dumpcore) Echoing s) : Handed s := by
  by_contra hnot
  have hready : s.stdinReady = true := by rw [State.stdinReady, hE.closed, Bool.or_true]
  rcases mainStep_eq_none (hstuck (.main true) ⟨rfl, hnot⟩) with hw | ⟨stdin, hc, hno⟩ |
    ⟨_, -, -, -, hno⟩ | hended
  · cases hready.symm.trans hw.2.1
  · cases (hE.ready.signal stdin hc).symm.trans hno
  · cases hready.symm.trans hno
  · cases hE.live.symm.trans hended

/-- Without a NUL `printf` shows what it is given. -/
theorem echoed_eq_of_noNul {out : List Output} (h : (0 : UInt8) ∉ (pieces out).flatten) :
    echoed out = (pieces out).flatten := by
  have hall : ∀ p ∈ pieces out, text 0 p = id p := fun p hp =>
    text_eq_self fun hzero => h (List.mem_flatten.mpr ⟨p, hp, hzero⟩)
  rw [echoed, List.map_congr_left hall, List.map_id]

/-- **AFTER THE END OF THE INPUT**, from any state that the program can get into and has not ended
    in, its own steps hand everything that has arrived to `printf`, a last line without its end
    included, unless a `SIGTERM` comes first; if there is no NUL in it, it is echoed. -/
theorem closed_input_echoed (hbufsiz : 0 < bufsiz)
    (h : Reachable (SignalFd.step bufsiz dumpcore) .fresh s) (hclosed : s.closed = true)
    (hterm : s.pending .SIGTERM = false) (hlive : s.ctrl.isEnded = false) :
    ∃ s', Reach (SignalFd.step bufsiz dumpcore) Alone s s' ∧
      (pieces s'.out).flatten = s.arrived ∧ s'.ctrl.isEnded = false ∧
      ((0 : UInt8) ∉ s.arrived → echoed s'.out = s.arrived) := by
  have hI : Inv s := h.invariant .fresh fun _ _ _ hI _ hs => (hI.step hs).1
  have hR : Ready s := h.invariant .fresh fun _ _ _ hR _ hs => hR.step hbufsiz hs
  have hstep : ∀ u a u', Ending s.arrived u → Echoing u a →
      SignalFd.step bufsiz dumpcore u a = some u' →
      Ending s.arrived u' ∧ u'.cost < u.cost := by
    rintro u a u' hE ⟨rfl, hnot⟩ hs
    exact hE.turn hbufsiz (hE.inv.mainStep hs).1 hnot (turn_of_step hs)
  have hE : Ending s.arrived s := ⟨hI, hR, hclosed, hterm, hlive, rfl⟩
  obtain ⟨s', hs', hstuck⟩ := Reach.exhausts (Ending s.arrived) State.cost
    (fun u a u' hE ha hs => (hstep u a u' hE ha hs).1)
    (fun u a u' hE ha hs => (hstep u a u' hE ha hs).2) hE
  have hE' : Ending s.arrived s' := hs'.invariant hE fun u a u' hE ha hs => (hstep u a u' hE ha hs).1
  have hhanded : (pieces s'.out).flatten = s.arrived := (hE'.of_stuck hstuck).trans hE'.same
  refine ⟨s', hs'.mono fun _ _ ha => ha.1, hhanded, hE'.live, fun hnoNul => ?_⟩
  rw [← hhanded] at hnoNul ⊢
  exact echoed_eq_of_noNul hnoNul

/-- The theorem when the program waits with the line `"b\n"` unread, and the end of the input
    comes. -/
theorem closed_input_echoed_late : ∃ s, Reachable (SignalFd.step 4096 none) .fresh s ∧
    s.ctrl = .select ∧ ∃ s', Reach (SignalFd.step 4096 none) Alone s s' ∧
      echoed s'.out = [97, 10, 98, 10] := by
  obtain ⟨s, hs, hf⟩ := reachable_of_run_map (SignalFd.step 4096 none) .fresh
    (afterInput [97, 10, 98, 10] 5 ++ [.close])
    (fun s => (s.ctrl, s.closed, s.pending .SIGTERM, s.arrived))
    (c := (.select, true, false, [97, 10, 98, 10])) (by decide +kernel)
  simp only [Prod.mk.injEq] at hf
  obtain ⟨hc, hclosed, hterm, harrived⟩ := hf
  obtain ⟨s', hs', -, -, hecho⟩ :=
    closed_input_echoed (by decide) hs hclosed hterm (by rw [hc]; rfl)
  rw [harrived] at hecho
  exact ⟨s, hs, hc, s', hs', hecho (by decide)⟩

end SignalFd
