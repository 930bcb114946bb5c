import LinuxPrograming.TransitionProofs
import LinuxPrograming.CmnBaseProofs
import LinuxPrograming.LineProofs

/-!
# Signals and lines in one loop (`5-Signal/task4.c`)

The program waits with `select` for its standard input or a signal, and echoes one line with `fgets`
each time its input is ready.  `select` looks at the kernel's buffer, `fgets` reads from that of
stdio, so lines that come in together are not all echoed before the program waits again.

* **`Inv`** — what has arrived is what was echoed, what `fgets` has, and the two buffers.
* **`echoed_iff`** — the runs in which the program never waits while it has a line to echo.
* **`echoed_of_lineByLine`** — input that comes one line at a time is among them.
-/

namespace SignalFd

open Transition CmnBase Lines

/-! ## The program -/

/-- The character `'\n'`. -/
def NEWLINE : UInt8 := 10

/-- `sizeof(buffer)`. -/
def bufferSize : Nat := 1024

/-- The signals of the mask. -/
inductive Signal where
  | SIGINT
  | SIGTERM
deriving DecidableEq

/-- Where `main` is: before the call that its control point names.  `read stdin` remembers whether
    the input was ready as well; `fgets acc` is inside the call, which has `acc` in the buffer. -/
inductive Ctrl where
  | sigprocmask
  | signalfd
  | select
  | read (stdin : Bool)
  | fgets (acc : List UInt8)
  | printf (buffer : List UInt8)
  | ended (e : Ending)
  | killed
deriving DecidableEq

/-- What the program writes: a line of the log, `"Your input: %s"` with `buffer`, or its last
    words. -/
inductive Output where
  | log (text : String)
  | yourInput (buffer : List UInt8)
  | ending
deriving DecidableEq

/-- The program and its two descriptors.  `kernel` and `closed` are the input that can be read and
    whether its other end is closed, `stdio` and `eof` the buffer and the flag of the stream `stdin`;
    `arrived` (ghost) is all the input so far. -/
structure State where
  ctrl    : Ctrl
  kernel  : List UInt8
  closed  : Bool
  stdio   : List UInt8
  eof     : Bool
  pending : Signal → Bool
  out     : List Output
  arrived : List UInt8

/-- A step of the program, whose call succeeds or not; the arrival of input, its end, or the arrival
    of a signal. -/
inductive Act where
  | main (ok : Bool)
  | input (bytes : List UInt8)
  | close
  | signal (sig : Signal)

def State.goto (s : State) (c : Ctrl) : State := { s with ctrl := c }

def State.log (s : State) (text : String) : State := { s with out := s.out ++ [.log text] }

/-- `terminate(EXIT_FAILURE, true)` after a line of the log. -/
def State.fail (s : State) (dumpcore : Option String) (text : String) : State :=
  (s.log text).goto (.ended (terminate dumpcore EXIT_FAILURE true))

/-- `stdin` can be read without blocking. -/
def State.stdinReady (s : State) : Bool := !s.kernel.isEmpty || s.closed

/-- The signal descriptor can be read without blocking. -/
def State.signalReady (s : State) : Bool := s.pending .SIGINT || s.pending .SIGTERM

/-- A round of `fgets(buffer, sizeof(buffer), stdin)`: it takes a character from the buffer of the
    stream, which it fills first, if it is empty, with a `read` of at most `bufsiz` bytes. -/
def fgets (bufsiz : Nat) (s : State) (acc : List UInt8) : Option State :=
  match s.stdio with
  | c :: rest =>
      let acc := acc ++ [c]
      some { s with stdio := rest
                    ctrl := if c = NEWLINE ∨ bufferSize ≤ acc.length + 1 then .printf acc
                      else .fgets acc }
  | [] =>
      if s.eof then some (s.goto (if acc = [] then .select else .printf acc))
      else if s.kernel ≠ [] then
        some { s with stdio := s.kernel.take bufsiz, kernel := s.kernel.drop bufsiz }
      else if s.closed then some { s with eof := true }
      else none

/-- `main`; `bufsiz` is the size of the buffer of `stdin`. -/
def mainStep (bufsiz : Nat) (dumpcore : Option String) (s : State) (ok : Bool) : Option State :=
  match s.ctrl with
  | .sigprocmask => some (if ok then s.goto .signalfd else s.fail dumpcore "sigprocmask")
  | .signalfd =>
      some (if ok then (s.log "Program is running...").goto .select
        else s.fail dumpcore "signalfd")
  | .select =>
      if ok then
        if s.signalReady then some (s.goto (.read s.stdinReady))
        else if s.stdinReady then some (s.goto (.fgets []))
        else none
      else some (s.fail dumpcore "select")
  | .read stdin =>
      if ok then
        -- the signal with the smallest number first
        if s.pending .SIGINT then
          some (({ s with pending := Function.update s.pending .SIGINT false }.log
            "SIGINT received.").goto (if stdin then .fgets [] else .select))
        else if s.pending .SIGTERM then
          let s := { s with pending := Function.update s.pending .SIGTERM false }.log
            "SIGTERM received. Exit program"
          some { s with ctrl := .ended (.exit EXIT_SUCCESS), out := s.out ++ [.ending] }
        else none
      else some (s.fail dumpcore "read")
  | .fgets acc => fgets bufsiz s acc
  | .printf buffer => some { s with out := s.out ++ [.yourInput buffer], ctrl := .select }
  | .ended _ | .killed => none

/-- The program has ended. -/
def Ctrl.isEnded : Ctrl → Bool
  | .ended _ | .killed => true
  | _ => false

def step (bufsiz : Nat) (dumpcore : Option String) (s : State) : Act → Option State
  | .main ok => mainStep bufsiz dumpcore s ok
  | .input bytes =>
      if bytes ≠ [] ∧ s.closed = false then
        some { s with kernel := s.kernel ++ bytes, arrived := s.arrived ++ bytes }
      else none
  | .close => if s.closed then none else some { s with closed := true }
  | .signal sig =>
      if s.ctrl.isEnded then none
      -- not blocked yet
      else if s.ctrl = .sigprocmask then some (s.goto .killed)
      else some { s with pending := Function.update s.pending sig true }

/-- The start of `main`. -/
def State.fresh : State where
  ctrl    := .sigprocmask
  kernel  := []
  closed  := false
  stdio   := []
  eof     := false
  pending := fun _ => false
  out     := []
  arrived := []

/-! ## Waiting with a line to echo -/

/-- The lines with which `printf` has been called. -/
def pieces (out : List Output) : List (List UInt8) :=
  out.filterMap fun o =>
    match o with
    | .yourInput buffer => some buffer
    | _ => none

/-- The input that has been echoed; `%s` ends at a NUL. -/
def echoed (out : List Output) : List UInt8 := ((pieces out).map (text 0)).flatten

/-- The program waits in `select`, with nothing to read on either descriptor. -/
def State.Waits (s : State) : Prop :=
  s.ctrl = .select ∧ s.stdinReady = false ∧ s.signalReady = false

/-- If the program waits, it has echoed every complete line. -/
def Echoed (s : State) : Prop := s.Waits → complete NEWLINE s.arrived <+: echoed s.out

/-- The step takes the program back to `select`, with nothing to read. -/
def State.goesToWait (s : State) : Act → Bool
  | .main ok =>
      !s.stdinReady &&
        match s.ctrl with
        | .signalfd => ok && !s.signalReady
        -- the signal that is read is the only one
        | .read stdin => ok && !stdin && s.pending .SIGINT && !s.pending .SIGTERM
        | .printf _ => !s.signalReady
        | _ => false
  | _ => false

/-- When the program goes back to wait, there is no complete line in the buffer of `stdin`, and no
    complete line that has arrived contains a NUL. -/
def LinesTaken (s : State) (a : Act) : Prop :=
  s.goesToWait a = true → NEWLINE ∉ s.stdio ∧ (0 : UInt8) ∉ complete NEWLINE s.arrived

instance (s : State) (a : Act) : Decidable (LinesTaken s a) := by
  unfold LinesTaken
  infer_instance

/-- What `fgets` has in its buffer. -/
def Ctrl.acc : Ctrl → List UInt8
  | .fgets acc => acc
  | .printf buffer => buffer
  | _ => []

/-- What has arrived is what was echoed, what is about to be, and what is in the two buffers; no
    call of `fgets` reaches beyond a line end. -/
structure Inv (s : State) : Prop where
  arrived : s.arrived = (pieces s.out).flatten ++ s.ctrl.acc ++ s.stdio ++ s.kernel
  pieces  : ∀ p ∈ pieces s.out, NEWLINE ∉ p.dropLast
  reading : ∀ acc, s.ctrl = .fgets acc → NEWLINE ∉ acc
  line    : ∀ buffer, s.ctrl = .printf buffer → NEWLINE ∉ buffer.dropLast
  eof     : s.eof = true → s.closed = true

theorem pieces_append (out : List Output) (o : Output) :
    pieces (out ++ [o]) = pieces out ++ pieces [o] := List.filterMap_append

@[simp] theorem pieces_log (out : List Output) (text : String) :
    pieces (out ++ [.log text]) = pieces out := by
  rw [pieces_append]
  exact List.append_nil _

theorem pieces_yourInput (out : List Output) (buffer : List UInt8) :
    pieces (out ++ [.yourInput buffer]) = pieces out ++ [buffer] :=
  pieces_append out _

/-- A step that neither reads nor echoes. -/
structure Idle (s s' : State) : Prop where
  kernel  : s'.kernel = s.kernel
  closed  : s'.closed = s.closed
  stdio   : s'.stdio = s.stdio
  eof     : s'.eof = s.eof
  pieces  : pieces s'.out = pieces s.out
  arrived : s'.arrived = s.arrived

theorem Idle.goto (s : State) (c : Ctrl) : Idle s (s.goto c) := ⟨rfl, rfl, rfl, rfl, rfl, rfl⟩

theorem Idle.log (s : State) (text : String) (c : Ctrl) (pending : Signal → Bool) :
    Idle s (({ s with pending }.log text).goto c) :=
  ⟨rfl, rfl, rfl, rfl, pieces_log .., rfl⟩

theorem Inv.idle {s s' : State} (hI : Inv s) (h : Idle s s') (hacc : s.ctrl.acc = [])
    (hacc' : s'.ctrl.acc = []) : Inv s' where
  arrived := by
    rw [h.arrived, h.pieces, h.stdio, h.kernel, hacc', ← hacc]
    exact hI.arrived
  pieces := by
    rw [h.pieces]
    exact hI.pieces
  reading := by
    intro acc hc
    rw [hc] at hacc'
    subst hacc'
    exact List.not_mem_nil
  line := by
    intro buffer hc
    rw [hc] at hacc'
    subst hacc'
    exact List.not_mem_nil
  eof := by
    rw [h.eof, h.closed]
    exact hI.eof

variable {bufsiz : Nat} {dumpcore : Option String}

/-- What a round of `fgets` does: it takes a character, and may have a line with it; it finds the
    end of the input, with something read or not; or it fills the buffer of the stream. -/
inductive Round (bufsiz : Nat) (s : State) (acc : List UInt8) : State → Prop where
  | line (c : UInt8) (rest : List UInt8) : s.stdio = c :: rest →
      c = NEWLINE ∨ bufferSize ≤ (acc ++ [c]).length + 1 →
      Round bufsiz s acc { s with stdio := rest, ctrl := .printf (acc ++ [c]) }
  | character (c : UInt8) (rest : List UInt8) : s.stdio = c :: rest → c ≠ NEWLINE →
      Round bufsiz s acc { s with stdio := rest, ctrl := .fgets (acc ++ [c]) }
  | nothing : s.stdio = [] → s.eof = true → acc = [] → Round bufsiz s acc (s.goto .select)
  | unfinished : s.stdio = [] → s.eof = true → acc ≠ [] →
      Round bufsiz s acc (s.goto (.printf acc))
  | fill : s.stdio = [] →
      Round bufsiz s acc { s with stdio := s.kernel.take bufsiz, kernel := s.kernel.drop bufsiz }
  | eof : s.stdio = [] → s.closed = true → Round bufsiz s acc { s with eof := true }

theorem round_of_fgets {s s' : State} {acc : List UInt8} (h : fgets bufsiz s acc = some s') :
    Round bufsiz s acc s' := by
  unfold fgets at h
  split at h
  next c rest hio =>
    cases h
    by_cases hend : c = NEWLINE ∨ bufferSize ≤ (acc ++ [c]).length + 1
    · rw [if_pos hend]
      exact .line c rest hio hend
    · rw [if_neg hend]
      exact .character c rest hio fun hc => hend (Or.inl hc)
  next hio =>
    split at h
    case isTrue heof =>
      cases h
      by_cases hnil : acc = []
      · rw [if_pos hnil]
        exact .nothing hio heof hnil
      · rw [if_neg hnil]
        exact .unfinished hio heof hnil
    case isFalse =>
      split at h
      · cases h
        exact .fill hio
      · obtain ⟨hclosed, heq⟩ := Option.ite_none_right_eq_some.mp h
        cases heq
        exact .eof hio hclosed

/-- A round of `fgets` keeps the invariant, and goes back to `select` only at the end of the
    input. -/
theorem Inv.fgets {s s' : State} {acc : List UInt8} (hI : Inv s) (hc : s.ctrl = .fgets acc)
    (h : fgets bufsiz s acc = some s') : Inv s' ∧ ¬ s'.Waits := by
  have harrived := hI.arrived
  have hacc := hI.reading acc hc
  rw [hc, Ctrl.acc] at harrived
  cases round_of_fgets h with
  | line c rest hio _ =>
      refine ⟨⟨?_, hI.pieces, fun b hb => (by cases hb), ?_, hI.eof⟩, fun hw => (by cases hw.1)⟩
      · rw [harrived, hio]
        simp [Ctrl.acc]
      · intro buffer hb
        cases hb
        rw [List.dropLast_concat]
        exact hacc
  | character c rest hio hne =>
      refine ⟨⟨?_, hI.pieces, ?_, fun b hb => (by cases hb), hI.eof⟩, fun hw => (by cases hw.1)⟩
      · rw [harrived, hio]
        simp [Ctrl.acc]
      · intro b hb
        cases hb
        rw [List.mem_append, List.mem_singleton]
        rintro (hm | rfl)
        · exact hacc hm
        · exact hne rfl
  | nothing _ heof hnil =>
      refine ⟨hI.idle (Idle.goto s _) (by rw [hc]; exact hnil) rfl, ?_⟩
      -- `select` finds the end of the input again
      rintro ⟨-, hready, -⟩
      have hclosed : s.stdinReady = true := by
        rw [State.stdinReady, hI.eof heof, Bool.or_true]
      cases hclosed.symm.trans hready
  | unfinished _ _ _ =>
      refine ⟨⟨harrived, hI.pieces, fun b hb => (by cases hb), ?_, hI.eof⟩,
        fun hw => (by cases hw.1)⟩
      intro buffer hb
      cases hb
      exact fun hm => hacc (List.dropLast_subset acc hm)
  | fill hio =>
      refine ⟨⟨?_, hI.pieces, hI.reading, hI.line, hI.eof⟩, fun hw => (by cases hc.symm.trans hw.1)⟩
      show s.arrived = (SignalFd.pieces s.out).flatten ++ s.ctrl.acc ++ s.kernel.take bufsiz
        ++ s.kernel.drop bufsiz
      rw [hc, harrived, hio, List.append_assoc _ (List.take _ _), List.take_append_drop,
        List.append_nil]
      rfl
  | eof _ hclosed =>
      exact ⟨⟨hI.arrived, hI.pieces, hI.reading, hI.line, fun _ => hclosed⟩,
        fun hw => (by cases hc.symm.trans hw.1)⟩

/-- Where a step leaves the program: it waits after the steps that `goesToWait` names, and after no
    others, and these steps read nothing. -/
structure Moves (s : State) (a : Act) (s' : State) : Prop where
  waits : s'.Waits ↔ s.goesToWait a = true
  same  : s'.Waits → s'.stdio = s.stdio ∧ s'.arrived = s.arrived

theorem Moves.of_not_waits {s s' : State} {a : Act} (hw : ¬ s'.Waits)
    (hg : s.goesToWait a = false) : Moves s a s' where
  waits := by simp [hw, hg]
  same := fun h => absurd h hw

/-- A step of `main` that neither reads nor echoes. -/
structure Quiet (s : State) (a : Act) (s' : State) : Prop extends Idle s s' where
  before : s.ctrl.acc = []
  after  : s'.ctrl.acc = []
  moves  : Moves s a s'

theorem Quiet.elsewhere {s s' : State} {a : Act} (h : Idle s s') (hbefore : s.ctrl.acc = [])
    (hafter : s'.ctrl.acc = []) (hselect : s'.ctrl ≠ .select) (hg : s.goesToWait a = false) :
    Quiet s a s' :=
  ⟨h, hbefore, hafter, .of_not_waits (fun hw => hselect hw.1) hg⟩

theorem Quiet.fail {s : State} (text : String) (hbefore : s.ctrl.acc = [])
    (hg : s.goesToWait (.main false) = false) :
    Quiet s (.main false) (s.fail dumpcore text) :=
  .elsewhere (Idle.log s text _ _) hbefore rfl (by simp [State.fail, State.goto]) hg

/-- **What a step of `main` does**: it neither reads nor echoes, it is a round of `fgets`, or it
    echoes a line. -/
theorem mainStep_cases {s s' : State} {ok : Bool} (h : mainStep bufsiz dumpcore s ok = some s') :
    Quiet s (.main ok) s' ∨
    (∃ acc, s.ctrl = .fgets acc ∧ fgets bufsiz s acc = some s') ∨
    (∃ buffer, s.ctrl = .printf buffer ∧
      s' = { s with out := s.out ++ [.yourInput buffer], ctrl := .select }) := by
  unfold mainStep at h
  cases hc : s.ctrl with
  | sigprocmask =>
      have hacc : s.ctrl.acc = [] := by rw [hc]; rfl
      have hg : s.goesToWait (.main ok) = false := by simp [State.goesToWait, hc]
      simp only [hc, Option.some.injEq] at h
      subst h
      cases ok with
      | true => exact .inl (.elsewhere (Idle.goto s _) hacc rfl (by simp [State.goto]) hg)
      | false => exact .inl (.fail _ hacc hg)
  | signalfd =>
      have hacc : s.ctrl.acc = [] := by rw [hc]; rfl
      simp only [hc, Option.some.injEq] at h
      subst h
      cases ok with
      | true =>
          refine .inl ⟨Idle.log s _ _ _, hacc, rfl, ⟨?_, fun _ => ⟨rfl, rfl⟩⟩⟩
          show _ = _ ∧ s.stdinReady = false ∧ s.signalReady = false ↔ _
          simp [State.goto, State.goesToWait, hc]
      | false => exact .inl (.fail _ hacc (by simp [State.goesToWait, hc]))
  | select =>
      have hacc : s.ctrl.acc = [] := by rw [hc]; rfl
      have hg : s.goesToWait (.main ok) = false := by simp [State.goesToWait, hc]
      simp only [hc] at h
      cases ok with
      | true =>
          rw [if_pos rfl] at h
          split at h
          · cases h
            exact .inl (.elsewhere (Idle.goto s _) hacc rfl (by simp [State.goto]) hg)
          · obtain ⟨-, heq⟩ := Option.ite_none_right_eq_some.mp h
            cases heq
            exact .inl (.elsewhere (Idle.goto s _) hacc rfl (by simp [State.goto]) hg)
      | false =>
          cases h
          exact .inl (.fail _ hacc hg)
  | read stdin =>
      have hacc : s.ctrl.acc = [] := by rw [hc]; rfl
      simp only [hc] at h
      cases ok with
      | true =>
          rw [if_pos rfl] at h
          split at h
          case isTrue hint =>
            cases h
            cases stdin with
            | true =>
                exact .inl (.elsewhere (Idle.log s _ _ _) hacc rfl (by simp [State.goto])
                  (by simp [State.goesToWait, hc]))
            | false =>
                -- the other signal may still be pending
                refine .inl ⟨Idle.log s _ _ _, hacc, rfl, ⟨?_, fun _ => ⟨rfl, rfl⟩⟩⟩
                show _ = _ ∧ s.stdinReady = false ∧ (false || s.pending .SIGTERM) = false ↔ _
                simp [State.goto, State.goesToWait, hc, hint]
          case isFalse hint =>
            obtain ⟨-, heq⟩ := Option.ite_none_right_eq_some.mp h
            cases heq
            refine .inl (.elsewhere ⟨rfl, rfl, rfl, rfl, ?_, rfl⟩ hacc rfl (by simp)
              (by simp [State.goesToWait, hc, hint]))
            show pieces ((s.out ++ [_]) ++ [.ending]) = _
            rw [pieces_append, pieces_log]
            exact List.append_nil _
      | false =>
          cases h
          exact .inl (.fail _ hacc (by simp [State.goesToWait, hc]))
  | fgets acc =>
      simp only [hc] at h
      exact .inr (.inl ⟨acc, rfl, h⟩)
  | printf buffer =>
      simp only [hc, Option.some.injEq] at h
      exact .inr (.inr ⟨buffer, rfl, h.symm⟩)
  | ended e => simp [hc] at h
  | killed => simp [hc] at h

/-- **One step of `main`.** -/
theorem Inv.mainStep {s s' : State} {ok : Bool} (hI : Inv s)
    (h : mainStep bufsiz dumpcore s ok = some s') : Inv s' ∧ Moves s (.main ok) s' := by
  rcases mainStep_cases h with hquiet | ⟨acc, hc, hround⟩ | ⟨buffer, hc, rfl⟩
  · exact ⟨hI.idle hquiet.toIdle hquiet.before hquiet.after, hquiet.moves⟩
  · obtain ⟨hI', hw⟩ := hI.fgets hc hround
    exact ⟨hI', .of_not_waits hw (by simp [State.goesToWait, hc])⟩
  · have harrived := hI.arrived
    rw [hc, Ctrl.acc] at harrived
    refine ⟨⟨?_, ?_, fun b hb => (by cases hb), fun b hb => (by cases hb), hI.eof⟩,
      ⟨?_, fun _ => ⟨rfl, rfl⟩⟩⟩
    · show s.arrived = (SignalFd.pieces (s.out ++ [_])).flatten ++ [] ++ s.stdio ++ s.kernel
      rw [harrived, pieces_yourInput, List.flatten_concat, List.append_nil]
    · intro p hp
      have hp' : p ∈ SignalFd.pieces (s.out ++ [.yourInput buffer]) := hp
      rw [pieces_yourInput] at hp'
      rcases List.mem_append.mp hp' with hp | hp
      · exact hI.pieces p hp
      · rw [List.mem_singleton.mp hp]
        exact hI.line buffer hc
    · show _ = _ ∧ s.stdinReady = false ∧ s.signalReady = false ↔ _
      simp [State.goesToWait, hc]

/-- **One step** of the program or of its surroundings. -/
theorem Inv.step {s s' : State} {a : Act} (hI : Inv s)
    (h : step bufsiz dumpcore s a = some s') : Inv s' ∧ Moves s a s' := by
  cases a with
  | main ok => exact hI.mainStep h
  | input bytes =>
      obtain ⟨⟨hne, -⟩, heq⟩ := Option.ite_none_right_eq_some.mp h
      cases heq
      have hready : ¬ (!(s.kernel ++ bytes).isEmpty || s.closed) = false := by simp [hne]
      refine ⟨⟨?_, hI.pieces, hI.reading, hI.line, hI.eof⟩,
        .of_not_waits (fun hw => hready hw.2.1) rfl⟩
      show s.arrived ++ bytes = _ ++ (s.kernel ++ bytes)
      rw [hI.arrived, List.append_assoc _ s.kernel]
  | close =>
      cases hclosed : s.closed with
      | true =>
          rw [SignalFd.step, hclosed] at h
          cases h
      | false =>
          rw [SignalFd.step, hclosed] at h
          cases h
          have hready : ¬ (!s.kernel.isEmpty || true) = false := by simp
          exact ⟨⟨hI.arrived, hI.pieces, hI.reading, hI.line, fun _ => rfl⟩,
            .of_not_waits (fun hw => hready hw.2.1) rfl⟩
  | signal sig =>
      rw [SignalFd.step] at h
      split at h
      · cases h
      · split at h
        case isTrue hc =>
          cases h
          exact ⟨hI.idle (Idle.goto s _) (by rw [hc]; rfl) rfl,
            .of_not_waits (fun hw => (by cases hw.1)) rfl⟩
        case isFalse hc =>
          cases h
          have hready : ¬ State.signalReady
              { s with pending := Function.update s.pending sig true } = false := by
            cases sig with
            | SIGINT => simp [State.signalReady]
            | SIGTERM => simp [State.signalReady]
          exact ⟨⟨hI.arrived, hI.pieces, hI.reading, hI.line, hI.eof⟩,
            .of_not_waits (fun hw => hready hw.2.2) rfl⟩

theorem Inv.fresh : Inv State.fresh where
  arrived := rfl
  pieces := fun p hp => (by cases hp)
  reading := fun acc hc => (by cases hc)
  line := fun buffer hc => (by cases hc)
  eof := fun h => (by cases h)

/-- Whether a program that waits has echoed every complete line. -/
theorem Inv.complete_iff {s : State} (hI : Inv s) (hw : s.Waits) :
    complete NEWLINE s.arrived <+: echoed s.out ↔
      NEWLINE ∉ s.stdio ∧ (0 : UInt8) ∉ complete NEWLINE s.arrived := by
  have harrived := hI.arrived
  obtain ⟨hc, hready, -⟩ := hw
  rw [State.stdinReady, Bool.or_eq_false_iff, Bool.not_eq_false', List.isEmpty_iff] at hready
  have hacc : s.ctrl.acc = [] := by rw [hc]; rfl
  rw [hacc, hready.1, List.append_nil, List.append_nil] at harrived
  rw [harrived]
  exact complete_prefix_shown_iff hI.pieces s.stdio

/-- The invariant, with every complete line echoed when the program waits. -/
structure Clean (s : State) : Prop where
  inv   : Inv s
  taken : s.Waits → NEWLINE ∉ s.stdio ∧ (0 : UInt8) ∉ complete NEWLINE s.arrived

/-- **WHEN EVERY COMPLETE LINE HAS BEEN ECHOED.**  For any order of the steps, the program never
    waits with a complete line unechoed exactly if, whenever it goes back to wait, there is no
    complete line in the buffer of `stdin` and no complete line has a NUL. -/
theorem echoed_iff (bufsiz : Nat) (dumpcore : Option String) (acts : List Act) (s : State)
    (h : run (SignalFd.step bufsiz dumpcore) .fresh acts = some s) :
    Throughout (SignalFd.step bufsiz dumpcore) Echoed .fresh acts ↔
      runWhen (SignalFd.step bufsiz dumpcore) LinesTaken .fresh acts = some s := by
  refine throughout_iff_runWhen (J := Clean) ?_ ?_ ?_ ⟨.fresh, fun hw => (by cases hw.1)⟩ h
  · intro u hu hw
    exact (hu.inv.complete_iff hw).mpr (hu.taken hw)
  · intro u a u' hu hok hs
    obtain ⟨hI', hm⟩ := hu.inv.step hs
    refine ⟨hI', ?_⟩
    intro hw
    obtain ⟨hstdio, harrived⟩ := hm.same hw
    rw [hstdio, harrived]
    exact hok (hm.waits.mp hw)
  · intro u a u' hu hbad hs hechoed
    obtain ⟨hI', hm⟩ := hu.inv.step hs
    obtain ⟨hgoes, hleft⟩ := Classical.not_imp.mp hbad
    have hw := hm.waits.mpr hgoes
    obtain ⟨hstdio, harrived⟩ := hm.same hw
    rw [← hstdio, ← harrived] at hleft
    exact hleft ((hI'.complete_iff hw).mp (hechoed hw))

/-- `main` until it waits, and `n` steps after the input. -/
def afterInput (bytes : List UInt8) (n : Nat) : List Act :=
  List.replicate 2 (.main true) ++ [.input bytes] ++ List.replicate n (.main true)

/-- `"a"` arrives, and `"\n"` while `fgets` waits for the end of the line. -/
def oneLine : List Act := afterInput [97] 3 ++ [.input [10]] ++ List.replicate 3 (.main true)

theorem echoed_one_line : Throughout (SignalFd.step 4096 none) Echoed .fresh oneLine := by
  obtain ⟨s, hs, -⟩ := Option.map_eq_some_iff.mp
    (show (runWhen (SignalFd.step 4096 none) LinesTaken .fresh oneLine).map (fun s => echoed s.out)
      = some [97, 10] by decide +kernel)
  exact (echoed_iff 4096 none oneLine s (run_of_runWhen hs)).mpr hs

/-- `"a\nb\n"` arrives at once: the program waits, and has echoed `"a\n"`. -/
theorem second_line_left :
    ∃ s, Reachable (SignalFd.step 4096 none) .fresh s ∧ s.Waits ∧
      complete NEWLINE s.arrived = [97, 10, 98, 10] ∧ echoed s.out = [97, 10] := by
  obtain ⟨s, hs, hf⟩ := reachable_of_run_map (SignalFd.step 4096 none) .fresh
    (afterInput [97, 10, 98, 10] 5)
    (fun s => (s.ctrl, s.stdinReady, s.signalReady, complete NEWLINE s.arrived, echoed s.out))
    (c := (.select, false, false, [97, 10, 98, 10], [97, 10])) (by decide +kernel)
  have hf' : s.Waits ∧ complete NEWLINE s.arrived = [97, 10, 98, 10] ∧ echoed s.out = [97, 10] := by
    simpa [State.Waits, and_assoc] using hf
  exact ⟨s, hs, hf'⟩

/-! ## Input that comes line by line -/

/-- What a call of `fgets` has taken so far. -/
def Ctrl.reading : Ctrl → List UInt8
  | .fgets acc => acc
  | _ => []

/-- The input of which `fgets` has not yet made a line. -/
def State.unread (s : State) : List UInt8 := s.ctrl.reading ++ s.stdio ++ s.kernel

/-- With what is still unread, the input that arrives is no more than one line, and this fits into
    the buffer and has no NUL. -/
def LineByLine (s : State) : Act → Prop
  | .input bytes => NEWLINE ∉ (s.unread ++ bytes).dropLast ∧
      (s.unread ++ bytes).length < bufferSize ∧ (0 : UInt8) ∉ bytes
  | _ => True

/-- At most one line is unread, and outside `fgets` the buffer of `stdin` is empty. -/
structure OneLine (s : State) : Prop where
  one   : NEWLINE ∉ s.unread.dropLast
  fits  : s.unread.length < bufferSize
  noNul : (0 : UInt8) ∉ s.arrived
  taken : (∀ acc, s.ctrl ≠ .fgets acc) → s.stdio = []

/-- A step of `main` outside `fgets` reads nothing. -/
theorem mainStep_same {s s' : State} {ok : Bool} (hc : ∀ acc, s.ctrl ≠ .fgets acc)
    (h : SignalFd.mainStep bufsiz dumpcore s ok = some s') :
    s'.ctrl.reading = [] ∧ s'.stdio = s.stdio ∧ s'.kernel = s.kernel ∧ s'.arrived = s.arrived := by
  rcases mainStep_cases h with hquiet | ⟨acc, hacc, -⟩ | ⟨buffer, -, rfl⟩
  · refine ⟨?_, hquiet.stdio, hquiet.kernel, hquiet.arrived⟩
    have hafter := hquiet.after
    cases hs : s'.ctrl with
    | fgets acc => rw [hs] at hafter; exact hafter
    | _ => rfl
  · exact absurd hacc (hc acc)
  · exact ⟨rfl, rfl, rfl, rfl⟩

/-- Nothing stands behind a line end among at most one line. -/
theorem not_mem_dropLast_of_append {l m : List UInt8} (h : NEWLINE ∉ (l ++ m).dropLast) :
    NEWLINE ∉ m.dropLast ∧ (NEWLINE ∈ l → m = []) := by
  by_cases hm : m = []
  · subst hm
    exact ⟨List.not_mem_nil, fun _ => rfl⟩
  · rw [List.dropLast_append_of_ne_nil hm, List.mem_append, not_or] at h
    exact ⟨h.2, fun hl => absurd hl h.1⟩

/-- The input that is unread stays the same. -/
theorem OneLine.same {s s' : State} (hL : OneLine s) (hunread : s'.unread = s.unread)
    (harrived : s'.arrived = s.arrived) (htaken : (∀ acc, s'.ctrl ≠ .fgets acc) → s'.stdio = []) :
    OneLine s' where
  one := hunread ▸ hL.one
  fits := hunread ▸ hL.fits
  noNul := harrived ▸ hL.noNul
  taken := htaken

/-- A round of `fgets`: when it has a line, nothing else is unread. -/
theorem OneLine.fgets {s s' : State} {acc : List UInt8} (hL : OneLine s) (hc : s.ctrl = .fgets acc)
    (h : SignalFd.fgets bufsiz s acc = some s') : OneLine s' := by
  have hunread : s.unread = acc ++ s.stdio ++ s.kernel := by rw [State.unread, hc, Ctrl.reading]
  have hone := hL.one
  have hfits := hL.fits
  rw [hunread] at hone hfits
  cases round_of_fgets h with
  | line c rest hio hend =>
      have hmove : acc ++ s.stdio ++ s.kernel = (acc ++ [c]) ++ (rest ++ s.kernel) := by
        rw [hio]
        simp
      rw [hmove] at hone hfits
      have hrest : rest ++ s.kernel = [] := by
        rcases hend with rfl | hfull
        · exact (not_mem_dropLast_of_append hone).2 (by simp)
        · rw [List.length_append] at hfits
          exact List.eq_nil_of_length_eq_zero (by omega)
      refine ⟨?_, ?_, hL.noNul, fun _ => (List.append_eq_nil_iff.mp hrest).1⟩
      · show NEWLINE ∉ (rest ++ s.kernel).dropLast
        rw [hrest]
        exact List.not_mem_nil
      · show (rest ++ s.kernel).length < bufferSize
        rw [hrest]
        decide
  | character c rest hio _ =>
      refine hL.same ?_ rfl fun hn => absurd rfl (hn _)
      rw [hunread, hio]
      simp [State.unread, Ctrl.reading]
  | nothing hio _ hnil =>
      refine hL.same ?_ rfl fun _ => hio
      rw [hunread, hnil]
      rfl
  | unfinished hio _ _ =>
      rw [hio, List.append_nil] at hone hfits
      refine ⟨?_, ?_, hL.noNul, fun _ => hio⟩
      · show NEWLINE ∉ (s.stdio ++ s.kernel).dropLast
        rw [hio]
        exact (not_mem_dropLast_of_append hone).1
      · show (s.stdio ++ s.kernel).length < bufferSize
        rw [hio]
        rw [List.length_append] at hfits
        exact Nat.lt_of_le_of_lt (Nat.le_add_left _ _) hfits
  | fill hio =>
      refine hL.same ?_ rfl fun hn => absurd hc (hn acc)
      show s.ctrl.reading ++ s.kernel.take bufsiz ++ s.kernel.drop bufsiz = s.unread
      rw [State.unread, hio, List.append_assoc, List.take_append_drop, List.append_nil]
  | eof _ _ => exact hL.same rfl rfl fun hn => absurd hc (hn acc)

theorem OneLine.step {s s' : State} {a : Act} (hL : OneLine s) (hok : LineByLine s a)
    (h : SignalFd.step bufsiz dumpcore s a = some s') : OneLine s' := by
  cases a with
  | main ok =>
      by_cases hc : ∃ acc, s.ctrl = .fgets acc
      · obtain ⟨acc, hc⟩ := hc
        rw [SignalFd.step, SignalFd.mainStep, hc] at h
        exact hL.fgets hc h
      · have hc : ∀ acc, s.ctrl ≠ .fgets acc := fun acc hacc => hc ⟨acc, hacc⟩
        obtain ⟨hreading, hstdio, hkernel, harrived⟩ := mainStep_same hc h
        have hbefore : s.ctrl.reading = [] := by
          cases hs : s.ctrl with
          | fgets acc => exact absurd hs (hc acc)
          | _ => rfl
        refine hL.same ?_ harrived fun _ => hstdio.trans (hL.taken hc)
        rw [State.unread, State.unread, hreading, hbefore, hstdio, hkernel]
  | input bytes =>
      obtain ⟨-, heq⟩ := Option.ite_none_right_eq_some.mp h
      cases heq
      obtain ⟨hone, hfits, hnul⟩ := hok
      rw [State.unread, List.append_assoc] at hone hfits
      refine ⟨hone, hfits, ?_, hL.taken⟩
      show (0 : UInt8) ∉ s.arrived ++ bytes
      rw [List.mem_append, not_or]
      exact ⟨hL.noNul, hnul⟩
  | close =>
      rw [SignalFd.step] at h
      split at h
      · cases h
      · cases h
        exact hL.same rfl rfl hL.taken
  | signal sig =>
      rw [SignalFd.step] at h
      split at h
      · cases h
      · split at h
        case isTrue hc =>
          cases h
          refine hL.same ?_ rfl fun _ => hL.taken fun acc hacc => ?_
          · rw [State.unread, State.unread, hc]
            rfl
          · rw [hc] at hacc
            cases hacc
        case isFalse =>
          cases h
          exact hL.same rfl rfl hL.taken

/-- **Lines that come one by one are all echoed.**  When each line arrives after the one before it
    has been taken, the program never waits with a complete line unechoed. -/
theorem echoed_of_lineByLine {s : State}
    (h : Reach (SignalFd.step bufsiz dumpcore) LineByLine .fresh s) : Echoed s := by
  have hI : Inv s := h.invariant .fresh fun _ _ _ hI _ hs => (hI.step hs).1
  have hL : OneLine s := by
    refine h.invariant ⟨List.not_mem_nil, by decide, List.not_mem_nil, fun _ => rfl⟩ ?_
    intro u a u' hL hok hs
    exact hL.step hok hs
  intro hw
  have hstdio : s.stdio = [] := by
    refine hL.taken ?_
    intro acc hacc
    exact absurd (hacc.symm.trans hw.1) (by simp)
  refine (hI.complete_iff hw).mpr ⟨?_, ?_⟩
  · rw [hstdio]
    exact List.not_mem_nil
  · exact fun hnul => hL.noNul (complete_subset s.arrived hnul)

end SignalFd
