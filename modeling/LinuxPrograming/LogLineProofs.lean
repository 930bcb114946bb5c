import LinuxPrograming.LogProofs
import LinuxPrograming.BlockProofs

/-!
# The lines of the log (`CmnBase/log.c`, `CmnBase/error_handler.c`)

A line is written in pieces, one `fprintf` after the other: the header, for an error the name of
`errno`, the message and the end of the line.  Each piece is written at once, but when threads log
at a time, pieces of different lines mix, unless the program has installed a lock.

The callbacks are those of `log.c` itself: `stdout_callback` for `stderr` and `file_callback` for
the files added by `log_add_fp`.

* **`log_lines_whole`** — with a lock, each stream holds whole lines, and no more than a part of one
  behind them; the lines of a thread stand in the order of its calls.
* **`log_lines_complete`** — every run can be completed, and then each stream has all lines.
-/

namespace Log

open Transition

/-! ## The program -/

def level_strings : Level → String
  | .LOG_TRACE => "TRACE"
  | .LOG_DEBUG => "DEBUG"
  | .LOG_INFO  => "INFO"
  | .LOG_WARN  => "WARN"
  | .LOG_ERROR => "ERROR"
  | .LOG_FATAL => "FATAL"

def level_colors : Level → String
  | .LOG_TRACE => "\x1b[94m"
  | .LOG_DEBUG => "\x1b[36m"
  | .LOG_INFO  => "\x1b[32m"
  | .LOG_WARN  => "\x1b[33m"
  | .LOG_ERROR => "\x1b[31m"
  | .LOG_FATAL => "\x1b[35m"

def MAX_ENAME : Int := 132

def ename : List String := [
  "", "EPERM", "ENOENT", "ESRCH", "EINTR", "EIO", "ENXIO", "E2BIG", "ENOEXEC", "EBADF", "ECHILD",
  "EAGAIN/EWOULDBLOCK", "ENOMEM", "EACCES", "EFAULT", "ENOTBLK", "EBUSY", "EEXIST", "EXDEV",
  "ENODEV", "ENOTDIR", "EISDIR", "EINVAL", "ENFILE", "EMFILE", "ENOTTY", "ETXTBSY", "EFBIG",
  "ENOSPC", "ESPIPE", "EROFS", "EMLINK", "EPIPE", "EDOM", "ERANGE", "EDEADLK/EDEADLOCK",
  "ENAMETOOLONG", "ENOLCK", "ENOSYS", "ENOTEMPTY", "ELOOP", "", "ENOMSG", "EIDRM", "ECHRNG",
  "EL2NSYNC", "EL3HLT", "EL3RST", "ELNRNG", "EUNATCH", "ENOCSI", "EL2HLT", "EBADE", "EBADR",
  "EXFULL", "ENOANO", "EBADRQC", "EBADSLT", "", "EBFONT", "ENOSTR", "ENODATA", "ETIME", "ENOSR",
  "ENONET", "ENOPKG", "EREMOTE", "ENOLINK", "EADV", "ESRMNT", "ECOMM", "EPROTO", "EMULTIHOP",
  "EDOTDOT", "EBADMSG", "EOVERFLOW", "ENOTUNIQ", "EBADFD", "EREMCHG", "ELIBACC", "ELIBBAD",
  "ELIBSCN", "ELIBMAX", "ELIBEXEC", "EILSEQ", "ERESTART", "ESTRPIPE", "EUSERS", "ENOTSOCK",
  "EDESTADDRREQ", "EMSGSIZE", "EPROTOTYPE", "ENOPROTOOPT", "EPROTONOSUPPORT", "ESOCKTNOSUPPORT",
  "EOPNOTSUPP/ENOTSUP", "EPFNOSUPPORT", "EAFNOSUPPORT", "EADDRINUSE", "EADDRNOTAVAIL",
  "ENETDOWN", "ENETUNREACH", "ENETRESET", "ECONNABORTED", "ECONNRESET", "ENOBUFS", "EISCONN",
  "ENOTCONN", "ESHUTDOWN", "ETOOMANYREFS", "ETIMEDOUT", "ECONNREFUSED", "EHOSTDOWN",
  "EHOSTUNREACH", "EALREADY", "EINPROGRESS", "ESTALE", "EUCLEAN", "ENOTNAM", "ENAVAIL", "EISNAM",
  "EREMOTEIO", "EDQUOT", "ENOMEDIUM", "EMEDIUMTYPE", "ECANCELED", "ENOKEY", "EKEYEXPIRED",
  "EKEYREVOKED", "EKEYREJECTED", "EOWNERDEAD", "ENOTRECOVERABLE", "ERFKILL"]

/-- The index that the callbacks use is inside the table. -/
theorem ename_bound {err : Int} (h : 0 < err ∧ err ≤ MAX_ENAME) : err.toNat < ename.length := by
  have hlength : ename.length = 133 := rfl
  unfold MAX_ENAME at h
  omega

/-- The functions of the C library that a callback uses, with the error that `errno` holds. -/
structure Env (τ : Type) where
  strftime : Nat → String → τ → String
  strerror : Int → String
  errno    : Int

variable {F τ κ : Type}

/-- What is printed for `errno`. -/
def Env.errnoText (env : Env τ) : String :=
  " [errno " ++
    (if h : 0 < env.errno ∧ env.errno ≤ MAX_ENAME
      then ename.get ⟨env.errno.toNat, ename_bound h⟩ else "?UNKNOWN?")
    ++ ": " ++ env.strerror env.errno ++ "] "

/-- The conversion `%-5s`. -/
def leftJustified (s : String) : String := s.pushn ' ' (5 - s.length)

/-- `buf[strftime(buf, sizeof(buf), format, ev->time)] = '\0'`; `size` is that of `buf`. -/
def timeText (size : Nat) (format : String) (env : Env τ) (ev : Event F τ) : String :=
  ev.time.elim "" (env.strftime size format)

/-- The calls of `fprintf` and `vfprintf` in a callback, in their order; the first one writes
    `header`. -/
def writeEvent (header : String) (env : Env τ) (ev : Event F τ) : List String :=
  [header]
    ++ (if ev.print_errno = true ∧ Level.LOG_ERROR.toInt ≤ ev.level.toInt
        then [env.errnoText] else [])
    ++ [ev.message, "\n"]

/-- With `LOG_USE_COLOR`, which the Makefile defines. -/
def stdout_callback (env : Env τ) (ev : Event F τ) : List String :=
  writeEvent (timeText 16 "%H:%M:%S" env ev ++ " " ++ level_colors ev.level
    ++ leftJustified (level_strings ev.level) ++ "\x1b[0m \x1b[90m" ++ ev.file ++ ":"
    ++ toString ev.line ++ ":\x1b[0m ") env ev

def file_callback (env : Env τ) (ev : Event F τ) : List String :=
  writeEvent (timeText 64 "%Y-%m-%d %H:%M:%S" env ev ++ " "
    ++ leftJustified (level_strings ev.level) ++ " " ++ ev.file ++ ":" ++ toString ev.line ++ ": ")
    env ev

/-- `log_add_fp`; the only function in the table is `file_callback`. -/
def log_add_fp (L : Logger Unit F κ) (fp : F) (level : Int) : Logger Unit F κ × Int :=
  log_add_callback L (some ()) (some fp) level

/-- `file_callback` does not configure the logger. -/
def noReaction : Unit → Event F τ → List (Api Unit F κ) := fun _ _ => []

/-- A call of `log_log`: its arguments, the times that it reads, and its surroundings. -/
structure Call (τ : Type) where
  args  : Args
  start : τ
  now   : Nat → τ
  env   : Env τ

/-- The line that an event is written as, with the stream that it goes to. -/
def Output.line (env : Env τ) : Output Unit F τ κ → Option (F × List String)
  | .lock _ _ _ => none
  | .stderr ev   => ev.udata.map fun f => (f, stdout_callback env ev)
  | .call _ ev   => ev.udata.map fun f => (f, file_callback env ev)

/-- What a line writes: its pieces, all to one stream. -/
def pieces (l : F × List String) : List (F × String) := l.2.map fun p => (l.1, p)

/-- What a thread does for an output: it takes the lock, gives it back, or writes. -/
def Output.ops (env : Env τ) (out : Output Unit F τ κ) : List (Block.Op (F × String)) :=
  match out with
  | .lock _ take _ => [if take then .lock else .unlock]
  | _              => ((out.line env).toList.flatMap pieces).map .write

variable (stderr : F) (L : Logger Unit F κ)

def Call.output (c : Call τ) : List (Output Unit F τ κ) :=
  (log_log noReaction stderr c.start c.now L c.args).2

def Call.ops (c : Call τ) : List (Block.Op (F × String)) :=
  (c.output stderr L).flatMap (Output.ops c.env)

/-- Threads that log: thread `i` makes the calls `calls i`. -/
def logging {ι : Type} (calls : ι → List (Call τ)) : Block.State ι (F × String) :=
  ⟨fun i => (calls i).flatMap (Call.ops stderr L), none, []⟩

/-! ## A call is a block -/

/-- The lines of a call, each with its stream. -/
def Call.lines (c : Call τ) : List (F × List String) :=
  (c.output stderr L).filterMap (Output.line c.env)

/-- The pieces of a call. -/
def Call.body (c : Call τ) : List (F × String) := (c.lines stderr L).flatMap pieces

/-- The lines that a call has for a stream: one on `stderr`, if the event is shown, and one for each
    registration of the stream that wants the level. -/
def lineCount [DecidableEq F] (sinks : List (Sink Unit F)) (f : F) (c : Call τ) : Nat :=
  (if L.Shows c.args.level ∧ f = stderr then 1 else 0)
    + (wanting c.args.level sinks).countP fun d => d.udata = some f

/-- The loop leaves the logger as it is. -/
theorem dispatch_noReaction (now : Nat → τ) (n i : Nat) (L : Logger Unit F κ) (ev : Event F τ) :
    (dispatch noReaction now n i L ev).1 = L := by
  induction n generalizing i ev with
  | zero => rfl
  | succ n ih =>
      rw [dispatch]
      cases hfn : (L.callbacks i).fn with
      | none => rfl
      | some fn =>
          by_cases hlevel : (L.callbacks i).level ≤ ev.level.toInt
          · simp only [hlevel, if_true]
            exact ih ..
          · simp only [hlevel, if_false]
            exact ih ..

variable {stderr L} {asked : List (Sink Unit F)}

/-- What a call does between the calls of the lock function. -/
theorem Call.output_eq (stderr : F) (hL : Represents L asked) (c : Call τ) :
    ∃ t outs, c.output stderr L = lockCall L true ++ outs ++ lockCall L false ∧
      outs = (if L.Shows c.args.level
          then [.stderr (c.args.event.handed c.start (some stderr))] else [])
        ++ (wanting c.args.level (asked.take MAX_CALLBACKS)).map
          fun d => .call d.fn (c.args.event.handed t d.udata) := by
  have hsame : (log_log noReaction stderr c.start c.now L c.args).1 = L := dispatch_noReaction ..
  obtain ⟨t, asked', -, hstep, -, hout⟩ :=
    @log_log_eq _ _ _ _ noReaction stderr c.start c.now ⟨L, asked⟩ hL c.args
  have hasked : asked' = asked := by
    have hnone : reactions (κ := κ) noReaction
        (log_log noReaction stderr c.start c.now L c.args).2 = [] := by
      rw [reactions, List.flatMap_eq_nil_iff]
      intro out _
      cases out <;> rfl
    rw [step, hnone] at hstep
    cases hstep
    exact List.append_nil _
  rw [hsame, hasked] at hout
  refine ⟨t, _, ?_, rfl⟩
  rw [Call.output, hout]
  simp only [List.append_assoc]

theorem lines_lockCall (env : Env τ) (lock : Bool) :
    (lockCall (υ := F) (τ := τ) L lock).filterMap (Output.line env) = [] := by
  rw [lockCall]
  cases L.lock <;> rfl

/-- Writing only: an output that is no call of the lock function. -/
theorem ops_eq_write {env : Env τ} {outs : List (Output Unit F τ κ)}
    (h : ∀ out ∈ outs, ∀ fn lock udata, out ≠ .lock fn lock udata) :
    outs.flatMap (Output.ops env) = ((outs.filterMap (Output.line env)).flatMap pieces).map .write := by
  induction outs with
  | nil => rfl
  | cons out outs ih =>
      have hout : out.ops env = ((out.line env).toList.flatMap pieces).map .write := by
        cases out with
        | lock fn lock udata => exact absurd rfl (h _ List.mem_cons_self fn lock udata)
        | stderr ev => rfl
        | call fn ev => rfl
      rw [List.flatMap_cons, hout, ih fun out hmem => h out (List.mem_cons_of_mem _ hmem),
        List.filterMap_cons, ← List.map_append]
      cases out.line env with
      | none => rfl
      | some l => rw [Option.toList_some, List.flatMap_singleton, List.flatMap_cons]

/-- **A call is a block**: with a lock it takes it, writes its lines and gives it back. -/
theorem Call.ops_eq (hL : Represents L asked) {k : κ} (hlock : L.lock = some k) (c : Call τ) :
    c.ops stderr L = Block.block (c.body stderr L) := by
  obtain ⟨t, outs, hout, houts⟩ := c.output_eq stderr hL
  have htake : ∀ take : Bool, lockCall (υ := F) (τ := τ) L take = [.lock k take L.udata] := by
    intro take
    rw [lockCall, hlock]
    rfl
  have hwrite : ∀ out ∈ outs, ∀ fn lock udata, out ≠ .lock fn lock udata := by
    intro out hmem fn lock udata he
    subst he
    rw [houts] at hmem
    rcases List.mem_append.mp hmem with hmem | hmem
    · split at hmem
      · cases List.mem_singleton.mp hmem
      · cases hmem
    · obtain ⟨d, -, hd⟩ := List.mem_map.mp hmem
      cases hd
  rw [Call.ops, Call.body, Call.lines, hout, List.filterMap_append, List.filterMap_append,
    lines_lockCall, lines_lockCall, List.nil_append, List.append_nil, List.flatMap_append,
    List.flatMap_append, ops_eq_write hwrite, htake, htake]
  rfl

variable {ι : Type}

theorem logging_eq (hL : Represents L asked) {k : κ} (hlock : L.lock = some k)
    {calls : ι → List (Call τ)} :
    logging stderr L calls = Block.opening (Call.body stderr L) calls := by
  have hops : Call.ops (τ := τ) stderr L = fun c => Block.block (c.body stderr L) :=
    funext fun c => c.ops_eq hL hlock
  rw [logging, hops]
  rfl

theorem getLast?_writeEvent (header : String) (env : Env τ) (ev : Event F τ) :
    (writeEvent header env ev).getLast? = some "\n" := by
  rw [writeEvent, List.getLast?_append]
  rfl

/-- A line ends with the end of the line. -/
theorem getLast?_line {env : Env τ} {out : Output Unit F τ κ} {l : F × List String}
    (h : out.line env = some l) : l.2.getLast? = some "\n" := by
  cases out with
  | lock fn lock udata => cases h
  | stderr ev =>
      obtain ⟨f, -, rfl⟩ := Option.map_eq_some_iff.mp h
      exact getLast?_writeEvent ..
  | call fn ev =>
      obtain ⟨f, -, rfl⟩ := Option.map_eq_some_iff.mp h
      exact getLast?_writeEvent ..

/-! ## What a stream holds -/

section Stream

variable [DecidableEq F]

/-- What has been written to `f`. -/
def on (f : F) (out : List (F × String)) : List String := (out.filter fun w => w.1 = f).map Prod.snd

/-- The lines of a call that go to `f`. -/
def Call.linesOn (c : Call τ) (stderr : F) (L : Logger Unit F κ) (f : F) : List (List String) :=
  ((c.lines stderr L).filter fun l => l.1 = f).map Prod.snd

theorem on_append (f : F) (out out' : List (F × String)) :
    on f (out ++ out') = on f out ++ on f out' := by
  rw [on, List.filter_append, List.map_append]
  rfl

theorem on_pieces (f : F) (l : F × List String) : on f (pieces l) = if l.1 = f then l.2 else [] := by
  rw [on, pieces, List.filter_map, List.map_map]
  by_cases h : l.1 = f
  · simp [h, Function.comp_def]
  · simp [h, Function.comp_def]

/-- Lines that are written one after the other. -/
theorem on_flatMap_pieces (f : F) (ls : List (F × List String)) :
    on f (ls.flatMap pieces) = ((ls.filter fun l => l.1 = f).map Prod.snd).flatten := by
  induction ls with
  | nil => rfl
  | cons l ls ih =>
      rw [List.flatMap_cons, on_append, on_pieces, ih]
      by_cases h : l.1 = f
      · simp [h]
      · simp [h]

theorem Call.on_body (c : Call τ) (stderr : F) (L : Logger Unit F κ) (f : F) :
    on f (c.body stderr L) = (c.linesOn stderr L f).flatten := on_flatMap_pieces ..

/-- Calls that are made one after the other. -/
theorem on_bodies (stderr : F) (L : Logger Unit F κ) (f : F) (done : List (ι × Call τ)) :
    on f (done.flatMap fun d => d.2.body stderr L)
      = (done.flatMap fun d => d.2.linesOn stderr L f).flatten := by
  induction done with
  | nil => rfl
  | cons d done ih =>
      rw [List.flatMap_cons, List.flatMap_cons, on_append, Call.on_body, ih, List.flatten_append]

theorem Call.getLast?_linesOn (c : Call τ) (f : F) :
    ∀ l ∈ c.linesOn stderr L f, l.getLast? = some "\n" := by
  intro l hl
  obtain ⟨l', hl', rfl⟩ := List.mem_map.mp hl
  obtain ⟨out, -, hout⟩ := List.mem_filterMap.mp (List.mem_filter.mp hl').1
  exact getLast?_line hout

/-- A call has as many lines for a stream as there are registrations of it that want the level. -/
theorem Call.length_linesOn (hL : Represents L asked) (c : Call τ) (f : F) :
    (c.linesOn stderr L f).length = lineCount stderr L (asked.take MAX_CALLBACKS) f c := by
  obtain ⟨t, outs, hout, houts⟩ := c.output_eq stderr hL
  have hlines : c.lines stderr L = outs.filterMap (Output.line c.env) := by
    rw [Call.lines, hout, List.filterMap_append, List.filterMap_append, lines_lockCall,
      lines_lockCall, List.nil_append, List.append_nil]
  rw [Call.linesOn, hlines, houts, List.length_map, List.filterMap_append, List.filter_append,
    List.length_append, lineCount]
  congr 1
  · by_cases hshows : L.Shows c.args.level
    · by_cases hf : stderr = f
      · subst hf
        simp [hshows, Output.line, Event.handed]
      · simp [hshows, Output.line, Event.handed, hf, Ne.symm hf]
    · simp [hshows]
  · rw [← List.countP_eq_length_filter, List.countP_filterMap, List.countP_map]
    refine List.countP_congr fun d _ => ?_
    cases hd : d.udata with
    | none => simp [Output.line, Event.handed, hd]
    | some g => simp [Output.line, Event.handed, hd]

variable [DecidableEq ι] {asked : List (Sink Unit F)} {k : κ} {calls : ι → List (Call τ)}
  {s : Block.State ι (F × String)}

/-- **LINES STAY WHOLE.**  However the logger has been configured, if a lock is installed then at
    any time each stream holds whole lines, those of each thread in the order of its calls, and
    behind them at most the beginning of the call that holds the lock. -/
theorem log_lines_whole (hL : Reachable (step (τ := τ) noReaction stderr) .zeroed ⟨L, asked⟩)
    (hlock : L.lock = some k) (h : Reachable Block.step (logging stderr L calls) s) (f : F) :
    ∃ done part, on f s.output = (done.flatMap fun d => d.2.linesOn stderr L f).flatten ++ part ∧
      (∀ i, Block.own i done <+: calls i) ∧
      (part = [] ∨ ∃ i c, s.holder = some i ∧ Block.own i done ++ [c] <+: calls i ∧
        part <+: (c.linesOn stderr L f).flatten) ∧
      ∀ d ∈ done, ∀ l ∈ d.2.linesOn stderr L f, l.getLast? = some "\n" := by
  rw [logging_eq (represents_reach hL) hlock] at h
  obtain ⟨done, part, hw⟩ := Block.whole_reach h
  refine ⟨done, on f part, ?_, hw.own_prefix, ?_, fun d _ => d.2.getLast?_linesOn f⟩
  · rw [hw.output, on_append, on_bodies]
  · rcases hw.part_prefix with hpart | ⟨i, c, hi, hown, togo, hbody⟩
    · rw [hpart]
      exact .inl rfl
    · refine .inr ⟨i, c, hi, hown, on f togo, ?_⟩
      rw [← on_append, hbody, Call.on_body]

/-- Two threads that each log a line at level `level`. -/
def twoThreads (level : Level) (i : Bool) : List (Call Nat) :=
  [⟨⟨level, "main.c", 9, false, if i then "one" else "two"⟩, 100, fun _ => 100,
    ⟨fun _ _ _ => "00:01:40", fun _ => "", 0⟩⟩]

/-- A logger with a lock and a file that takes warnings. -/
def withLock : Logger Unit Nat Unit := (log_add_fp (log_set_lock .zeroed (some ()) none) 7 3).1

theorem withLock_reachable :
    Reachable (step (τ := Nat) noReaction 2) .zeroed ⟨withLock, [⟨(), some 7, 3⟩]⟩ :=
  .next (a := .config (.log_add_callback (some ()) (some 7) 3))
    (.next (a := .config (.log_set_lock (some ()) none)) .init trivial rfl) trivial rfl

/-- One thread is through and the other one has written its header. -/
theorem log_lines_whole_two :
    ∃ s : Block.State Bool (Nat × String),
      Reachable Block.step (logging 2 withLock (twoThreads .LOG_WARN)) s ∧ s.output.length = 7 ∧
      ∃ done part, on 7 s.output = (done.flatMap fun d => d.2.linesOn 2 withLock 7).flatten ++ part ∧
        ∀ i, Block.own i done <+: twoThreads .LOG_WARN i := by
  obtain ⟨s, hs, hlen⟩ : ∃ s, Reachable Block.step (logging 2 withLock (twoThreads .LOG_WARN)) s ∧
      s.output.length = 7 :=
    reachable_of_run_map _ _ (List.replicate 8 true ++ [false, false]) _ (by decide +kernel)
  obtain ⟨done, part, hout, hown, -⟩ := log_lines_whole withLock_reachable rfl hs 7
  exact ⟨s, hs, hlen, done, part, hout, hown⟩

/-- Without a lock the lines mix. -/
example : (run Block.step (logging 2 (.zeroed : Logger Unit Nat Unit) (twoThreads .LOG_WARN))
    [true, false, false, true, true, false]).map (fun s => (on 2 s.output).drop 2)
      = some ["two", "one", "\n", "\n"] := by decide +kernel

/-- **NO LINE IS LOST.**  Every run of the threads can be completed.  Then each stream holds the
    lines of all calls, of each as many as there are registrations that want its level, and those of
    each thread in the order of its calls. -/
theorem log_lines_complete [Fintype ι]
    (hL : Reachable (step (τ := τ) noReaction stderr) .zeroed ⟨L, asked⟩)
    (hlock : L.lock = some k) (h : Reachable Block.step (logging stderr L calls) s) :
    ∃ s' done, Reachable Block.step s s' ∧ (∀ i, Block.own i done = calls i) ∧
      ∀ f, on f s'.output = (done.flatMap fun d => d.2.linesOn stderr L f).flatten ∧
        ∀ d ∈ done, (d.2.linesOn stderr L f).length
          = lineCount stderr L (asked.take MAX_CALLBACKS) f d.2 := by
  rw [logging_eq (represents_reach hL) hlock] at h
  obtain ⟨s', done, hs', hout, hown⟩ := Block.completes h
  refine ⟨s', done, hs', hown, fun f => ⟨?_, fun d _ => d.2.length_linesOn (represents_reach hL) f⟩⟩
  rw [hout, on_bodies]

/-- Both threads are through. -/
theorem log_lines_complete_two :
    ∃ s : Block.State Bool (Nat × String), ∃ done,
      Reachable Block.step (logging 2 withLock (twoThreads .LOG_WARN)) s ∧
      (∀ i, Block.own i done = twoThreads .LOG_WARN i) ∧
      on 7 s.output = (done.flatMap fun d => d.2.linesOn 2 withLock 7).flatten := by
  have hstart : Reachable Block.step (logging 2 withLock (twoThreads .LOG_WARN)) _ := .init
  obtain ⟨s, done, hs, hown, hout⟩ := log_lines_complete withLock_reachable rfl hstart
  exact ⟨s, done, hs, hown, (hout 7).1⟩

end Stream

end Log
