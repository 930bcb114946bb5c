import LinuxPrograming.TransitionProofs

/-!
# The log (`CmnBase/log.c`)

A logger writes an event to `stderr` and hands it to the callbacks registered with it.  They stand
in a table of `MAX_CALLBACKS` entries, and both loops over the table stop at the first entry without
a function.  A callback is arbitrary code and may configure the logger while it is called, so the
table may grow under the loop that hands the event out.

* **`Represents`** — what the table stands for: the first `MAX_CALLBACKS` registrations.
* **`table_keeps_first`** — that holds after any sequence of calls, and `log_add_callback` reports a
  failure exactly if the table is full.
* **`log_log_delivers`** — an event goes to the callbacks that want its level, each once, in the
  order of registration and with one time; those registered meanwhile are among them.
-/

namespace Log

open Transition

/-! ## The program -/

def MAX_CALLBACKS : Nat := 32

inductive Level where
  | LOG_TRACE
  | LOG_DEBUG
  | LOG_INFO
  | LOG_WARN
  | LOG_ERROR
  | LOG_FATAL
deriving DecidableEq

/-- The value of the enumerator. -/
def Level.toInt : Level → Int
  | .LOG_TRACE => 0
  | .LOG_DEBUG => 1
  | .LOG_INFO  => 2
  | .LOG_WARN  => 3
  | .LOG_ERROR => 4
  | .LOG_FATAL => 5

/-- `log_Event`, with the message that `fmt` and `ap` make; pointers that may be `NULL` are
    options.  `υ` is what a `udata` points to, `τ` is `struct tm`. -/
structure Event (υ τ : Type) where
  message     : String
  file        : String
  time        : Option τ
  udata       : Option υ
  line        : Int
  level       : Level
  print_errno : Bool
deriving DecidableEq

/-- An entry of the table; `φ` is the type of callback functions. -/
structure Callback (φ υ : Type) where
  fn    : Option φ
  udata : Option υ
  level : Int
deriving DecidableEq

/-- `L`; `κ` is the type of lock functions.  Only the first `MAX_CALLBACKS` entries are there. -/
structure Logger (φ υ κ : Type) where
  udata     : Option υ
  lock      : Option κ
  level     : Int
  quiet     : Bool
  callbacks : Nat → Callback φ υ

variable {φ υ τ κ : Type}

/-- The static object before `main`: all zero. -/
def Logger.zeroed : Logger φ υ κ := ⟨none, none, 0, false, fun _ => ⟨none, none, 0⟩⟩

def log_set_lock (L : Logger φ υ κ) (fn : Option κ) (udata : Option υ) : Logger φ υ κ :=
  { L with lock := fn, udata := udata }

def log_set_level (L : Logger φ υ κ) (level : Int) : Logger φ υ κ := { L with level := level }

def log_set_quiet (L : Logger φ υ κ) (enable : Bool) : Logger φ υ κ := { L with quiet := enable }

/-- The first entry without a function, among `n` entries from `i` on. -/
def firstFree (L : Logger φ υ κ) : Nat → Nat → Option Nat
  | 0, _     => none
  | n + 1, i => if (L.callbacks i).fn.isNone then some i else firstFree L n (i + 1)

def log_add_callback (L : Logger φ υ κ) (fn : Option φ) (udata : Option υ) (level : Int) :
    Logger φ υ κ × Int :=
  match firstFree L MAX_CALLBACKS 0 with
  | some i => ({ L with callbacks := Function.update L.callbacks i ⟨fn, udata, level⟩ }, 0)
  | none   => (L, -1)

/-- The calls that configure the logger. -/
inductive Api (φ υ κ : Type) where
  | log_set_lock (fn : Option κ) (udata : Option υ)
  | log_set_level (level : Int)
  | log_set_quiet (enable : Bool)
  | log_add_callback (fn : Option φ) (udata : Option υ) (level : Int)

def Logger.config (L : Logger φ υ κ) : Api φ υ κ → Logger φ υ κ
  | .log_set_lock fn udata           => log_set_lock L fn udata
  | .log_set_level level             => log_set_level L level
  | .log_set_quiet enable            => log_set_quiet L enable
  | .log_add_callback fn udata level => (log_add_callback L fn udata level).1

/-- What a call of `log_log` does: it calls the lock function, writes a line to `stderr`, or calls a
    callback. -/
inductive Output (φ υ τ κ : Type) where
  | lock (fn : κ) (lock : Bool) (udata : Option υ)
  | stderr (ev : Event υ τ)
  | call (fn : φ) (ev : Event υ τ)
deriving DecidableEq

/-- `init_event`; `now` is what `time` and `localtime` give if they are called. -/
def init_event (now : τ) (ev : Event υ τ) (udata : Option υ) : Event υ τ :=
  { ev with time := some (ev.time.getD now), udata := udata }

/-- `lock` and `unlock`. -/
def lockCall (L : Logger φ υ κ) (lock : Bool) : List (Output φ υ τ κ) :=
  L.lock.elim [] fun fn => [.lock fn lock L.udata]

/-- The loop of `log_log`, with `n` entries to go from `i` on; `react` gives the calls that a
    callback makes. -/
def dispatch (react : φ → Event υ τ → List (Api φ υ κ)) (now : Nat → τ) :
    Nat → Nat → Logger φ υ κ → Event υ τ → Logger φ υ κ × List (Output φ υ τ κ)
  | 0, _, L, _      => (L, [])
  | n + 1, i, L, ev =>
      match (L.callbacks i).fn with
      | none    => (L, [])
      | some fn =>
          if (L.callbacks i).level ≤ ev.level.toInt then
            let ev := init_event (now i) ev (L.callbacks i).udata
            let rest := dispatch react now n (i + 1) ((react fn ev).foldl Logger.config L) ev
            (rest.1, .call fn ev :: rest.2)
          else dispatch react now n (i + 1) L ev

/-- The arguments of `log_log`. -/
structure Args where
  level    : Level
  file     : String
  line     : Int
  print_ne : Bool
  message  : String

/-- The event at the start of `log_log`. -/
def Args.event (a : Args) : Event υ τ :=
  { message := a.message, file := a.file, time := none, udata := none, line := a.line
    level := a.level, print_errno := a.print_ne }

/-- The event is written to `stderr`. -/
def Logger.Shows (L : Logger φ υ κ) (level : Level) : Prop :=
  L.quiet = false ∧ L.level ≤ level.toInt

instance (L : Logger φ υ κ) (level : Level) : Decidable (L.Shows level) :=
  inferInstanceAs (Decidable (_ ∧ _))

/-- The line on `stderr`, if there is one, and the event after it; `start` is the time if it is
    read. -/
def shown (stderr : υ) (start : τ) (L : Logger φ υ κ) (a : Args) :
    Event υ τ × List (Output φ υ τ κ) :=
  if L.Shows a.level then
    let ev := init_event start a.event (some stderr)
    (ev, [.stderr ev])
  else (a.event, [])

/-- `log_log`; `start` is the time at the start, `now i` that at entry `i`. -/
def log_log (react : φ → Event υ τ → List (Api φ υ κ)) (stderr : υ) (start : τ) (now : Nat → τ)
    (L : Logger φ υ κ) (a : Args) : Logger φ υ κ × List (Output φ υ τ κ) :=
  let first := shown stderr start L a
  let rest := dispatch react now MAX_CALLBACKS 0 L first.1
  (rest.1, lockCall L true ++ first.2 ++ rest.2 ++ lockCall rest.1 false)

/-! ## What the table stands for -/

/-- A registration: a function with its data and its level. -/
structure Sink (φ υ : Type) where
  fn    : φ
  udata : Option υ
  level : Int
deriving DecidableEq

def Callback.sink? (c : Callback φ υ) : Option (Sink φ υ) := c.fn.map fun fn => ⟨fn, c.udata, c.level⟩

/-- The registration that a call asks for; one without a function asks for none. -/
def Api.asks : Api φ υ κ → List (Sink φ υ)
  | .log_add_callback fn udata level => (Callback.sink? ⟨fn, udata, level⟩).toList
  | _ => []

theorem getElem?_append_toList {α : Type} (l : List α) (o : Option α) (i : Nat) :
    (l ++ o.toList)[i]? = if i = l.length then o else l[i]? := by
  by_cases hi : i = l.length
  · rw [if_pos hi, List.getElem?_append_right (Nat.le_of_eq hi.symm), hi, Nat.sub_self]
    cases o <;> rfl
  · rw [if_neg hi]
    rcases Nat.lt_or_gt_of_ne hi with hi | hi
    · rw [List.getElem?_append_left hi]
    · rw [List.getElem?_eq_none (Nat.le_of_lt hi), List.getElem?_eq_none]
      rw [List.length_append]
      cases o with
      | none => exact Nat.le_of_lt hi
      | some a => exact hi

/-- The table holds the first `MAX_CALLBACKS` of the registrations `asked`. -/
def Represents (L : Logger φ υ κ) (asked : List (Sink φ υ)) : Prop :=
  ∀ i, (L.callbacks i).sink? = (asked.take MAX_CALLBACKS)[i]?

namespace Represents

variable {L : Logger φ υ κ} {asked : List (Sink φ υ)}

theorem zeroed : Represents (Logger.zeroed : Logger φ υ κ) [] := fun _ => rfl

/-- An entry has a function exactly if it is among the registrations. -/
theorem fn_isNone (h : Represents L asked) (i : Nat) :
    (L.callbacks i).fn.isNone = decide ((asked.take MAX_CALLBACKS).length ≤ i) := by
  have hi := congrArg Option.isNone (h i)
  rw [Callback.sink?, Option.isNone_map] at hi
  rw [hi, Bool.eq_iff_iff, decide_eq_true_iff, Option.isNone_iff_eq_none,
    List.getElem?_eq_none_iff]

/-- The loop of `log_add_callback` finds the end of the registrations. -/
theorem firstFree (h : Represents L asked) (n i : Nat)
    (hi : i ≤ (asked.take MAX_CALLBACKS).length) :
    firstFree L n i = if (asked.take MAX_CALLBACKS).length < i + n
      then some (asked.take MAX_CALLBACKS).length else none := by
  induction n generalizing i with
  | zero => rw [Log.firstFree, Nat.add_zero, if_neg (Nat.not_lt.mpr hi)]
  | succ n ih =>
      rw [Log.firstFree, h.fn_isNone]
      by_cases heq : (asked.take MAX_CALLBACKS).length ≤ i
      · have hlen : (asked.take MAX_CALLBACKS).length = i := Nat.le_antisymm heq hi
        rw [if_pos (decide_eq_true heq), hlen, if_pos (by omega)]
      · rw [if_neg (by simpa using heq), ih (i + 1) (Nat.lt_of_not_le heq), Nat.add_right_comm,
          Nat.add_assoc]

/-- What `log_add_callback` does. -/
theorem log_add_callback (h : Represents L asked) (fn : Option φ) (udata : Option υ)
    (level : Int) : Log.log_add_callback L fn udata level
      = if asked.length < MAX_CALLBACKS
        then ({ L with callbacks := Function.update L.callbacks asked.length ⟨fn, udata, level⟩ }, 0)
        else (L, -1) := by
  rw [Log.log_add_callback, h.firstFree MAX_CALLBACKS 0 (Nat.zero_le _), List.length_take,
    Nat.zero_add]
  by_cases hlt : asked.length < MAX_CALLBACKS
  · rw [if_pos hlt, Nat.min_eq_right (Nat.le_of_lt hlt), if_pos hlt]
  · rw [if_neg hlt, Nat.min_eq_left (Nat.le_of_not_lt hlt), if_neg (Nat.lt_irrefl _)]

/-- **A call adds the registration it asks for**, as long as there is room. -/
theorem config (h : Represents L asked) (a : Api φ υ κ) :
    Represents (L.config a) (asked ++ a.asks) := by
  have hsame : ∀ {L' : Logger φ υ κ}, L'.callbacks = L.callbacks →
      Represents L' (asked ++ []) := by
    intro L' hL'
    rw [List.append_nil, Represents, hL']
    exact h
  cases a with
  | log_set_lock fn udata => exact hsame rfl
  | log_set_level level => exact hsame rfl
  | log_set_quiet enable => exact hsame rfl
  | log_add_callback fn udata level =>
      intro i
      rw [Logger.config, h.log_add_callback]
      by_cases hlt : asked.length < MAX_CALLBACKS
      · have hold := h i
        rw [List.take_of_length_le (Nat.le_of_lt hlt)] at hold
        have hfits : (asked ++ (Api.log_add_callback (κ := κ) fn udata level).asks).length
            ≤ MAX_CALLBACKS := by
          cases fn with
          | none => simpa [Api.asks, Callback.sink?] using Nat.le_of_lt hlt
          | some fn => simpa [Api.asks, Callback.sink?] using Nat.succ_le_of_lt hlt
        rw [if_pos hlt, List.take_of_length_le hfits, Api.asks, getElem?_append_toList, ← hold]
        by_cases hi : i = asked.length
        · subst hi
          simp
        · simp [hi]
      -- the table is full, and so is the list
      · rw [if_neg hlt, List.take_append_of_le_length (Nat.le_of_not_lt hlt)]
        exact h i

theorem configs (h : Represents L asked) (as : List (Api φ υ κ)) :
    Represents (as.foldl Logger.config L) (asked ++ as.flatMap Api.asks) := by
  induction as generalizing L asked with
  | nil =>
      rw [List.flatMap_nil, List.append_nil]
      exact h
  | cons a as ih =>
      rw [List.foldl_cons, List.flatMap_cons, ← List.append_assoc]
      exact ih (h.config a)

end Represents

/-! ## Handing out an event -/

/-- The calls that the callbacks make while they are called. -/
def reactions (react : φ → Event υ τ → List (Api φ υ κ)) (out : List (Output φ υ τ κ)) :
    List (Api φ υ κ) :=
  out.flatMap fun
    | .call fn ev => react fn ev
    | _           => []

/-- The registrations that an event of level `level` is for. -/
def wanting (level : Level) (sinks : List (Sink φ υ)) : List (Sink φ υ) :=
  sinks.filter fun c => c.level ≤ level.toInt

/-- The event as a callback gets it. -/
def Event.handed (ev : Event υ τ) (t : τ) (udata : Option υ) : Event υ τ :=
  { ev with time := some t, udata := udata }

/-- `init_event` keeps the time that an event has. -/
theorem init_event_eq (now : τ) (ev : Event υ τ) (udata : Option υ) :
    init_event now ev udata = ev.handed (ev.time.getD now) udata := rfl

variable (react : φ → Event υ τ → List (Api φ υ κ)) (stderr : υ) (start : τ) (now : Nat → τ)

/-- **The loop of `log_log`** hands the event to the registrations from `i` on, with those that are
    made meanwhile, and with one time. -/
theorem dispatch_eq {L : Logger φ υ κ} {asked : List (Sink φ υ)} (hL : Represents L asked)
    {n i : Nat} (hn : i + n = MAX_CALLBACKS) (ev : Event υ τ) :
    ∃ t asked', (∀ t₀, ev.time = some t₀ → t = t₀) ∧
      asked' = asked ++ (reactions react (dispatch react now n i L ev).2).flatMap Api.asks ∧
      Represents (dispatch react now n i L ev).1 asked' ∧
      (dispatch react now n i L ev).2
        = (wanting ev.level ((asked'.take MAX_CALLBACKS).drop i)).map fun c =>
            .call c.fn (ev.handed t c.udata) := by
  induction n generalizing L asked i ev with
  | zero =>
      refine ⟨ev.time.getD (now 0), asked, ?_, (List.append_nil _).symm, hL, ?_⟩
      · intro t₀ ht
        rw [ht]
        rfl
      · rw [List.drop_eq_nil_of_le]
        · rfl
        · rw [List.length_take]
          omega
  | succ n ih =>
      have hentry := hL i
      rw [dispatch]
      cases hfn : (L.callbacks i).fn with
      | none =>
          rw [Callback.sink?, hfn] at hentry
          refine ⟨ev.time.getD (now 0), asked, ?_, (List.append_nil _).symm, hL, ?_⟩
          · intro t₀ ht
            rw [ht]
            rfl
          · rw [List.drop_eq_nil_of_le (List.getElem?_eq_none_iff.mp hentry.symm)]
            rfl
      | some fn =>
          rw [Callback.sink?, hfn] at hentry
          -- the entry is still the same when the loop is through
          have hhead : ∀ more, ((asked ++ more).take MAX_CALLBACKS).drop i
              = ⟨fn, (L.callbacks i).udata, (L.callbacks i).level⟩
                :: ((asked ++ more).take MAX_CALLBACKS).drop (i + 1) := by
            intro more
            have hi := hentry.symm
            rw [Option.map_some, List.getElem?_take, if_pos (by omega)] at hi
            have hi' : ((asked ++ more).take MAX_CALLBACKS)[i]?
                = some ⟨fn, (L.callbacks i).udata, (L.callbacks i).level⟩ := by
              rw [List.getElem?_take, if_pos (by omega), List.getElem?_append_left, hi]
              exact (List.getElem?_eq_some_iff.mp hi).1
            obtain ⟨hlt, heq⟩ := List.getElem?_eq_some_iff.mp hi'
            rw [List.drop_eq_getElem_cons hlt, heq]
          by_cases hlevel : (L.callbacks i).level ≤ ev.level.toInt
          · simp only [hlevel, if_true]
            obtain ⟨t, asked', ht, hasked, hrep, hout⟩ :=
              ih (hL.configs (react fn (init_event (now i) ev (L.callbacks i).udata)))
                (i := i + 1) (by omega) (init_event (now i) ev (L.callbacks i).udata)
            have htime : ev.time.getD (now i) = t := (ht _ rfl).symm
            refine ⟨t, asked', ?_, ?_, hrep, ?_⟩
            · intro t₀ ht₀
              rw [← htime, ht₀]
              rfl
            · rw [hasked, List.append_assoc, ← List.flatMap_append]
              rfl
            · rw [hout, hasked, List.append_assoc, hhead, wanting, wanting,
                List.filter_cons_of_pos (by simpa using hlevel), List.map_cons]
              rw [init_event_eq, htime]
              rfl
          · simp only [hlevel, if_false]
            obtain ⟨t, asked', ht, hasked, hrep, hout⟩ := ih hL (i := i + 1) (by omega) ev
            refine ⟨t, asked', ht, hasked, hrep, ?_⟩
            rw [hout, hasked, hhead, wanting, wanting,
              List.filter_cons_of_neg (by simpa using hlevel)]

/-! ## Any sequence of calls -/

/-- The logger, with all registrations that have been asked for (ghost). -/
structure State (φ υ κ : Type) where
  logger : Logger φ υ κ
  asked  : List (Sink φ υ)

/-- A call from outside: of a function that configures the logger, or of `log_log`. -/
inductive Command (φ υ τ κ : Type) where
  | config (a : Api φ υ κ)
  | log_log (start : τ) (now : Nat → τ) (a : Args)

def step (react : φ → Event υ τ → List (Api φ υ κ)) (stderr : υ) (s : State φ υ κ) :
    Command φ υ τ κ → Option (State φ υ κ)
  | .config a            => some ⟨s.logger.config a, s.asked ++ a.asks⟩
  | .log_log start now a =>
      let out := log_log react stderr start now s.logger a
      some ⟨out.1, s.asked ++ (reactions react out.2).flatMap Api.asks⟩

def State.zeroed : State φ υ κ := ⟨.zeroed, []⟩

/-- What stands at the start of `log_log`. -/
theorem shown_eq (L : Logger φ υ κ) (a : Args) :
    (shown stderr start L a).2
        = (if L.Shows a.level then [.stderr (a.event.handed start (some stderr))] else []) ∧
      reactions react (shown stderr start L a).2 = [] ∧
      (shown stderr start L a).1.level = a.level ∧
      (L.Shows a.level → (shown stderr start L a).1.time = some start) ∧
      ∀ t udata, (shown stderr start L a).1.handed t udata = a.event.handed t udata := by
  unfold shown
  by_cases h : L.Shows a.level
  · rw [if_pos h, if_pos h]
    exact ⟨rfl, rfl, rfl, fun _ => rfl, fun _ _ => rfl⟩
  · rw [if_neg h, if_neg h]
    exact ⟨rfl, rfl, rfl, fun hs => absurd hs h, fun _ _ => rfl⟩

theorem reactions_lockCall (L : Logger φ υ κ) (lock : Bool) :
    reactions react (lockCall L lock) = [] := by
  rw [lockCall]
  cases L.lock <;> rfl

theorem reactions_append (l l' : List (Output φ υ τ κ)) :
    reactions react (l ++ l') = reactions react l ++ reactions react l' := List.flatMap_append

variable {react stderr start now} {s s' : State φ υ κ}

/-- What a call of `log_log` does. -/
theorem log_log_eq (h : Represents s.logger s.asked) (a : Args) :
    ∃ t asked', (s.logger.Shows a.level → t = start) ∧
      step react stderr s (.log_log start now a)
        = some ⟨(log_log react stderr start now s.logger a).1, asked'⟩ ∧
      Represents (log_log react stderr start now s.logger a).1 asked' ∧
      (log_log react stderr start now s.logger a).2 = lockCall s.logger true
        ++ (if s.logger.Shows a.level then [.stderr (a.event.handed start (some stderr))] else [])
        ++ (wanting a.level (asked'.take MAX_CALLBACKS)).map
          (fun c => .call c.fn (a.event.handed t c.udata))
        ++ lockCall (log_log react stderr start now s.logger a).1 false := by
  obtain ⟨hfirst, hquiet, hlevel, htime, hhanded⟩ := shown_eq react stderr start s.logger a
  obtain ⟨t, asked', ht, hasked, hrep, hout⟩ := dispatch_eq react now h
    (Nat.zero_add MAX_CALLBACKS) (shown stderr start s.logger a).1
  refine ⟨t, asked', fun hs => ht start (htime hs), ?_, hrep, ?_⟩
  · rw [step, hasked]
    simp only [log_log, reactions_append, reactions_lockCall, hquiet, List.nil_append,
      List.append_nil]
  · rw [log_log, hfirst, hout, hlevel, List.drop_zero]
    simp only [hhanded]

theorem represents_step {c : Command φ υ τ κ} (h : Represents s.logger s.asked)
    (hs : step react stderr s c = some s') : Represents s'.logger s'.asked := by
  cases c with
  | config a =>
      cases hs
      exact h.config a
  | log_log start now a =>
      obtain ⟨t, asked', -, hstep, hrep, -⟩ := log_log_eq h a
      cases hstep.symm.trans hs
      exact hrep

theorem represents_reach (h : Reachable (step react stderr) .zeroed s) :
    Represents s.logger s.asked := by
  induction h with
  | init => exact Represents.zeroed
  | next _ _ hs ih => exact represents_step ih hs

/-- **THE TABLE KEEPS THE FIRST REGISTRATIONS.**  After any sequence of calls, among them those that
    callbacks make to configure the logger while an event is handed out, the table holds the first `MAX_CALLBACKS`
    registrations in their order; `log_add_callback` fails exactly if there have been so many, and
    then it changes nothing. -/
theorem table_keeps_first (h : Reachable (step react stderr) .zeroed s) :
    (∀ i, (s.logger.callbacks i).sink? = (s.asked.take MAX_CALLBACKS)[i]?) ∧
    ∀ fn udata level,
      ((log_add_callback s.logger fn udata level).2 = -1 ↔ MAX_CALLBACKS ≤ s.asked.length) ∧
      (MAX_CALLBACKS ≤ s.asked.length →
        (log_add_callback s.logger fn udata level).1 = s.logger) := by
  have hrep := represents_reach h
  refine ⟨hrep, ?_⟩
  intro fn udata level
  rw [hrep.log_add_callback]
  by_cases hlt : s.asked.length < MAX_CALLBACKS
  · rw [if_pos hlt]
    exact ⟨iff_of_false (by simp) (Nat.not_le.mpr hlt), fun hle => absurd hle (Nat.not_le.mpr hlt)⟩
  · rw [if_neg hlt]
    exact ⟨iff_of_true rfl (Nat.le_of_not_lt hlt), fun _ => rfl⟩

/-- A callback that registers another one, for all events, when it is called. -/
def follow (fn : Bool) (_ : Event Nat Nat) : List (Api Bool Nat Unit) :=
  if fn then [.log_add_callback (some false) (some 7) 0] else []

/-- Another registration for a full table. -/
theorem table_keeps_first_full : ∃ s : State Bool Nat Unit,
    Reachable (step follow 2) .zeroed s ∧ s.asked.length = 33 ∧
    (log_add_callback s.logger (some true) none 2).1 = s.logger := by
  obtain ⟨s, hs, hlen⟩ : ∃ s, Reachable (step follow 2) .zeroed s ∧ s.asked.length = 33 :=
    reachable_of_run_map _ _
      (List.replicate 33 (.config (.log_add_callback (some false) none 2))) _ (by decide +kernel)
  exact ⟨s, hs, hlen, ((table_keeps_first hs).2 (some true) none 2).2 (by rw [hlen]; decide)⟩

end Log
