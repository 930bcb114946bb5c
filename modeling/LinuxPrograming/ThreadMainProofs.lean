import Mathlib.Data.List.Nodup
import Mathlib.Data.List.Range
import LinuxPrograming.CmnBaseProofs

/-!
# The main threads of the thread programs (`4-Thread/task1.c`, `task2.c`, `task4.c`)

Each `main` allocates its `thread_info` arrays, creates the threads of each array, joins them and
logs a line; it ends with a failure status as soon as a check of a result fails.  The calls are
recorded together with their results, which an oracle gives.

`cmnbase.h` defines `FAILURE` and `SUCCESS`, and then includes `strutils.h`, which defines `SUCCESS`
once more.  After that the two have the same value, and no check can tell them apart.

* **`proper_of_distinct`** — with two different values every `main` reports exactly what happened.
* **`proper_iff`** — with the values in force it does so only if a call fails in time.
-/

namespace ThreadMain

open CmnBase

/-! ## The status constants -/

/-- The macros of the two headers. -/
inductive Macro where
  | FAILURE
  | SUCCESS
  | ERRNO_II
deriving DecidableEq

/-- The definitions of `strutils.h`, in their order. -/
def strutils_h : List (Macro × Int) := [(.ERRNO_II, -1), (.SUCCESS, 0)]

/-- The definitions of `cmnbase.h`, in their order; the last of its includes is `strutils.h`. -/
def cmnbase_h : List (Macro × Int) := [(.FAILURE, 0), (.SUCCESS, 1)] ++ strutils_h

/-- The value in force after a list of definitions: a later one replaces an earlier one. -/
def expand (defs : List (Macro × Int)) (m : Macro) : Option Int :=
  defs.foldl (fun v d => if d.1 = m then some d.2 else v) none

/-- The values that the functions of a program return, as `uint32_t`. -/
structure Statuses where
  FAILURE : UInt32
  SUCCESS : UInt32

/-- A source file that includes `cmnbase.h`. -/
def statuses : Statuses where
  FAILURE := UInt32.ofInt ((expand cmnbase_h .FAILURE).getD 0)
  SUCCESS := UInt32.ofInt ((expand cmnbase_h .SUCCESS).getD 0)

/-- The second definition of `SUCCESS` is the value of `FAILURE`. -/
theorem success_eq_failure : statuses.SUCCESS = statuses.FAILURE := by decide

/-! ## The program -/

/-- The arrays of `thread_info`. -/
inductive Infos where
  | tinfo
  | rt_info
  | wt_info
deriving DecidableEq

/-- A thread: the array and the index of its `thread_info`. -/
structure Thread where
  infos : Infos
  tnum  : Nat
deriving DecidableEq

/-- The functions whose result `main` compares with `FAILURE`. -/
inductive Routine where
  | create_mutex
  | create_threads
  | join_threads
deriving DecidableEq

/-- What `main` does: calls with their results, its comparisons with `FAILURE`, and the line at the
    end. -/
inductive Event where
  | malloc (infos : Infos) (ok : Bool)
  | pthread_create (t : Thread) (ret : Int32)
  | pthread_join (t : Thread) (ret : Int32)
  | isFailure (f : Routine) (yes : Bool)
  | resultLine
deriving DecidableEq

/-- The results of the calls; each call is made at most once in a run. -/
structure Results where
  malloc         : Infos → Bool
  pthread_create : Thread → Int32
  pthread_join   : Thread → Int32

/-- One call for each of `n` threads from `tnum` on, until one returns an error number. -/
def forThreads (st : Statuses) (call : Thread → Int32) (event : Thread → Int32 → Event)
    (infos : Infos) : Nat → Nat → List Event × UInt32
  | 0, _ => ([], st.SUCCESS)
  | n + 1, tnum =>
      let t : Thread := ⟨infos, tnum⟩
      if call t ≠ 0 then ([event t (call t)], st.FAILURE)
      else
        let rest := forThreads st call event infos n (tnum + 1)
        (event t (call t) :: rest.1, rest.2)

def create_threads (st : Statuses) (r : Results) (infos : Infos) (num : Nat) :
    List Event × UInt32 :=
  forThreads st r.pthread_create .pthread_create infos num 0

def join_threads (st : Statuses) (r : Results) (infos : Infos) (num : Nat) :
    List Event × UInt32 :=
  forThreads st r.pthread_join .pthread_join infos num 0

def create_mutex (st : Statuses) : List Event × UInt32 := ([], st.SUCCESS)

/-- A call of `main` with the check that follows it: what is done, and whether `terminate` is
    called. -/
structure Stage where
  events : List Event
  failed : Bool

/-- `if (tinfo == NULL)`. -/
def mallocStage (r : Results) (infos : Infos) : Stage :=
  ⟨[.malloc infos (r.malloc infos)], !r.malloc infos⟩

/-- `if (f(..) == FAILURE)`. -/
def checkStage (st : Statuses) (f : Routine) (res : List Event × UInt32) : Stage :=
  ⟨res.1 ++ [.isFailure f (decide (res.2 = st.FAILURE))], decide (res.2 = st.FAILURE)⟩

/-- The programs, with the numbers of their threads. -/
inductive Program where
  | task1 (NUM_THREADS : Nat)
  | task2 (NUM_THREADS : Nat)
  | task4 (OR_NUM_THREADS OW_NUM_THREADS : Nat)

/-- The checked calls of each `main`, in their order. -/
def stages (st : Statuses) (r : Results) : Program → List Stage
  | .task1 n =>
      [mallocStage r .tinfo,
        checkStage st .create_threads (create_threads st r .tinfo n),
        checkStage st .join_threads (join_threads st r .tinfo n)]
  | .task2 n =>
      [mallocStage r .tinfo,
        checkStage st .create_mutex (create_mutex st),
        checkStage st .create_threads (create_threads st r .tinfo n),
        checkStage st .join_threads (join_threads st r .tinfo n)]
  | .task4 readers writers =>
      [mallocStage r .rt_info,
        mallocStage r .wt_info,
        checkStage st .create_threads (create_threads st r .rt_info readers),
        checkStage st .create_threads (create_threads st r .wt_info writers),
        checkStage st .join_threads (join_threads st r .rt_info readers),
        checkStage st .join_threads (join_threads st r .wt_info writers)]

/-- What a run has done and how it ended. -/
structure Run where
  events : List Event
  ending : Ending

/-- The stages one after the other; after the last one the line is logged and `main` returns. -/
def execute (dumpcore : Option String) : List Stage → Run
  | [] => ⟨[.resultLine], .exit 0⟩
  | stage :: rest =>
      if stage.failed then ⟨stage.events, terminate dumpcore EXIT_FAILURE true⟩
      else
        let run := execute dumpcore rest
        ⟨stage.events ++ run.events, run.ending⟩

def main (st : Statuses) (dumpcore : Option String) (p : Program) (r : Results) : Run :=
  execute dumpcore (stages st r p)

/-! ## What a run should report -/

/-- A call that reported an error. -/
def Event.failed : Event → Bool
  | .malloc _ ok => !ok
  | .pthread_create _ ret | .pthread_join _ ret => decide (ret ≠ 0)
  | _ => false

/-- The threads that have been created. -/
def created (es : List Event) : List Thread :=
  es.filterMap fun
    | .pthread_create t ret => if ret = 0 then some t else none
    | _ => none

/-- The threads that have been joined. -/
def joined (es : List Event) : List Thread :=
  es.filterMap fun
    | .pthread_join t ret => if ret = 0 then some t else none
    | _ => none

/-- `main` fails exactly if a call fails; if none does, the checks of `create_threads` and
    `join_threads` see a success, every thread is joined once and the line is logged. -/
structure Proper (run : Run) : Prop where
  fails_iff : run.ending.Failed ↔ ∃ e ∈ run.events, e.failed = true
  succeeds  : (∀ e ∈ run.events, e.failed = false) →
    (∀ f, f ≠ .create_mutex →
      .isFailure f false ∈ run.events ∧ .isFailure f true ∉ run.events)
    ∧ (∀ t ∈ created run.events, (joined run.events).count t = 1)
    ∧ .resultLine ∈ run.events

/-! ## The loops -/

section Loops

variable {st : Statuses} {call : Thread → Int32} {event : Thread → Int32 → Event} {infos : Infos}

/-- A loop whose calls all succeed makes them all and returns `SUCCESS`. -/
theorem forThreads_ok {n tnum : Nat} (h : ∀ i, i < n → call ⟨infos, tnum + i⟩ = 0) :
    forThreads st call event infos n tnum
      = ((List.range' tnum n).map fun i => event ⟨infos, i⟩ 0, st.SUCCESS) := by
  induction n generalizing tnum with
  | zero => rfl
  | succ n ih =>
      have h0 : call ⟨infos, tnum⟩ = 0 := h 0 (Nat.succ_pos n)
      have hrest : ∀ i, i < n → call ⟨infos, tnum + 1 + i⟩ = 0 := by
        intro i hi
        rw [Nat.add_assoc, Nat.add_comm 1 i]
        exact h (i + 1) (Nat.succ_lt_succ hi)
      rw [forThreads, if_neg (not_not.mpr h0), ih hrest, h0, List.range'_succ, List.map_cons]

/-- A loop in which a call fails returns `FAILURE` right after it. -/
theorem forThreads_failed {n tnum i : Nat} (hi : i < n) (h : call ⟨infos, tnum + i⟩ ≠ 0) :
    (forThreads st call event infos n tnum).2 = st.FAILURE
      ∧ ∃ t, call t ≠ 0 ∧ event t (call t) ∈ (forThreads st call event infos n tnum).1 := by
  induction n generalizing tnum i with
  | zero => exact absurd hi (Nat.not_lt_zero i)
  | succ n ih =>
      by_cases h0 : call ⟨infos, tnum⟩ ≠ 0
      · rw [forThreads, if_pos h0]
        exact ⟨rfl, _, h0, List.mem_singleton_self _⟩
      · rw [forThreads, if_neg h0]
        cases i with
        | zero => exact absurd h h0
        | succ i =>
            have h' : call ⟨infos, tnum + 1 + i⟩ ≠ 0 := by
              rw [Nat.add_assoc, Nat.add_comm 1 i]
              exact h
            obtain ⟨hret, t, ht, hmem⟩ := ih (Nat.lt_of_succ_lt_succ hi) h'
            exact ⟨hret, t, ht, List.mem_cons_of_mem _ hmem⟩

/-- If the two values are the same, the result of a loop says nothing. -/
theorem forThreads_of_eq (hst : st.SUCCESS = st.FAILURE) (n tnum : Nat) :
    (forThreads st call event infos n tnum).2 = st.FAILURE := by
  induction n generalizing tnum with
  | zero => exact hst
  | succ n ih =>
      rw [forThreads]
      split
      · rfl
      · exact ih (tnum + 1)

/-- A loop records a failed call exactly if a call fails; `event` is one that records results. -/
theorem forThreads_records (hevent : ∀ t ret, (event t ret).failed = decide (ret ≠ 0))
    (n tnum : Nat) : (∃ e ∈ (forThreads st call event infos n tnum).1, e.failed = true)
      ↔ ∃ i, i < n ∧ call ⟨infos, tnum + i⟩ ≠ 0 := by
  constructor
  · rintro ⟨e, he, hf⟩
    by_contra hnone
    rw [forThreads_ok fun i hi => not_not.mp fun h => hnone ⟨i, hi, h⟩] at he
    obtain ⟨i, -, rfl⟩ := List.mem_map.mp he
    rw [hevent] at hf
    exact absurd hf (by decide)
  · rintro ⟨i, hi, h⟩
    obtain ⟨-, t, ht, hmem⟩ := @forThreads_failed st call event infos n tnum i hi h
    exact ⟨_, hmem, by rw [hevent]; exact decide_eq_true ht⟩

end Loops

/-! ## The stages -/

/-- The check of a stage fails exactly if a call of it does. -/
def Stage.Sound (stage : Stage) : Prop :=
  stage.failed = true ↔ ∃ e ∈ stage.events, e.failed = true

theorem mallocStage_sound (r : Results) (infos : Infos) : (mallocStage r infos).Sound := by
  simp [Stage.Sound, mallocStage, Event.failed]

/-- A check after a loop is sound if `SUCCESS` is not `FAILURE`. -/
theorem checkStage_sound {st : Statuses} (hst : st.SUCCESS ≠ st.FAILURE) (f : Routine)
    {call : Thread → Int32} {event : Thread → Int32 → Event}
    (hevent : ∀ t ret, (event t ret).failed = decide (ret ≠ 0)) (infos : Infos) (n : Nat) :
    (checkStage st f (forThreads st call event infos n 0)).Sound := by
  have hiff : (forThreads st call event infos n 0).2 = st.FAILURE
      ↔ ∃ e ∈ (forThreads st call event infos n 0).1, e.failed = true := by
    rw [forThreads_records hevent]
    constructor
    · intro h
      by_contra hnone
      rw [forThreads_ok fun i hi => not_not.mp fun h => hnone ⟨i, hi, h⟩] at h
      exact hst h
    · rintro ⟨i, hi, h⟩
      exact (forThreads_failed hi h).1
  -- the comparison itself is no call that could fail
  refine decide_eq_true_iff.trans (hiff.trans ?_)
  constructor
  · rintro ⟨e, he, hf⟩
    exact ⟨e, List.mem_append_left _ he, hf⟩
  · rintro ⟨e, he, hf⟩
    rcases List.mem_append.mp he with he | he
    · exact ⟨e, he, hf⟩
    · rw [List.mem_singleton.mp he] at hf
      cases hf

theorem createMutex_sound {st : Statuses} (hst : st.SUCCESS ≠ st.FAILURE) :
    (checkStage st .create_mutex (create_mutex st)).Sound := by
  simp [Stage.Sound, checkStage, create_mutex, hst, Event.failed]

/-- Sound stages make a run that fails exactly if a call fails. -/
theorem execute_fails_iff {dumpcore : Option String} {l : List Stage}
    (hl : ∀ stage ∈ l, stage.Sound) : (execute dumpcore l).ending.Failed
      ↔ ∃ e ∈ (execute dumpcore l).events, e.failed = true := by
  induction l with
  | nil =>
      constructor
      · intro h
        exact absurd rfl h
      · rintro ⟨e, he, hf⟩
        rw [List.mem_singleton.mp he] at hf
        cases hf
  | cons stage rest ih =>
      obtain ⟨hstage, hrest⟩ := List.forall_mem_cons.mp hl
      have hstage' : stage.failed = true ↔ ∃ e ∈ stage.events, e.failed = true := hstage
      -- either this stage ends the run, or its calls have all succeeded
      rw [execute]
      split
      case isTrue hf =>
        refine ⟨fun _ => hstage'.mp hf, fun _ => terminate_failed _ _ (by decide)⟩
      case isFalse hf =>
        rw [hstage'] at hf
        show (execute dumpcore rest).ending.Failed
          ↔ ∃ e ∈ stage.events ++ (execute dumpcore rest).events, e.failed = true
        rw [ih hrest]
        constructor
        · rintro ⟨e, he, hfe⟩
          exact ⟨e, List.mem_append_right _ he, hfe⟩
        · rintro ⟨e, he, hfe⟩
          rcases List.mem_append.mp he with he | he
          · exact absurd ⟨e, he, hfe⟩ hf
          · exact ⟨e, he, hfe⟩

/-- A run in which no call fails goes through all its stages. -/
theorem execute_succeeds {dumpcore : Option String} {l : List Stage}
    (hl : ∀ stage ∈ l, stage.Sound)
    (h : ∀ e ∈ (execute dumpcore l).events, e.failed = false) :
    (∀ stage ∈ l, stage.failed = false)
      ∧ (execute dumpcore l).events = l.flatMap Stage.events ++ [.resultLine] := by
  induction l with
  | nil => exact ⟨fun _ h => (by cases h), rfl⟩
  | cons stage rest ih =>
      obtain ⟨hstage, hrest⟩ := List.forall_mem_cons.mp hl
      unfold execute at h ⊢
      split at h
      case isTrue hf =>
        obtain ⟨e, he, hfe⟩ := hstage.mp hf
        rw [h e he] at hfe
        cases hfe
      case isFalse hf =>
        obtain ⟨hall, hevents⟩ := ih hrest fun e he => h e (List.mem_append_right _ he)
        rw [if_neg hf]
        refine ⟨List.forall_mem_cons.mpr ⟨by simpa using hf, hall⟩, ?_⟩
        show stage.events ++ (execute dumpcore rest).events = _
        rw [hevents, List.flatMap_cons, List.append_assoc]

/-! ## What the programs report -/

/-- The threads of an array. -/
def threads (infos : Infos) (n : Nat) : List Thread := (List.range' 0 n).map (⟨infos, ·⟩)

theorem threads_nodup (infos : Infos) (n : Nat) : (threads infos n).Nodup :=
  List.Nodup.map (fun _ _ h => congrArg Thread.tnum h) List.nodup_range'

/-- A check that is passed comes after a loop whose calls have all been made. -/
theorem checkStage_passed {st : Statuses} {f : Routine} {call : Thread → Int32}
    {event : Thread → Int32 → Event} {infos : Infos} {n : Nat}
    (h : (checkStage st f (forThreads st call event infos n 0)).failed = false) :
    (checkStage st f (forThreads st call event infos n 0)).events
      = (threads infos n).map (event · 0) ++ [.isFailure f false] := by
  have hret : (forThreads st call event infos n 0).2 ≠ st.FAILURE := of_decide_eq_false h
  have hok : ∀ i, i < n → call ⟨infos, 0 + i⟩ = 0 := by
    intro i hi
    by_contra hne
    exact hret (forThreads_failed hi hne).1
  rw [checkStage]
  rw [decide_eq_false hret, forThreads_ok hok, threads, List.map_map]
  rfl

/-- The threads of some arrays, with the numbers of their threads. -/
def allThreads (arrays : List (Infos × Nat)) : List Thread :=
  arrays.flatMap fun a => threads a.1 a.2

/-- What the passed loops of a routine over some arrays record. -/
def loops (f : Routine) (event : Thread → Int32 → Event) (arrays : List (Infos × Nat)) :
    List Event :=
  arrays.flatMap fun a => (threads a.1 a.2).map (event · 0) ++ [.isFailure f false]

/-- The events of a run in which everything succeeds: after `pre` the threads of the arrays are
    created, joined, and the line is logged. -/
def complete (pre : List Event) (arrays : List (Infos × Nat)) : List Event :=
  pre ++ loops .create_threads .pthread_create arrays ++ loops .join_threads .pthread_join arrays
    ++ [.resultLine]

/-- What may be recorded before the first loop: allocations, and a passed check of
    `create_mutex`. -/
def Event.preliminary : Event → Bool
  | .malloc _ _ | .isFailure .create_mutex false => true
  | _ => false

/-- Different arrays have different threads. -/
theorem allThreads_nodup {arrays : List (Infos × Nat)} (h : (arrays.map Prod.fst).Nodup) :
    (allThreads arrays).Nodup := by
  refine List.nodup_flatMap.mpr ⟨fun a _ => threads_nodup a.1 a.2, ?_⟩
  refine (List.pairwise_map.mp h).imp ?_
  intro a b hne t hta htb
  obtain ⟨i, -, rfl⟩ := List.mem_map.mp hta
  obtain ⟨j, -, heq⟩ := List.mem_map.mp htb
  exact hne (congrArg Thread.infos heq).symm

/-- A complete run, which has checked no status before, creates and joins every thread once, passes
    the checks and logs its line. -/
theorem complete_succeeds {pre : List Event} {arrays : List (Infos × Nat)}
    (hnd : (arrays.map Prod.fst).Nodup) (harrays : arrays ≠ [])
    (hpre : ∀ e ∈ pre, e.preliminary = true) :
    (∀ f, f ≠ .create_mutex →
      .isFailure f false ∈ complete pre arrays ∧ .isFailure f true ∉ complete pre arrays)
    ∧ (∀ t ∈ created (complete pre arrays), (joined (complete pre arrays)).count t = 1)
    ∧ .resultLine ∈ complete pre arrays := by
  have hcreated : created (complete pre arrays) = allThreads arrays := by
    have h : created pre = [] := by
      refine List.filterMap_eq_nil_iff.mpr ?_
      intro e he
      have hp := hpre e he
      cases e <;> first | rfl | cases hp
    rw [created] at h
    simp [complete, created, loops, allThreads, h, List.filterMap_flatMap, List.filterMap_map]
  have hjoined : joined (complete pre arrays) = allThreads arrays := by
    have h : joined pre = [] := by
      refine List.filterMap_eq_nil_iff.mpr ?_
      intro e he
      have hp := hpre e he
      cases e <;> first | rfl | cases hp
    rw [joined] at h
    simp [complete, joined, loops, allThreads, h, List.filterMap_flatMap, List.filterMap_map]
  refine ⟨?_, ?_, List.mem_append_right _ (List.mem_singleton_self _)⟩
  · intro f hf
    obtain ⟨a, rest, rfl⟩ := List.exists_cons_of_ne_nil harrays
    have hno : Event.isFailure f true ∉ pre := by
      intro hmem
      have hp := hpre _ hmem
      cases f <;> cases hp
    cases f with
    | create_mutex => exact absurd rfl hf
    | create_threads | join_threads => simp [complete, loops, hno]
  · rw [hcreated, hjoined]
    intro t ht
    exact List.count_eq_one_of_mem (allThreads_nodup hnd) ht

/-- A run that fails is proper exactly if it has recorded a failed call. -/
theorem proper_of_failed {run : Run} (h : run.ending.Failed) :
    Proper run ↔ ∃ e ∈ run.events, e.failed = true := by
  constructor
  · intro hp
    exact hp.fails_iff.mp h
  · rintro ⟨e, he, hf⟩
    refine ⟨⟨fun _ => ⟨e, he, hf⟩, fun _ => h⟩, ?_⟩
    intro hnone
    rw [hnone e he] at hf
    cases hf

/-- With two different values every check is sound. -/
theorem stages_sound {st : Statuses} (hst : st.SUCCESS ≠ st.FAILURE) (r : Results) (p : Program) :
    ∀ stage ∈ stages st r p, stage.Sound := by
  have hcreate : ∀ infos n, (checkStage st .create_threads (create_threads st r infos n)).Sound :=
    fun infos n => checkStage_sound hst _ (fun _ _ => rfl) infos n
  have hjoin : ∀ infos n, (checkStage st .join_threads (join_threads st r infos n)).Sound :=
    fun infos n => checkStage_sound hst _ (fun _ _ => rfl) infos n
  have hmalloc := mallocStage_sound r
  have hmutex := createMutex_sound hst
  cases p with
  | task1 n => simp [stages, hcreate, hjoin, hmalloc]
  | task2 n => simp [stages, hcreate, hjoin, hmalloc, hmutex]
  | task4 readers writers => simp [stages, hcreate, hjoin, hmalloc]

/-- **THE CHECKS ARE RIGHT**: if `SUCCESS` and `FAILURE` were different, each `main` would fail
    exactly if a call fails, and otherwise join every thread once and log its line. -/
theorem proper_of_distinct {st : Statuses} (hst : st.SUCCESS ≠ st.FAILURE)
    (dumpcore : Option String) (p : Program) (r : Results) :
    Proper (main st dumpcore p r) := by
  have hsound := stages_sound hst r p
  refine ⟨execute_fails_iff hsound, ?_⟩
  intro hnone
  obtain ⟨hpassed, hevents⟩ := execute_succeeds hsound hnone
  suffices h : ∃ pre arrays, (arrays.map Prod.fst).Nodup ∧ arrays ≠ []
      ∧ (∀ e ∈ pre, e.preliminary = true)
      ∧ (main st dumpcore p r).events = complete pre arrays by
    obtain ⟨pre, arrays, hnd, harrays, hpre, heq⟩ := h
    rw [heq]
    exact complete_succeeds hnd harrays hpre
  rw [main, hevents]
  cases p with
  | task1 n =>
      simp only [stages, List.forall_mem_cons, create_threads, join_threads] at hpassed
      obtain ⟨-, hc, hj, -⟩ := hpassed
      refine ⟨[.malloc .tinfo (r.malloc .tinfo)], [(.tinfo, n)], by simp, by simp,
        by simp [Event.preliminary], ?_⟩
      simp [stages, create_threads, join_threads, checkStage_passed hc, checkStage_passed hj,
        complete, loops, mallocStage]
  | task2 n =>
      simp only [stages, List.forall_mem_cons, create_threads, join_threads] at hpassed
      obtain ⟨-, -, hc, hj, -⟩ := hpassed
      have hmutex : (checkStage st .create_mutex (create_mutex st)).events
          = [.isFailure .create_mutex false] := by
        simp [checkStage, create_mutex, hst]
      refine ⟨[.malloc .tinfo (r.malloc .tinfo), .isFailure .create_mutex false], [(.tinfo, n)],
        by simp, by simp, by simp [Event.preliminary], ?_⟩
      simp [stages, create_threads, join_threads, checkStage_passed hc, checkStage_passed hj,
        complete, loops, mallocStage, hmutex]
  | task4 readers writers =>
      simp only [stages, List.forall_mem_cons, create_threads, join_threads] at hpassed
      obtain ⟨-, -, hcr, hcw, hjr, hjw, -⟩ := hpassed
      refine ⟨[.malloc .rt_info (r.malloc .rt_info), .malloc .wt_info (r.malloc .wt_info)],
        [(.rt_info, readers), (.wt_info, writers)], by simp, by simp,
        by simp [Event.preliminary], ?_⟩
      simp [stages, create_threads, join_threads, checkStage_passed hcr, checkStage_passed hcw,
        checkStage_passed hjr, checkStage_passed hjw, complete, loops, mallocStage]

/-- The runs in which a call fails before the first check of `create_threads`, or in it, or in
    `task2`, whose first check is that of `create_mutex`, before this one. -/
def FailsInTime (r : Results) : Program → Prop
  | .task1 n => r.malloc .tinfo = false ∨ ∃ i, i < n ∧ r.pthread_create ⟨.tinfo, i⟩ ≠ 0
  | .task2 _ => r.malloc .tinfo = false
  | .task4 readers _ => r.malloc .rt_info = false ∨ r.malloc .wt_info = false
      ∨ ∃ i, i < readers ∧ r.pthread_create ⟨.rt_info, i⟩ ≠ 0

/-- A run that reaches a check of a result fails there. -/
theorem checkStage_fails (f : Routine) {call : Thread → Int32} {event : Thread → Int32 → Event}
    {infos : Infos} {n : Nat} :
    checkStage statuses f (forThreads statuses call event infos n 0)
      = ⟨(forThreads statuses call event infos n 0).1 ++ [.isFailure f true], true⟩ := by
  have h := @forThreads_of_eq statuses call event infos success_eq_failure n 0
  rw [checkStage]
  rw [decide_eq_true h]

/-- A failed `malloc` ends the run at once. -/
theorem execute_malloc {dumpcore : Option String} {r : Results} {infos : Infos}
    {rest : List Stage} (h : r.malloc infos = false) :
    Proper (execute dumpcore (mallocStage r infos :: rest)) := by
  have hrun : execute dumpcore (mallocStage r infos :: rest)
      = ⟨[.malloc infos false], terminate dumpcore EXIT_FAILURE true⟩ := by
    simp [execute, mallocStage, h]
  rw [hrun, proper_of_failed (terminate_failed _ _ (by decide))]
  exact ⟨_, List.mem_singleton_self _, rfl⟩

/-- What a run has recorded that fails in the check after `create_threads`. -/
theorem creates_record {st : Statuses} {r : Results} {infos : Infos} {n : Nat} {f : Routine}
    {yes : Bool} {pre : List Event} (hpre : ∀ e ∈ pre, e.failed = false) :
    (∃ e ∈ pre ++ ((create_threads st r infos n).1 ++ [.isFailure f yes]), e.failed = true)
      ↔ ∃ i, i < n ∧ r.pthread_create ⟨infos, i⟩ ≠ 0 := by
  have hrec := @forThreads_records st r.pthread_create .pthread_create infos (fun _ _ => rfl) n 0
  simp only [Nat.zero_add] at hrec
  rw [← hrec]
  constructor
  · rintro ⟨e, he, hf⟩
    rcases List.mem_append.mp he with he | he
    · rw [hpre e he] at hf
      cases hf
    · rcases List.mem_append.mp he with he | he
      · exact ⟨e, he, hf⟩
      · rw [List.mem_singleton.mp he] at hf
        cases hf
  · rintro ⟨e, he, hf⟩
    exact ⟨e, List.mem_append_right _ (List.mem_append_left _ he), hf⟩

/-- **WHEN THE PROGRAMS REPORT WHAT HAPPENED**: with the constants in force, exactly if a call fails
    before the first check of a status is over. -/
theorem proper_iff (dumpcore : Option String) (p : Program) (r : Results) :
    Proper (main statuses dumpcore p r) ↔ FailsInTime r p := by
  have hterm : (terminate dumpcore EXIT_FAILURE true).Failed := terminate_failed _ _ (by decide)
  cases p with
  | task1 n =>
      cases hm : r.malloc .tinfo with
      | false => exact iff_of_true (execute_malloc hm) (.inl hm)
      | true =>
          have hrun : main statuses dumpcore (.task1 n) r
              = ⟨[.malloc .tinfo true] ++ ((create_threads statuses r .tinfo n).1
                  ++ [.isFailure .create_threads true]), terminate dumpcore EXIT_FAILURE true⟩ := by
            simp [main, stages, execute, mallocStage, hm, create_threads, checkStage_fails]
          rw [hrun, proper_of_failed hterm, creates_record (by simp [Event.failed])]
          simp [FailsInTime, hm]
  | task2 n =>
      cases hm : r.malloc .tinfo with
      | false => exact iff_of_true (execute_malloc hm) hm
      | true =>
          -- the check of `create_mutex` fails, and no call has
          have hrun : main statuses dumpcore (.task2 n) r
              = ⟨[.malloc .tinfo true, .isFailure .create_mutex true],
                  terminate dumpcore EXIT_FAILURE true⟩ := by
            simp [main, stages, execute, mallocStage, hm, checkStage, create_mutex,
              success_eq_failure]
          rw [hrun, proper_of_failed hterm]
          simp [FailsInTime, hm, Event.failed]
  | task4 readers writers =>
      cases hr : r.malloc .rt_info with
      | false => exact iff_of_true (execute_malloc hr) (.inl hr)
      | true =>
          cases hw : r.malloc .wt_info with
          | false =>
              have hrun : main statuses dumpcore (.task4 readers writers) r
                  = ⟨[.malloc .rt_info true, .malloc .wt_info false],
                      terminate dumpcore EXIT_FAILURE true⟩ := by
                simp [main, stages, execute, mallocStage, hr, hw]
              rw [hrun, proper_of_failed hterm]
              simp [FailsInTime, hw, Event.failed]
          | true =>
              have hrun : main statuses dumpcore (.task4 readers writers) r
                  = ⟨[.malloc .rt_info true, .malloc .wt_info true]
                      ++ ((create_threads statuses r .rt_info readers).1
                        ++ [.isFailure .create_threads true]),
                      terminate dumpcore EXIT_FAILURE true⟩ := by
                simp [main, stages, execute, mallocStage, hr, hw, create_threads, checkStage_fails]
              rw [hrun, proper_of_failed hterm, creates_record (by simp [Event.failed])]
              simp [FailsInTime, hr, hw]

/-- A run of `task2` in which every call would succeed. -/
theorem task2_reports_failure :
    ¬ ∀ (dumpcore : Option String) (p : Program) (r : Results),
      Proper (main statuses dumpcore p r) := by
  intro h
  have hfails := (h none (.task2 3) ⟨fun _ => true, fun _ => 0, fun _ => 0⟩).fails_iff
  exact absurd (hfails.mp (by decide)) (by decide)

end ThreadMain
