import LinuxPrograming.TransitionProofs
import LinuxPrograming.RwLockProofs

/-!
# Readers and writers (`4-Thread/task4.c`)

A reader logs `data` a few times inside one read section; a writer counts `data` up from zero inside
one write section, with `data` as its loop counter.  A step is one call or one access to `data`.

* **`Inv`** — outside the write section `data` is settled; inside, the loop says where it is.
* **`readers_see_settled`** — a reader logs one and the same value, and never one of those in between.
-/

namespace ReadWrite

open Transition

/-! ## The program -/

def OR_NUM_THREADS : UInt32 := 5
def OW_NUM_THREADS : UInt32 := 2

/-- Where a reader is in `rt_entry`: before the call or access that the control point names. -/
inductive ReaderCtrl where
  | rdlock
  | test (i : UInt32)
  | log (i : UInt32)
  | unlock
  | done
deriving DecidableEq

/-- Where a writer is in `wt_entry`; `++data` is a read and a write. -/
inductive WriterCtrl where
  | wrlock
  | init
  | test
  | log
  | read
  | write (value : UInt32)
  | unlock
  | done
deriving DecidableEq

inductive Ctrl where
  | reader (c : ReaderCtrl)
  | writer (c : WriterCtrl)
deriving DecidableEq

/-- A line that a reader has logged.  `finished` (ghost) is the number of writers that had given the
    lock back. -/
structure Line where
  data     : UInt32
  finished : Nat
deriving DecidableEq

/-- The globals and the threads.  `logged` are the lines of each reader. -/
structure State (ι : Type) where
  rwlock   : RwLock ι
  data     : UInt32
  ctrl     : ι → Ctrl
  logged   : ι → List Line
  finished : Nat

variable {ι : Type} [DecidableEq ι]

def State.goto (s : State ι) (p : ι) (c : Ctrl) : State ι :=
  { s with ctrl := Function.update s.ctrl p c }

@[simp] theorem goto_self (s : State ι) (p : ι) (c : Ctrl) : (s.goto p c).ctrl p = c :=
  Function.update_self ..

theorem goto_ne {s : State ι} {p q : ι} {c : Ctrl} (h : q ≠ p) :
    (s.goto p c).ctrl q = s.ctrl q :=
  Function.update_of_ne h ..

/-- What is the same of the moved thread is the same of all threads. -/
theorem goto_same {s : State ι} {p : ι} {c : Ctrl} (f : Ctrl → Bool) (h : f c = f (s.ctrl p))
    (q : ι) : f ((s.goto p c).ctrl q) = f (s.ctrl q) := by
  by_cases hqp : q = p
  · subst hqp
    rw [goto_self, h]
  · rw [goto_ne hqp]

/-- The next step of a reader. -/
def rt_entry (s : State ι) (p : ι) : ReaderCtrl → Option (State ι)
  | .rdlock =>
      (s.rwlock.rdlock p).map fun l => { s.goto p (.reader (.test 0)) with rwlock := l }
  | .test i => some (s.goto p (.reader (if i < OR_NUM_THREADS then .log i else .unlock)))
  | .log i  =>
      some { s.goto p (.reader (.test (i + 1))) with
        logged := Function.update s.logged p (s.logged p ++ [⟨s.data, s.finished⟩]) }
  | .unlock => (s.rwlock.unlock p).map fun l => { s.goto p (.reader .done) with rwlock := l }
  | .done   => none

/-- The next step of a writer. -/
def wt_entry (s : State ι) (p : ι) : WriterCtrl → Option (State ι)
  | .wrlock      => (s.rwlock.wrlock p).map fun l => { s.goto p (.writer .init) with rwlock := l }
  | .init        => some { s.goto p (.writer .test) with data := 0 }
  | .test        => some (s.goto p (.writer (if s.data < OW_NUM_THREADS then .log else .unlock)))
  | .log         => some (s.goto p (.writer .read))
  | .read        => some (s.goto p (.writer (.write s.data)))
  | .write value => some { s.goto p (.writer .test) with data := value + 1 }
  | .unlock      =>
      (s.rwlock.unlock p).map fun l =>
        { s.goto p (.writer .done) with rwlock := l, finished := s.finished + 1 }
  | .done        => none

/-- One step of thread `p`. -/
def step (s : State ι) (p : ι) : Option (State ι) :=
  match s.ctrl p with
  | .reader c => rt_entry s p c
  | .writer c => wt_entry s p c

inductive Role where
  | reader
  | writer

def Role.start : Role → Ctrl
  | .reader => .reader .rdlock
  | .writer => .writer .wrlock

/-- The initialized globals, and no thread has taken a step. -/
def opening (role : ι → Role) : State ι := ⟨.free, 0, fun p => (role p).start, fun _ => [], 0⟩

/-! ## The invariant -/

/-- Inside the read section. -/
def Ctrl.reading : Ctrl → Bool
  | .reader (.test _) | .reader (.log _) | .reader .unlock => true
  | _ => false

/-- Inside the write section. -/
def Ctrl.writing : Ctrl → Bool
  | .writer .wrlock | .writer .done | .reader _ => false
  | .writer _ => true

/-- The value of `data` while nobody writes. -/
def settled (finished : Nat) : UInt32 := if finished = 0 then 0 else OW_NUM_THREADS

/-- What a writer knows of `data` in its loop. -/
def WriterCtrl.Loop (data : UInt32) : WriterCtrl → Prop
  | .test        => data ≤ OW_NUM_THREADS
  | .log | .read => data < OW_NUM_THREADS
  | .write value => value = data ∧ data < OW_NUM_THREADS
  | .unlock      => data = OW_NUM_THREADS
  | .wrlock | .init | .done => True

/-- What a thread that has logged `lines` knows of them: they are alike and show a settled value;
    inside the read section they show the present one, and before it there are none. -/
structure Lines (c : Ctrl) (data : UInt32) (finished : Nat) (lines : List Line) : Prop where
  steady  : c.reading = true → ∀ l ∈ lines, l = ⟨data, finished⟩
  none    : c = .reader .rdlock → lines = []
  alike   : ∀ l ∈ lines, ∀ l' ∈ lines, l.data = l'.data
  settled : ∀ l ∈ lines, l.data = ReadWrite.settled l.finished

/-- **The invariant.** -/
structure Inv (s : State ι) : Prop where
  guards  : s.rwlock.Guards (fun p => (s.ctrl p).reading) fun p => (s.ctrl p).writing
  settled : (∀ p, (s.ctrl p).writing = false) → s.data = ReadWrite.settled s.finished
  loop    : ∀ p c, s.ctrl p = .writer c → c.Loop s.data
  lines   : ∀ p, Lines (s.ctrl p) s.data s.finished (s.logged p)

omit [DecidableEq ι] in
/-- Outside the write section a writer knows nothing of `data`. -/
theorem loop_of_outside {c : WriterCtrl} {data : UInt32} (h : (Ctrl.writer c).writing = false) :
    c.Loop data := by
  cases c <;> trivial

/-- Outside the read section a thread knows nothing of the present `data`. -/
theorem Lines.outside {c : Ctrl} {data data' : UInt32} {finished finished' : Nat}
    {lines : List Line} (h : Lines c data finished lines) (hc : c.reading = false) :
    Lines c data' finished' lines :=
  ⟨fun hin => (by cases hc.symm.trans hin), h.none, h.alike, h.settled⟩

/-- A thread that goes on with the lines it has logged. -/
theorem Lines.goto {c c' : Ctrl} {data : UInt32} {finished : Nat} {lines : List Line}
    (h : Lines c data finished lines) (hc : c'.reading = true → c.reading = true)
    (hne : c' ≠ .reader .rdlock) : Lines c' data finished lines :=
  ⟨fun hin => h.steady (hc hin), fun heq => absurd heq hne, h.alike, h.settled⟩

namespace Inv

variable {s s' : State ι} {p : ι}

/-- While somebody reads nobody writes. -/
theorem settled_of_reading (hI : Inv s) (hp : (s.ctrl p).reading = true) :
    s.data = ReadWrite.settled s.finished :=
  hI.settled fun _ => hI.guards.no_writer (p := p) hp

/-- **What has to be checked of a step of `p`**: its own part, and that it changes `data` only inside
    the write section. -/
theorem of_move (hI : Inv s) (hctrl : ∀ q, q ≠ p → s'.ctrl q = s.ctrl q)
    (hlogged : ∀ q, q ≠ p → s'.logged q = s.logged q)
    (hkeep : (s'.data = s.data ∧ s'.finished = s.finished) ∨ (s.ctrl p).writing = true)
    (hguards : s'.rwlock.Guards (fun q => (s'.ctrl q).reading) fun q => (s'.ctrl q).writing)
    (hsettled : (∀ q, (s'.ctrl q).writing = false) → s'.data = ReadWrite.settled s'.finished)
    (hloop : ∀ c, s'.ctrl p = .writer c → c.Loop s'.data)
    (hlines : Lines (s'.ctrl p) s'.data s'.finished (s'.logged p)) : Inv s' := by
  refine ⟨hguards, hsettled, ?_, ?_⟩
  · intro q c hq
    by_cases hqp : q = p
    · subst hqp
      exact hloop c hq
    · rw [hctrl q hqp] at hq
      rcases hkeep with ⟨hdata, -⟩ | hp
      · rw [hdata]
        exact hI.loop q c hq
      -- `p` is the writer, so this one is not inside
      · refine loop_of_outside (Bool.eq_false_iff.mpr ?_)
        intro hw
        exact hqp (hI.guards.sole_writer (p := p) (q := q) hp (by rw [hq]; exact hw))
  · intro q
    by_cases hqp : q = p
    · subst hqp
      exact hlines
    · rw [hctrl q hqp, hlogged q hqp]
      rcases hkeep with ⟨hdata, hfinished⟩ | hp
      · rw [hdata, hfinished]
        exact hI.lines q
      · exact (hI.lines q).outside (hI.guards.no_reader (p := p) (q := q) hp)

/-- A move to `c` inside the section that the thread is in already. -/
theorem guards_goto (hI : Inv s) {c : Ctrl} (hr : c.reading = (s.ctrl p).reading)
    (hw : c.writing = (s.ctrl p).writing) :
    s.rwlock.Guards (fun q => ((s.goto p c).ctrl q).reading)
      fun q => ((s.goto p c).ctrl q).writing :=
  hI.guards.keep (goto_same Ctrl.reading hr) (goto_same Ctrl.writing hw)

/-- A reader that goes on inside its section. -/
theorem reader_goto (hI : Inv s) {c d : ReaderCtrl} (hc : s.ctrl p = .reader c)
    (hin : (Ctrl.reader c).reading = true) (hd : (Ctrl.reader d).reading = true) :
    Inv (s.goto p (.reader d)) := by
  have hreading : (s.ctrl p).reading = true := by rw [hc, hin]
  refine hI.of_move (p := p) (fun q hq => goto_ne hq) (fun _ _ => rfl) (Or.inl ⟨rfl, rfl⟩)
    (hI.guards_goto (by rw [hreading, hd]) (by rw [hc]; rfl))
    (fun _ => hI.settled_of_reading hreading) ?_ ?_
  · intro e he
    cases (goto_self ..).symm.trans he
  · rw [goto_self]
    refine (hI.lines p).goto (fun _ => hreading) ?_
    rintro heq
    cases heq
    cases hd

/-- **A step of a reader keeps the invariant.** -/
theorem rt_step (hI : Inv s) {c : ReaderCtrl} (hc : s.ctrl p = .reader c)
    (h : rt_entry s p c = some s') : Inv s' := by
  have hlines := hI.lines p
  rw [hc] at hlines
  cases c with
  | rdlock =>
      obtain ⟨l, hl, rfl⟩ := Option.map_eq_some_iff.mp h
      have hguards : l.Guards (fun q => ((s.goto p (.reader (.test 0))).ctrl q).reading)
          fun q => ((s.goto p (.reader (.test 0))).ctrl q).writing :=
        hI.guards.rdlock (p := p) hl (by rw [hc]; rfl) (by rw [goto_self]; rfl)
          (fun q hq => by rw [goto_ne hq]) (goto_same Ctrl.writing (by rw [hc]; rfl))
      refine hI.of_move (p := p) (fun q hq => goto_ne hq) (fun _ _ => rfl) (Or.inl ⟨rfl, rfl⟩)
        hguards ?_ ?_ ?_
      · intro hout
        refine hI.settled ?_
        intro q
        rw [← goto_same (p := p) (c := .reader (.test 0)) Ctrl.writing (by rw [hc]; rfl) q]
        exact hout q
      · intro d hd
        cases (goto_self ..).symm.trans hd
      · show Lines _ s.data s.finished (s.logged p)
        rw [hlines.none rfl]
        exact ⟨fun _ l hl => (by cases hl), fun _ => rfl, fun l hl => (by cases hl),
          fun l hl => (by cases hl)⟩
  | test i =>
      cases h
      by_cases hlt : i < OR_NUM_THREADS
      · rw [if_pos hlt]
        exact hI.reader_goto hc rfl rfl
      · rw [if_neg hlt]
        exact hI.reader_goto hc rfl rfl
  | log i =>
      cases h
      have hreading : (s.ctrl p).reading = true := by rw [hc]; rfl
      refine hI.of_move (p := p) (fun q hq => goto_ne hq) (fun q hq => Function.update_of_ne hq ..)
        (Or.inl ⟨rfl, rfl⟩) (hI.guards_goto (by rw [hc]; rfl) (by rw [hc]; rfl))
        (fun _ => hI.settled_of_reading hreading) ?_ ?_
      · intro d hd
        cases (goto_self ..).symm.trans hd
      -- the new line is like the earlier ones: all show the present value
      · have hall : ∀ l ∈ s.logged p ++ [⟨s.data, s.finished⟩], l = ⟨s.data, s.finished⟩ := by
          intro l hl
          rcases List.mem_append.mp hl with hl | hl
          · exact hlines.steady rfl l hl
          · exact List.mem_singleton.mp hl
        simp only [goto_self, Function.update_self]
        refine ⟨fun _ => hall, fun heq => (by cases heq), ?_, ?_⟩
        · intro l hl l' hl'
          rw [hall l hl, hall l' hl']
        · intro l hl
          rw [hall l hl]
          exact hI.settled_of_reading hreading
  | unlock =>
      obtain ⟨l, hl, rfl⟩ := Option.map_eq_some_iff.mp h
      have hreading : (s.ctrl p).reading = true := by rw [hc]; rfl
      have hguards : l.Guards (fun q => ((s.goto p (.reader .done)).ctrl q).reading)
          fun q => ((s.goto p (.reader .done)).ctrl q).writing :=
        hI.guards.unlock_reader (p := p) hl hreading (by rw [goto_self]; rfl)
          (fun q hq => by rw [goto_ne hq]) (goto_same Ctrl.writing (by rw [hc]; rfl))
      refine hI.of_move (p := p) (fun q hq => goto_ne hq) (fun _ _ => rfl) (Or.inl ⟨rfl, rfl⟩)
        hguards (fun _ => hI.settled_of_reading hreading) ?_ ?_
      · intro d hd
        cases (goto_self ..).symm.trans hd
      · rw [goto_self]
        exact hlines.goto (fun hin => (by cases hin)) (fun heq => (by cases heq))
  | done => cases h

/-- A writer that goes on inside its section; it may change `data`. -/
theorem writer_goto (hI : Inv s) {c d : WriterCtrl} {data : UInt32} (hc : s.ctrl p = .writer c)
    (hin : (Ctrl.writer c).writing = true) (hd : (Ctrl.writer d).writing = true)
    (hloop : d.Loop data) : Inv { s.goto p (.writer d) with data := data } := by
  have hwriting : (s.ctrl p).writing = true := by rw [hc, hin]
  refine hI.of_move (p := p) (fun q hq => goto_ne hq) (fun _ _ => rfl) (Or.inr hwriting)
    (hI.guards_goto (by rw [hc]; rfl) (by rw [hwriting, hd])) ?_ ?_ ?_
  · intro hout
    cases (hout p).symm.trans ((congrArg Ctrl.writing (goto_self ..)).trans hd)
  · intro e he
    cases (goto_self ..).symm.trans he
    exact hloop
  · refine Lines.goto (c := s.ctrl p) ((hI.lines p).outside (by rw [hc]; rfl)) ?_ ?_
    · rw [goto_self]
      rintro heq
      cases heq
    · rw [goto_self]
      rintro heq
      cases heq

/-- **A step of a writer keeps the invariant.** -/
theorem wt_step (hI : Inv s) {c : WriterCtrl} (hc : s.ctrl p = .writer c)
    (h : wt_entry s p c = some s') : Inv s' := by
  have hloop := hI.loop p c hc
  cases c with
  | wrlock =>
      obtain ⟨l, hl, rfl⟩ := Option.map_eq_some_iff.mp h
      have hguards : l.Guards (fun q => ((s.goto p (.writer .init)).ctrl q).reading)
          fun q => ((s.goto p (.writer .init)).ctrl q).writing :=
        hI.guards.wrlock (p := p) hl (by rw [goto_self]; rfl) (fun q hq => by rw [goto_ne hq])
          (goto_same Ctrl.reading (by rw [hc]; rfl))
      refine hI.of_move (p := p) (fun q hq => goto_ne hq) (fun _ _ => rfl) (Or.inl ⟨rfl, rfl⟩)
        hguards ?_ ?_ ?_
      · intro hout
        cases (hout p).symm.trans (congrArg Ctrl.writing (goto_self ..))
      · intro d hd
        cases (goto_self ..).symm.trans hd
        trivial
      · rw [goto_self]
        exact (hI.lines p).goto (fun hin => (by cases hin)) (fun heq => (by cases heq))
  | init =>
      cases h
      exact hI.writer_goto hc rfl rfl (show (0 : UInt32) ≤ OW_NUM_THREADS by decide)
  | test =>
      cases h
      by_cases hlt : s.data < OW_NUM_THREADS
      · rw [if_pos hlt]
        exact hI.writer_goto hc rfl rfl hlt
      · rw [if_neg hlt]
        exact hI.writer_goto hc rfl rfl (UInt32.le_antisymm hloop (UInt32.not_lt.mp hlt))
  | log =>
      cases h
      exact hI.writer_goto hc rfl rfl hloop
  | read =>
      cases h
      exact hI.writer_goto hc rfl rfl ⟨rfl, hloop⟩
  | write value =>
      cases h
      obtain ⟨rfl, hlt⟩ := hloop
      refine hI.writer_goto hc rfl rfl ?_
      show s.data + 1 ≤ OW_NUM_THREADS
      rw [UInt32.le_iff_toNat_le, UInt32.toNat_add, UInt32.toNat_one]
      exact Nat.le_trans (Nat.mod_le _ _) (UInt32.lt_iff_toNat_lt.mp hlt)
  | unlock =>
      obtain ⟨l, hl, rfl⟩ := Option.map_eq_some_iff.mp h
      have hwriting : (s.ctrl p).writing = true := by rw [hc]; rfl
      have hguards : l.Guards (fun q => ((s.goto p (.writer .done)).ctrl q).reading)
          fun q => ((s.goto p (.writer .done)).ctrl q).writing :=
        hI.guards.unlock_writer (p := p) hl hwriting (by rw [goto_self]; rfl)
          (fun q hq => by rw [goto_ne hq]) (goto_same Ctrl.reading (by rw [hc]; rfl))
      refine hI.of_move (p := p) (fun q hq => goto_ne hq) (fun _ _ => rfl) (Or.inr hwriting)
        hguards (fun _ => hloop) ?_ ?_
      · intro d hd
        cases (goto_self ..).symm.trans hd
        trivial
      · rw [goto_self]
        exact ((hI.lines p).outside (by rw [hc]; rfl)).goto (fun hin => (by cases hin))
          (fun heq => (by cases heq))
  | done => cases h

/-- **A step of any thread keeps the invariant.** -/
theorem step (hI : Inv s) (h : ReadWrite.step s p = some s') : Inv s' := by
  cases hc : s.ctrl p with
  | reader c => rw [ReadWrite.step, hc] at h; exact hI.rt_step hc h
  | writer c => rw [ReadWrite.step, hc] at h; exact hI.wt_step hc h

theorem opening (role : ι → Role) : Inv (opening role) := by
  have hout : ∀ p, (role p).start.reading = false ∧ (role p).start.writing = false := by
    intro p
    cases role p <;> exact ⟨rfl, rfl⟩
  refine ⟨RwLock.Guards.free.keep (fun q => (hout q).1) (fun q => (hout q).2), fun _ => rfl, ?_, ?_⟩
  · intro p c hp
    refine loop_of_outside ?_
    rw [← hp]
    exact (hout p).2
  · intro p
    exact ⟨fun _ l hl => (by cases hl), fun _ => rfl, fun l hl => (by cases hl),
      fun l hl => (by cases hl)⟩

end Inv

/-! ## What the readers see -/

/-- **READERS SEE SETTLED VALUES ONLY.**  All lines of a reader show one value of `data`: the
    initial `0` if no writer had given the lock back, else `OW_NUM_THREADS`. -/
theorem readers_see_settled {role : ι → Role} {s : State ι} (h : Reachable step (opening role) s)
    (p : ι) : (∀ l ∈ s.logged p, ∀ l' ∈ s.logged p, l.data = l'.data) ∧
      ∀ l ∈ s.logged p, l.data = if l.finished = 0 then 0 else OW_NUM_THREADS := by
  have hI : Inv s := h.invariant (Inv.opening role) fun _ _ _ hI _ hs => hI.step hs
  exact ⟨(hI.lines p).alike, (hI.lines p).settled⟩

/-- One writer between two readers. -/
def readerWriterReader : Fin 3 → Role := fun p => if p = 1 then .writer else .reader

/-- The theorem when the second reader, which had to wait for the writer, has logged three lines. -/
theorem readers_see_settled_between : ∃ s, Reachable step (opening readerWriterReader) s ∧
    (s.logged 0).map Line.data = [0, 0, 0, 0, 0] ∧ (s.logged 2).map Line.data = [2, 2, 2] ∧
    ∀ l ∈ s.logged 2, l.data = if l.finished = 0 then 0 else OW_NUM_THREADS := by
  obtain ⟨s, hs, hf⟩ : ∃ s, Reachable step (opening readerWriterReader) s ∧
      ((s.logged 0).map Line.data, (s.logged 2).map Line.data) = ([0, 0, 0, 0, 0], [2, 2, 2]) :=
    reachable_of_run_map _ _ (List.replicate 13 0 ++ List.replicate 12 1 ++ List.replicate 7 2) _
      (by decide +kernel)
  simp only [Prod.mk.injEq] at hf
  exact ⟨s, hs, hf.1, hf.2, (readers_see_settled hs 2).2⟩

end ReadWrite
