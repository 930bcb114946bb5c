import LinuxPrograming.ReadWriteProofs

/-!
# The readers and writers come to an end (`4-Thread/task4.c`)

* **`Moved`** — what a step does to the thread that takes it, and that it leaves the others alone.
* **`readers_writers_complete`** — a thread takes at most 13 steps, there is no deadlock, and in
  the end each reader has logged its lines and `data` is what a writer leaves.
-/

namespace ReadWrite

open Transition

variable {ι : Type}

/-! ## What is left to do -/

/-- The steps that a reader has left. -/
def ReaderCtrl.weight : ReaderCtrl → Nat
  | .rdlock => 2 * OR_NUM_THREADS.toNat + 3
  | .test i => 2 * (OR_NUM_THREADS.toNat - i.toNat) + 2
  | .log i  => 2 * (OR_NUM_THREADS.toNat - i.toNat) + 1
  | .unlock => 1
  | .done   => 0

/-- The steps that a writer has left. -/
def WriterCtrl.weight (data : UInt32) : WriterCtrl → Nat
  | .wrlock  => 4 * OW_NUM_THREADS.toNat + 4
  | .init    => 4 * OW_NUM_THREADS.toNat + 3
  | .test    => 4 * (OW_NUM_THREADS.toNat - data.toNat) + 2
  | .log     => 4 * (OW_NUM_THREADS.toNat - data.toNat) + 1
  | .read    => 4 * (OW_NUM_THREADS.toNat - data.toNat)
  | .write _ => 4 * (OW_NUM_THREADS.toNat - data.toNat) - 1
  | .unlock  => 1
  | .done    => 0

def Ctrl.weight (data : UInt32) : Ctrl → Nat
  | .reader c => c.weight
  | .writer c => c.weight data

def State.weight (s : State ι) (p : ι) : Nat := (s.ctrl p).weight s.data

/-- Outside the write section it does not depend on `data`. -/
theorem Ctrl.weight_outside {c : Ctrl} (h : c.writing = false) (data data' : UInt32) :
    c.weight data = c.weight data' := by
  cases c with
  | reader c => rfl
  | writer c =>
      cases c with
      | wrlock => rfl
      | done => rfl
      | _ => cases h

/-- At the control point a reader has logged `lines` lines. -/
def ReaderCtrl.Count (lines : Nat) : ReaderCtrl → Prop
  | .rdlock => lines = 0
  | .test i => lines = i.toNat ∧ i ≤ OR_NUM_THREADS
  | .log i  => lines = i.toNat ∧ i < OR_NUM_THREADS
  | .unlock | .done => lines = OR_NUM_THREADS.toNat

def Ctrl.role : Ctrl → Role
  | .reader _ => .reader
  | .writer _ => .writer

/-- Where a thread ends. -/
def Role.finish : Role → Ctrl
  | .reader => .reader .done
  | .writer => .writer .done

/-- **What the progress rests on.** -/
structure Progress [DecidableEq ι] (role : ι → Role) (s : State ι) : Prop where
  inv      : Inv s
  role     : ∀ p, (s.ctrl p).role = role p
  count    : ∀ p c, s.ctrl p = .reader c → c.Count (s.logged p).length
  finished : s.finished = 0 ↔ ∀ p, s.ctrl p ≠ .writer .done

/-- What a step of `p` does. -/
structure Moved (s : State ι) (p : ι) (s' : State ι) : Prop where
  ctrl     : ∀ q, q ≠ p → s'.ctrl q = s.ctrl q
  logged   : ∀ q, q ≠ p → s'.logged q = s.logged q
  data     : (s.ctrl p).writing = false → s'.data = s.data
  role     : (s'.ctrl p).role = (s.ctrl p).role
  count    : ∀ c, s'.ctrl p = .reader c → c.Count (s'.logged p).length
  finished : s'.finished = s.finished + if s'.ctrl p = .writer .done then 1 else 0
  weight   : s'.weight p + 1 = s.weight p

variable [DecidableEq ι] {role : ι → Role} {s s' : State ι} {p : ι}

theorem weight_goto (s : State ι) (p : ι) (c : Ctrl) : (s.goto p c).weight p = c.weight s.data :=
  congrArg (Ctrl.weight s.data) (goto_self ..)

/-- A reader moves on, and logs nothing. -/
theorem Moved.reader {c d : ReaderCtrl} (hc : s.ctrl p = .reader c)
    (hcount : d.Count (s.logged p).length) (hless : d.weight + 1 = c.weight) (l : RwLock ι) :
    Moved s p { s.goto p (.reader d) with rwlock := l } where
  ctrl     := fun _ hq => goto_ne hq
  logged   := fun _ _ => rfl
  data     := fun _ => rfl
  role     := by
    show ((s.goto p (.reader d)).ctrl p).role = (s.ctrl p).role
    rw [goto_self, hc]
    rfl
  count    := by
    intro e he
    cases (goto_self ..).symm.trans he
    exact hcount
  finished := by
    show s.finished = s.finished + if (s.goto p (.reader d)).ctrl p = .writer .done then 1 else 0
    rw [goto_self, if_neg fun h => (by cases h), Nat.add_zero]
  weight   := by
    show (s.goto p (.reader d)).weight p + 1 = s.weight p
    rw [weight_goto, State.weight, hc]
    exact hless

/-- **A step of a reader.** -/
theorem Moved.rt_step {c : ReaderCtrl} (hcount : c.Count (s.logged p).length)
    (hc : s.ctrl p = .reader c) (h : rt_entry s p c = some s') : Moved s p s' := by
  cases c with
  | rdlock =>
      obtain ⟨l, -, rfl⟩ := Option.map_eq_some_iff.mp h
      exact .reader (d := .test 0) hc ⟨hcount, UInt32.le_iff_toNat_le.mpr (Nat.zero_le _)⟩ rfl l
  | test i =>
      obtain ⟨hlines, hle⟩ := hcount
      cases h
      by_cases hlt : i < OR_NUM_THREADS
      · rw [if_pos hlt]
        exact .reader (d := .log i) hc ⟨hlines, hlt⟩ rfl s.rwlock
      · rw [if_neg hlt]
        have hend : i = OR_NUM_THREADS := UInt32.le_antisymm hle (UInt32.not_lt.mp hlt)
        subst hend
        exact .reader (d := .unlock) hc hlines (by decide) s.rwlock
  | log i =>
      obtain ⟨hlines, hlt⟩ := hcount
      cases h
      have hlt' : i.toNat < 5 := UInt32.lt_iff_toNat_lt.mp hlt
      have hsucc : (i + 1).toNat = i.toNat + 1 := by
        rw [UInt32.toNat_add, UInt32.toNat_one]
        omega
      refine ⟨fun _ hq => goto_ne hq, fun _ hq => Function.update_of_ne hq .., fun _ => rfl,
        ?_, ?_, ?_, ?_⟩
      · show ((s.goto p (.reader (.test (i + 1)))).ctrl p).role = (s.ctrl p).role
        rw [goto_self, hc]
        rfl
      · intro e he
        cases (goto_self ..).symm.trans he
        show (Function.update s.logged p _ p).length = (i + 1).toNat ∧ i + 1 ≤ OR_NUM_THREADS
        rw [Function.update_self, List.length_append, hlines, hsucc]
        refine ⟨rfl, UInt32.le_iff_toNat_le.mpr ?_⟩
        rw [hsucc]
        exact hlt'
      · show s.finished = s.finished + if (s.goto p _).ctrl p = .writer .done then 1 else 0
        rw [goto_self, if_neg fun h => (by cases h), Nat.add_zero]
      · show (s.goto p (.reader (.test (i + 1)))).weight p + 1 = s.weight p
        rw [weight_goto, State.weight, hc]
        show 2 * (5 - (i + 1).toNat) + 2 + 1 = 2 * (5 - i.toNat) + 1
        omega
  | unlock =>
      obtain ⟨l, -, rfl⟩ := Option.map_eq_some_iff.mp h
      exact .reader (d := .done) hc hcount rfl l
  | done => cases h

/-- A writer moves on. -/
theorem Moved.writer {c d : WriterCtrl} {data : UInt32} {l : RwLock ι} {finished : Nat}
    (hc : s.ctrl p = .writer c) (hless : d.weight data + 1 = c.weight s.data)
    (hdata : (Ctrl.writer c).writing = false → data = s.data)
    (hfinished : finished = s.finished + if d = .done then 1 else 0) :
    Moved s p { s.goto p (.writer d) with rwlock := l, data, finished } where
  ctrl     := fun _ hq => goto_ne hq
  logged   := fun _ _ => rfl
  data     := by
    rw [hc]
    exact hdata
  role     := by
    show ((s.goto p (.writer d)).ctrl p).role = (s.ctrl p).role
    rw [goto_self, hc]
    rfl
  count    := by
    intro e he
    cases (goto_self ..).symm.trans he
  finished := by
    show finished = s.finished + if (s.goto p (.writer d)).ctrl p = .writer .done then 1 else 0
    rw [goto_self, hfinished]
    exact congrArg _ (if_congr (by simp) rfl rfl)
  weight   := by
    show ((s.goto p (.writer d)).ctrl p).weight data + 1 = (s.ctrl p).weight s.data
    rw [goto_self, hc]
    exact hless

/-- **A step of a writer.** -/
theorem Moved.wt_step {c : WriterCtrl} (hloop : c.Loop s.data) (hc : s.ctrl p = .writer c)
    (h : wt_entry s p c = some s') : Moved s p s' := by
  cases c with
  | wrlock =>
      obtain ⟨l, -, rfl⟩ := Option.map_eq_some_iff.mp h
      exact .writer (d := .init) hc rfl (fun _ => rfl) rfl
  | init =>
      cases h
      exact .writer (d := .test) hc rfl (fun h => (by cases h)) rfl
  | test =>
      cases h
      by_cases hlt : s.data < OW_NUM_THREADS
      · rw [if_pos hlt]
        exact .writer (d := .log) hc rfl (fun _ => rfl) rfl
      · rw [if_neg hlt]
        have hend : s.data = OW_NUM_THREADS := UInt32.le_antisymm hloop (UInt32.not_lt.mp hlt)
        refine .writer (d := .unlock) hc ?_ (fun _ => rfl) rfl
        rw [hend]
        decide
  | log =>
      cases h
      exact .writer (d := .read) hc rfl (fun _ => rfl) rfl
  | read =>
      cases h
      refine .writer (d := .write s.data) hc ?_ (fun _ => rfl) rfl
      have hlt : s.data.toNat < 2 := UInt32.lt_iff_toNat_lt.mp hloop
      show 4 * (2 - s.data.toNat) - 1 + 1 = 4 * (2 - s.data.toNat)
      omega
  | write value =>
      cases h
      obtain ⟨rfl, hlt⟩ := hloop
      refine .writer (d := .test) hc ?_ (fun h => (by cases h)) rfl
      have hlt : s.data.toNat < 2 := UInt32.lt_iff_toNat_lt.mp hlt
      have hsucc : (s.data + 1).toNat = s.data.toNat + 1 := by
        rw [UInt32.toNat_add, UInt32.toNat_one]
        omega
      show 4 * (2 - (s.data + 1).toNat) + 2 + 1 = 4 * (2 - s.data.toNat) - 1
      omega
  | unlock =>
      obtain ⟨l, -, rfl⟩ := Option.map_eq_some_iff.mp h
      exact .writer (d := .done) hc rfl (fun h => (by cases h)) rfl
  | done => cases h

/-! ## Runs -/

theorem Progress.moved (hP : Progress role s) (h : step s p = some s') : Moved s p s' := by
  rw [step] at h
  cases hc : s.ctrl p with
  | reader c =>
      rw [hc] at h
      exact .rt_step (hP.count p c hc) hc h
  | writer c =>
      rw [hc] at h
      exact .wt_step (hP.inv.loop p c hc) hc h

theorem Progress.step (hP : Progress role s) (h : ReadWrite.step s p = some s') :
    Progress role s' := by
  have hM := hP.moved h
  refine ⟨hP.inv.step h, ?_, ?_, ?_⟩
  · intro q
    by_cases hq : q = p
    · subst hq
      rw [hM.role]
      exact hP.role q
    · rw [hM.ctrl q hq]
      exact hP.role q
  · intro q c hc
    by_cases hq : q = p
    · subst hq
      exact hM.count c hc
    · rw [hM.ctrl q hq] at hc
      rw [hM.logged q hq]
      exact hP.count q c hc
  · rw [hM.finished, Nat.add_eq_zero_iff, hP.finished]
    have hp : s.ctrl p ≠ .writer .done := by
      intro hdone
      have hweight := hM.weight
      rw [State.weight.eq_1 s, hdone] at hweight
      cases hweight
    constructor
    · rintro ⟨hall, hif⟩ q
      by_cases hq : q = p
      · subst hq
        intro hdone
        rw [if_pos hdone] at hif
        cases hif
      · rw [hM.ctrl q hq]
        exact hall q
    · intro hall
      refine ⟨?_, if_neg (hall p)⟩
      intro q
      by_cases hq : q = p
      · subst hq
        exact hp
      · rw [← hM.ctrl q hq]
        exact hall q

theorem Progress.opening (role : ι → Role) : Progress role (opening role) where
  inv      := Inv.opening role
  role     := by
    intro p
    show (role p).start.role = role p
    cases role p <;> rfl
  count    := by
    intro p c hc
    change (role p).start = .reader c at hc
    cases hr : role p with
    | reader =>
        rw [hr] at hc
        cases hc
        rfl
    | writer =>
        rw [hr] at hc
        cases hc
  finished := by
    refine iff_of_true rfl ?_
    intro p
    show (role p).start ≠ .writer .done
    cases role p <;> exact fun h => (by cases h)

/-- The other threads have as much left to do as before. -/
theorem Progress.weight_other (hP : Progress role s) (h : ReadWrite.step s p = some s') {q : ι}
    (hq : q ≠ p) : s'.weight q = s.weight q := by
  have hM := hP.moved h
  rw [State.weight, State.weight, hM.ctrl q hq]
  cases hw : (s.ctrl p).writing with
  | false => rw [hM.data hw]
  | true =>
      -- `p` is the only writer inside
      refine Ctrl.weight_outside (Bool.eq_false_iff.mpr ?_) ..
      intro hqw
      exact hq (hP.inv.guards.sole_writer (p := p) (q := q) hw hqw)

/-- The holders of the lock can give it back. -/
theorem Inv.unlock_enabled (hI : Inv s)
    (hp : (s.ctrl p).reading = true ∨ (s.ctrl p).writing = true) :
    s.rwlock.unlock p ≠ none := by
  rw [RwLock.unlock]
  by_cases hw : s.rwlock.writer = some p
  · rw [if_pos hw]
    exact fun h => (by cases h)
  · have hreading := hp.resolve_right fun h => hw ((hI.guards.sole p).mp h)
    have hmem : p ∈ s.rwlock.readers := by
      refine List.count_pos_iff.mp ?_
      rw [hI.guards.shared p, hreading]
      exact Nat.one_pos
    rw [if_neg hw, if_pos hmem]
    exact fun h => (by cases h)

/-- When no thread can move, nobody is inside. -/
theorem Inv.outside_of_stuck (hI : Inv s) (hstuck : ∀ p, ReadWrite.step s p = none) (p : ι) :
    (s.ctrl p).reading = false ∧ (s.ctrl p).writing = false := by
  have hnone := hstuck p
  have hunlock := hI.unlock_enabled (p := p)
  rw [ReadWrite.step] at hnone
  cases hc : s.ctrl p with
  | reader c =>
      rw [hc] at hnone hunlock
      cases c with
      | rdlock => exact ⟨rfl, rfl⟩
      | done => exact ⟨rfl, rfl⟩
      | unlock => exact absurd (Option.map_eq_none_iff.mp hnone) (hunlock (Or.inl rfl))
      | _ => cases hnone
  | writer c =>
      rw [hc] at hnone hunlock
      cases c with
      | wrlock => exact ⟨rfl, rfl⟩
      | done => exact ⟨rfl, rfl⟩
      | unlock => exact absurd (Option.map_eq_none_iff.mp hnone) (hunlock (Or.inr rfl))
      | _ => cases hnone

/-- When no thread can move, all have finished. -/
theorem Progress.done_of_stuck (hP : Progress role s) (hstuck : ∀ p, ReadWrite.step s p = none)
    (p : ι) : s.ctrl p = (role p).finish := by
  have hout := hP.inv.outside_of_stuck hstuck
  have hwriter : s.rwlock.writer = none := by
    cases hw : s.rwlock.writer with
    | none => rfl
    | some q => cases ((hP.inv.guards.sole q).mpr hw).symm.trans (hout q).2
  have hreaders : s.rwlock.readers = [] := by
    refine List.eq_nil_iff_forall_not_mem.mpr ?_
    intro q hq
    have hcount := List.count_pos_iff.mpr hq
    rw [hP.inv.guards.shared q, (hout q).1] at hcount
    cases hcount
  have hnone := hstuck p
  have hin := hout p
  have hrole := hP.role p
  rw [ReadWrite.step] at hnone
  cases hc : s.ctrl p with
  | reader c =>
      rw [hc] at hnone hin hrole
      rw [← hrole]
      cases c with
      | rdlock =>
          have hlock := Option.map_eq_none_iff.mp hnone
          rw [RwLock.rdlock, if_pos hwriter] at hlock
          cases hlock
      | done => rfl
      | _ => cases hin.1
  | writer c =>
      rw [hc] at hnone hin hrole
      rw [← hrole]
      cases c with
      | wrlock =>
          have hlock := Option.map_eq_none_iff.mp hnone
          rw [RwLock.wrlock, if_pos ⟨hwriter, hreaders⟩] at hlock
          cases hlock
      | done => rfl
      | _ => cases hin.2

/-- **ALL THREADS FINISH.**  In every order a thread takes at most 13 steps.  When no thread can
    move, all have finished, each reader has logged `OR_NUM_THREADS` lines, and `data` is
    `OW_NUM_THREADS` if there is a writer, and else `0`. -/
theorem readers_writers_complete {ps : List ι}
    (h : run ReadWrite.step (opening role) ps = some s) :
    (∀ p, ps.count p ≤ 13) ∧
      ((∀ p, ReadWrite.step s p = none) →
        (∀ p, s.ctrl p = (role p).finish) ∧
        (∀ p, role p = .reader → (s.logged p).length = OR_NUM_THREADS.toNat) ∧
        ((∃ p, role p = .writer) → s.data = OW_NUM_THREADS) ∧
        ((∀ p, role p = .reader) → s.data = 0)) := by
  have hP : Progress role s := (reachable_of_run h).invariant (Progress.opening role)
    fun _ _ _ hP _ hs => hP.step hs
  refine ⟨?_, fun hstuck => ?_⟩
  · intro p
    have hcount := count_of_run (Progress role) State.weight (fun _ _ _ hP hs => hP.step hs)
      (fun _ _ _ hP hs => (hP.moved hs).weight) (fun _ _ _ _ hP hs hq => hP.weight_other hs hq)
      (Progress.opening role) h p
    have hstart : (ReadWrite.opening role).weight p ≤ 13 := by
      show (role p).start.weight 0 ≤ 13
      cases role p <;> decide
    omega
  · have hdone := hP.done_of_stuck hstuck
    have hdata : s.data = settled s.finished :=
      hP.inv.settled fun p => (hP.inv.outside_of_stuck hstuck p).2
    refine ⟨hdone, ?_, ?_, ?_⟩
    · intro p hp
      exact hP.count p .done (by rw [hdone p, hp]; rfl)
    · rintro ⟨p, hp⟩
      have hne : s.finished ≠ 0 := by
        intro hzero
        exact hP.finished.mp hzero p (by rw [hdone p, hp]; rfl)
      rw [hdata, settled, if_neg hne]
    · intro hall
      have hzero : s.finished = 0 := by
        refine hP.finished.mpr fun p => ?_
        rw [hdone p, hall p]
        exact fun h => (by cases h)
      rw [hdata, hzero]
      rfl

/-- The theorem for a writer between two readers. -/
theorem readers_writers_complete_between : ∃ s,
    run ReadWrite.step (opening readerWriterReader)
      (List.replicate 13 0 ++ List.replicate 12 1 ++ List.replicate 13 2) = some s ∧
    (∀ p, ReadWrite.step s p = none) ∧ s.data = OW_NUM_THREADS := by
  obtain ⟨s, hs, hnone⟩ := Option.map_eq_some_iff.mp
    (show (run ReadWrite.step (opening readerWriterReader)
        (List.replicate 13 0 ++ List.replicate 12 1 ++ List.replicate 13 2)).map
        (fun s => decide (∀ p, (ReadWrite.step s p).isNone = true)) = some true by decide +kernel)
  have hstuck : ∀ p, ReadWrite.step s p = none := fun p =>
    Option.isNone_iff_eq_none.mp (of_decide_eq_true hnone p)
  exact ⟨s, hs, hstuck, ((readers_writers_complete hs).2 hstuck).2.2.1 ⟨1, rfl⟩⟩

end ReadWrite
