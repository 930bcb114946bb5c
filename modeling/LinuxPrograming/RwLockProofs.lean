import Mathlib.Logic.Function.Basic

/-!
# Readers-writer locks

A readers-writer lock together with the threads that hold it.  A reader gets it while no writer has
it, a writer while nobody has it; which of several waiting threads comes first is left open.  That
a writer excludes the readers is a field, so no other lock can be built.

* **`Guards`** — exactly the threads in the read section and in the write section hold the lock;
  `rdlock`, `wrlock`, `unlock_reader`, `unlock_writer` and `keep` are its rules.
* **`no_reader`**, **`no_writer`**, **`sole_writer`** — what the lock is for.
-/

/-- A readers-writer lock and its holders. -/
structure RwLock (ι : Type) where
  readers : List ι
  writer  : Option ι
  excl    : writer ≠ none → readers = []

namespace RwLock

variable {ι : Type} [DecidableEq ι]

/-- Nobody holds the lock. -/
def free : RwLock ι := ⟨[], none, fun h => absurd rfl h⟩

/-- `p` gets the lock for reading; it has to wait while a writer has it. -/
def rdlock (l : RwLock ι) (p : ι) : Option (RwLock ι) :=
  if l.writer = none then some ⟨p :: l.readers, none, fun h => absurd rfl h⟩ else none

/-- `p` gets the lock for writing; it has to wait while anybody has it. -/
def wrlock (l : RwLock ι) (p : ι) : Option (RwLock ι) :=
  if l.writer = none ∧ l.readers = [] then some ⟨[], some p, fun _ => rfl⟩ else none

/-- `p` gives back what it holds. -/
def unlock (l : RwLock ι) (p : ι) : Option (RwLock ι) :=
  if l.writer = some p then some free
  else if p ∈ l.readers then
    some ⟨l.readers.erase p, l.writer, fun h => by rw [l.excl h]; rfl⟩
  else none

/-- The lock is held by exactly the threads in the two sections, by a reader once. -/
structure Guards (l : RwLock ι) (reading writing : ι → Bool) : Prop where
  shared : ∀ p, l.readers.count p = (reading p).toNat
  sole   : ∀ p, writing p = true ↔ l.writer = some p

namespace Guards

variable {l l' : RwLock ι} {reading writing reading' writing' : ι → Bool} {p q : ι}

theorem free : Guards (free : RwLock ι) (fun _ => false) fun _ => false where
  shared := fun _ => rfl
  sole   := fun _ => iff_of_false (by simp) (by simp [RwLock.free])

/-- **A writer excludes the readers.** -/
theorem no_reader (hG : Guards l reading writing) (hp : writing p = true) :
    reading q = false := by
  have hnone : l.readers = [] := l.excl (by rw [(hG.sole p).mp hp]; simp)
  have hcount := hG.shared q
  rw [hnone] at hcount
  exact Bool.toNat_eq_zero.mp hcount.symm

/-- **A reader excludes the writers.** -/
theorem no_writer (hG : Guards l reading writing) (hp : reading p = true) :
    writing q = false := by
  refine Bool.eq_false_iff.mpr ?_
  intro hq
  cases (hG.no_reader hq).symm.trans hp

/-- **There is one writer.** -/
theorem sole_writer (hG : Guards l reading writing) (hp : writing p = true)
    (hq : writing q = true) : q = p :=
  Option.some.inj (((hG.sole q).mp hq).symm.trans ((hG.sole p).mp hp))

/-- Nobody enters and nobody leaves. -/
theorem keep (hG : Guards l reading writing) (hr : ∀ q, reading' q = reading q)
    (hw : ∀ q, writing' q = writing q) : Guards l reading' writing' := by
  rw [funext hr, funext hw]
  exact hG

/-- A reader enters. -/
theorem rdlock (hG : Guards l reading writing) (h : l.rdlock p = some l')
    (hp : reading p = false) (hself : reading' p = true)
    (hothers : ∀ q, q ≠ p → reading' q = reading q) (hw : ∀ q, writing' q = writing q) :
    Guards l' reading' writing' := by
  obtain ⟨hfree, h⟩ := Option.ite_none_right_eq_some.mp h
  cases h
  constructor
  · intro q
    by_cases hqp : q = p
    · subst hqp
      have hcount := hG.shared q
      rw [hp] at hcount
      rw [List.count_cons_self, hself, hcount]
      rfl
    · rw [List.count_cons_of_ne (Ne.symm hqp), hothers q hqp]
      exact hG.shared q
  · intro q
    have hsole := hG.sole q
    rw [hfree] at hsole
    rw [hw q]
    exact hsole

/-- A writer enters. -/
theorem wrlock (hG : Guards l reading writing) (h : l.wrlock p = some l')
    (hself : writing' p = true) (hothers : ∀ q, q ≠ p → writing' q = writing q)
    (hr : ∀ q, reading' q = reading q) : Guards l' reading' writing' := by
  obtain ⟨⟨hfree, hnone⟩, h⟩ := Option.ite_none_right_eq_some.mp h
  cases h
  constructor
  · intro q
    have hcount := hG.shared q
    rw [hnone] at hcount
    rw [hr q]
    exact hcount
  · intro q
    by_cases hqp : q = p
    · subst hqp
      exact iff_of_true hself rfl
    · refine iff_of_false ?_ (fun h => hqp (Option.some.inj h).symm)
      rw [hothers q hqp]
      intro hq
      rw [(hG.sole q).mp hq] at hfree
      cases hfree

/-- A reader leaves. -/
theorem unlock_reader (hG : Guards l reading writing) (h : l.unlock p = some l')
    (hp : reading p = true) (hself : reading' p = false)
    (hothers : ∀ q, q ≠ p → reading' q = reading q) (hw : ∀ q, writing' q = writing q) :
    Guards l' reading' writing' := by
  have hout : l.writer ≠ some p := fun hc => by
    cases (hG.no_writer (q := p) hp).symm.trans ((hG.sole p).mpr hc)
  rw [unlock, if_neg hout] at h
  obtain ⟨-, h⟩ := Option.ite_none_right_eq_some.mp h
  cases h
  constructor
  · intro q
    by_cases hqp : q = p
    · subst hqp
      have hcount := hG.shared q
      rw [hp] at hcount
      rw [List.count_erase_self, hself, hcount]
      rfl
    · rw [List.count_erase_of_ne hqp, hothers q hqp]
      exact hG.shared q
  · intro q
    rw [hw q]
    exact hG.sole q

/-- The writer leaves. -/
theorem unlock_writer (hG : Guards l reading writing) (h : l.unlock p = some l')
    (hp : writing p = true) (hself : writing' p = false)
    (hothers : ∀ q, q ≠ p → writing' q = writing q) (hr : ∀ q, reading' q = reading q) :
    Guards l' reading' writing' := by
  rw [unlock, if_pos ((hG.sole p).mp hp)] at h
  cases h
  refine free.keep ?_ ?_
  · intro q
    rw [hr q]
    exact hG.no_reader hp
  · intro q
    by_cases hqp : q = p
    · subst hqp
      exact hself
    · rw [hothers q hqp]
      exact Bool.eq_false_iff.mpr fun hq => hqp (hG.sole_writer hp hq)

end Guards

end RwLock
