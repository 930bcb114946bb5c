import Mathlib.Logic.Function.Basic

/-!
# One lock, many holders: the counting discipline of a binary lock

`Owned inside value` ties the value of a lock to the set of processes inside the section it
guards: the value is `1` and nobody is inside, or it is `0` and exactly one process is.  The three
rules (`acquire`, `release`, `keep`) are all a mutual-exclusion proof needs, whatever the lock is
implemented by and however many processes there are.  `OwnedBy owner inside` is the same for a lock
that remembers its owner.
-/

namespace BinaryLock

variable {ι : Type}

/-- The lock's value is `1` with nobody inside, or `0` with exactly one process inside. -/
inductive Owned (inside : ι → Prop) (value : Nat) : Prop where
  | free : value = 1 → (∀ p, ¬ inside p) → Owned inside value
  | held (p : ι) : value = 0 → inside p → (∀ q, inside q → q = p) → Owned inside value

namespace Owned

variable {inside inside' : ι → Prop} {value : Nat} {p q : ι}

theorem le_one (h : Owned inside value) : value ≤ 1 := by
  cases h with
  | free hv _ => omega
  | held _ hv _ _ => omega

/-- A positive value means that nobody is inside. -/
theorem outside_of_pos (h : Owned inside value) (hv : 0 < value) : ∀ p, ¬ inside p := by
  cases h with
  | free _ hno => exact hno
  | held _ h0 _ _ => omega

/-- Somebody inside means that the lock is taken. -/
theorem value_of_inside (h : Owned inside value) (hp : inside p) : value = 0 := by
  cases h with
  | free _ hno => exact absurd hp (hno p)
  | held _ h0 _ _ => exact h0

/-- **Mutual exclusion.** -/
theorem unique (h : Owned inside value) (hp : inside p) (hq : inside q) : q = p := by
  cases h with
  | free _ hno => exact absurd hp (hno p)
  | held r _ _ huniq => exact (huniq q hq).trans (huniq p hp).symm

theorem value_of_outside (h : Owned inside value) (hno : ∀ p, ¬ inside p) : value = 1 := by
  cases h with
  | free hv _ => exact hv
  | held p _ hp _ => exact absurd hp (hno p)

/-- Taking a free lock. -/
theorem acquire (h : Owned inside value) (hv : 0 < value)
    (hin : ∀ q, inside' q ↔ q = p ∨ inside q) : Owned inside' (value - 1) := by
  have hno := h.outside_of_pos hv
  have h1 := h.le_one
  refine .held p (by omega) ((hin p).mpr (Or.inl rfl)) ?_
  intro q hq
  rcases (hin q).mp hq with rfl | hq'
  · rfl
  · exact absurd hq' (hno q)

/-- The holder gives the lock back. -/
theorem release (h : Owned inside value) (hp : inside p)
    (hin : ∀ q, inside' q ↔ q ≠ p ∧ inside q) : Owned inside' (value + 1) := by
  have h0 := h.value_of_inside hp
  refine .free (by omega) ?_
  intro q hq
  obtain ⟨hne, hq'⟩ := (hin q).mp hq
  exact hne (h.unique hp hq')

/-- Nobody enters and nobody leaves. -/
theorem keep (h : Owned inside value) (hin : ∀ q, inside' q ↔ inside q) : Owned inside' value := by
  have heq : inside' = inside := funext fun q => propext (hin q)
  rw [heq]
  exact h

end Owned

/-- The lock remembers its owner, and exactly the owner is inside. -/
def OwnedBy (owner : Option ι) (inside : ι → Prop) : Prop := ∀ p, inside p ↔ owner = some p

namespace OwnedBy

variable {inside inside' : ι → Prop} {owner : Option ι} {p q : ι}

theorem outside_of_free (h : OwnedBy none inside) : ∀ p, ¬ inside p :=
  fun p hp => (by cases (h p).mp hp)

/-- **Mutual exclusion.** -/
theorem unique (h : OwnedBy owner inside) (hp : inside p) (hq : inside q) : q = p :=
  Option.some.inj (((h q).mp hq).symm.trans ((h p).mp hp))

/-- Taking a free lock. -/
theorem acquire (h : OwnedBy none inside) (hin : ∀ q, inside' q ↔ q = p ∨ inside q) :
    OwnedBy (some p) inside' := by
  intro q
  rw [hin q, or_iff_left (h.outside_of_free q), Option.some.injEq]
  exact eq_comm

/-- The owner gives the lock back. -/
theorem release (h : OwnedBy owner inside) (hp : inside p)
    (hin : ∀ q, inside' q ↔ q ≠ p ∧ inside q) : OwnedBy none inside' := by
  intro q
  refine iff_of_false ?_ (fun h => by cases h)
  intro hq
  obtain ⟨hne, hq'⟩ := (hin q).mp hq
  exact hne (h.unique hp hq')

/-- Nobody enters and nobody leaves. -/
theorem keep (h : OwnedBy owner inside) (hin : ∀ q, inside' q ↔ inside q) :
    OwnedBy owner inside' :=
  fun q => (hin q).trans (h q)

end OwnedBy

end BinaryLock
