import Mathlib.Logic.Function.Basic

/-!
# Kernel objects and their names

Objects that a process gets at by name and that outlive both the name and the process: POSIX
semaphores and shared memory.  Opening a name finds the object it is bound to or creates one;
unlinking a name leaves the object to those who have opened it.
-/

/-- `made` is the name that an object has been created under. -/
structure NamedObjects (ν β : Type) where
  bound      : ν → Option Nat
  object     : Nat → β
  made       : Nat → ν
  next       : Nat
  bound_lt   : ∀ {n i}, bound n = some i → i < next
  bound_made : ∀ {n i}, bound n = some i → made i = n

namespace NamedObjects

variable {ν β : Type}

/-- No object at all. -/
def empty (n : ν) (b : β) : NamedObjects ν β :=
  ⟨fun _ => none, fun _ => b, fun _ => n, 0, nofun, nofun⟩

/-- An access to object `i`. -/
def write (s : NamedObjects ν β) (i : Nat) (b : β) : NamedObjects ν β :=
  { s with object := Function.update s.object i b }

section

variable (s : NamedObjects ν β) (b : β)

@[simp] theorem bound_write (i : Nat) : (s.write i b).bound = s.bound := rfl
@[simp] theorem made_write (i : Nat) : (s.write i b).made = s.made := rfl
@[simp] theorem next_write (i : Nat) : (s.write i b).next = s.next := rfl

@[simp] theorem object_write_self (i : Nat) : (s.write i b).object i = b :=
  Function.update_self ..

theorem object_write_of_ne {i j : Nat} (h : j ≠ i) : (s.write i b).object j = s.object j :=
  Function.update_of_ne h ..

end

variable [DecidableEq ν]

/-- A new object with the name `n`. -/
def create (s : NamedObjects ν β) (n : ν) (b : β) : NamedObjects ν β where
  bound  := Function.update s.bound n (some s.next)
  object := Function.update s.object s.next b
  made   := Function.update s.made s.next n
  next   := s.next + 1
  bound_lt := by
    intro m i h
    by_cases hm : m = n
    · subst hm
      rw [Function.update_self] at h
      exact Option.some.inj h ▸ Nat.lt_succ_self _
    · rw [Function.update_of_ne hm] at h
      exact Nat.lt_succ_of_lt (s.bound_lt h)
  bound_made := by
    intro m i h
    by_cases hm : m = n
    · subst hm
      rw [Function.update_self] at h
      rw [← Option.some.inj h, Function.update_self]
    · rw [Function.update_of_ne hm] at h
      rw [Function.update_of_ne (Nat.ne_of_lt (s.bound_lt h)), s.bound_made h]

/-- Opening with `O_CREAT`: the object, and all objects after that. -/
def openCreate (s : NamedObjects ν β) (n : ν) (b : β) : NamedObjects ν β × Nat :=
  match s.bound n with
  | some i => (s, i)
  | none   => (s.create n b, s.next)

def unlink (s : NamedObjects ν β) (n : ν) : NamedObjects ν β where
  bound  := Function.update s.bound n none
  object := s.object
  made   := s.made
  next   := s.next
  bound_lt := by
    intro m i h
    by_cases hm : m = n
    · subst hm
      rw [Function.update_self] at h
      cases h
    · rw [Function.update_of_ne hm] at h
      exact s.bound_lt h
  bound_made := by
    intro m i h
    by_cases hm : m = n
    · subst hm
      rw [Function.update_self] at h
      cases h
    · rw [Function.update_of_ne hm] at h
      exact s.bound_made h

variable (s : NamedObjects ν β) (n : ν) (b : β)

@[simp] theorem object_unlink : (s.unlink n).object = s.object := rfl
@[simp] theorem made_unlink : (s.unlink n).made = s.made := rfl
@[simp] theorem next_unlink : (s.unlink n).next = s.next := rfl

theorem bound_unlink_self : (s.unlink n).bound n = none := Function.update_self ..

/-- Unlinking takes names away only. -/
theorem bound_of_unlink {m : ν} {i : Nat} (h : (s.unlink n).bound m = some i) :
    s.bound m = some i := by
  by_cases hm : m = n
  · subst hm
    rw [bound_unlink_self] at h
    cases h
  · exact (Function.update_of_ne hm ..).symm.trans h

/-- **What opening does**: there is an object under the name, made under it; the other names, and
    the objects there are, stay as they are; a new object holds `b`. -/
structure Opened (s s' : NamedObjects ν β) (n : ν) (b : β) (i : Nat) : Prop where
  bound  : s'.bound n = some i
  others : ∀ m, m ≠ n → s'.bound m = s.bound m
  object : ∀ j, j < s.next → s'.object j = s.object j
  made   : ∀ j, j < s.next → s'.made j = s.made j
  le     : s.next ≤ s'.next
  origin : s.bound n = some i ∨ s.next ≤ i ∧ s'.object i = b

theorem opened : Opened s (s.openCreate n b).1 n b (s.openCreate n b).2 := by
  unfold openCreate
  cases h : s.bound n with
  | some i => exact ⟨h, fun _ _ => rfl, fun _ _ => rfl, fun _ _ => rfl, Nat.le_refl _, .inl h⟩
  | none =>
      refine ⟨Function.update_self .., fun m hm => Function.update_of_ne hm .., ?_, ?_,
        Nat.le_succ _, .inr ⟨Nat.le_refl _, Function.update_self ..⟩⟩
      · exact fun j hj => Function.update_of_ne (Nat.ne_of_lt hj) ..
      · exact fun j hj => Function.update_of_ne (Nat.ne_of_lt hj) ..

end NamedObjects
