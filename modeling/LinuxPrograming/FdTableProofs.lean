import Mathlib.Logic.Function.Basic

/-!
# Descriptor tables

The table of open descriptors of one process, over any type `α` of open files.  A table carries
the bound of its open part, so the lowest free number exists and can be computed.

* **`close`**, **`dup2`**, **`alloc`**, **`exec`** are what the system calls do when they succeed;
  `alloc` takes the lowest free number, as `open` and `pipe` do, and `exec` drops the descriptors
  marked close-on-exec.
* **`Refers t n f`** — number `n` refers to the file `f`; one lemma for each operation says how the
  numbers that refer to a file change.
-/

/-- An open descriptor: the file it refers to, and its close-on-exec flag. -/
structure Desc (α : Type) where
  file    : α
  cloexec : Bool
deriving DecidableEq

structure FdTable (α : Type) where
  entry  : Nat → Option (Desc α)
  limit  : Nat
  closed : ∀ n, limit ≤ n → entry n = none

namespace FdTable

variable {α β : Type} (t : FdTable α)

/-- Descriptor `n` is open. -/
def isOpen (n : Nat) : Bool := (t.entry n).isSome

/-- Descriptor `n` refers to `f`. -/
def Refers (n : Nat) (f : α) : Prop := (t.entry n).map Desc.file = some f

/-- Replace entry `n`. -/
def set (n : Nat) (d : Option (Desc α)) : FdTable α where
  entry  := Function.update t.entry n d
  limit  := max t.limit (n + 1)
  closed := fun m hm => by
    have hlimit : t.limit ≤ m := Nat.le_trans (Nat.le_max_left ..) hm
    have hne : m ≠ n := Nat.ne_of_gt (Nat.lt_of_lt_of_le (Nat.lt_succ_self n)
      (Nat.le_trans (Nat.le_max_right ..) hm))
    rw [Function.update_of_ne hne]
    exact t.closed m hlimit

/-- `close(n)`. -/
def close (n : Nat) : FdTable α := t.set n none

/-- `dup2(old, new)`: nothing when the numbers are equal or `old` is not open. -/
def dup2 (old new : Nat) : FdTable α :=
  if old = new then t
  else match t.entry old with
    | none   => t
    | some d => t.set new (some ⟨d.file, false⟩)

/-- The lowest number that is not open. -/
def lowestFree : Nat := ((List.range t.limit).find? fun n => !t.isOpen n).getD t.limit

/-- Open `f` at the lowest free number. -/
def alloc (f : α) : FdTable α := t.set t.lowestFree (some ⟨f, false⟩)

/-- What an `exec` leaves open. -/
def exec : FdTable α where
  entry  := fun n => (t.entry n).filter fun d => !d.cloexec
  limit  := t.limit
  closed := fun n hn => by rw [t.closed n hn]; rfl

/-- Rename the open files. -/
def map (g : α → β) : FdTable β where
  entry  := fun n => (t.entry n).map fun d => ⟨g d.file, d.cloexec⟩
  limit  := t.limit
  closed := fun n hn => by rw [t.closed n hn]; rfl

/-- No descriptor of `f` is marked close-on-exec. -/
def Plain (f : α) : Prop := ∀ n d, t.entry n = some d → d.file = f → d.cloexec = false

variable {t} {n m : Nat} {f g : α}

@[simp] theorem set_entry (t : FdTable α) (n : Nat) (d : Option (Desc α)) :
    (t.set n d).entry = Function.update t.entry n d := rfl

/-! ## The lowest free number -/

theorem lowestFree_closed : t.isOpen t.lowestFree = false := by
  rw [lowestFree]
  cases hfind : (List.range t.limit).find? fun n => !t.isOpen n with
  | none =>
      show (t.entry t.limit).isSome = false
      rw [t.closed t.limit (Nat.le_refl _)]
      rfl
  | some n =>
      have hn := List.find?_some hfind
      simpa using hn

theorem isOpen_of_lt_lowestFree (h : m < t.lowestFree) : t.isOpen m = true := by
  rw [lowestFree] at h
  cases hfind : (List.range t.limit).find? fun n => !t.isOpen n with
  | none =>
      rw [hfind] at h
      have hm := List.find?_eq_none.mp hfind m (List.mem_range.mpr h)
      simpa using hm
  | some n =>
      rw [hfind] at h
      have hmin := (List.find?_range_eq_some.mp hfind).2.2 m h
      simpa using hmin

/-- Number `0` is the lowest free one exactly if it is free. -/
theorem lowestFree_eq_zero_iff : t.lowestFree = 0 ↔ t.isOpen 0 = false := by
  constructor
  · intro h
    rw [← h]
    exact lowestFree_closed
  · intro h
    refine Nat.eq_zero_of_not_pos ?_
    intro hpos
    rw [isOpen_of_lt_lowestFree hpos] at h
    cases h

theorem isOpen_alloc_self : (t.alloc f).isOpen t.lowestFree = true := by
  simp [isOpen, alloc]

theorem isOpen_alloc_of_ne (h : m ≠ t.lowestFree) : (t.alloc f).isOpen m = t.isOpen m := by
  simp [isOpen, alloc, h]

/-- The next number to be allocated is a higher one. -/
theorem lowestFree_lt_alloc : t.lowestFree < (t.alloc f).lowestFree := by
  have hfree : (t.alloc f).isOpen (t.alloc f).lowestFree = false := lowestFree_closed
  have hne : (t.alloc f).lowestFree ≠ t.lowestFree := fun heq => by
    rw [heq, isOpen_alloc_self] at hfree
    cases hfree
  refine Nat.lt_of_le_of_ne (Nat.le_of_not_lt ?_) hne.symm
  intro hlt
  rw [isOpen_alloc_of_ne hne, isOpen_of_lt_lowestFree hlt] at hfree
  cases hfree

/-! ## Which numbers refer to a file -/

theorem isOpen_of_refers (h : t.Refers n f) : t.isOpen n = true := by
  obtain ⟨d, hd, -⟩ := Option.map_eq_some_iff.mp h
  rw [isOpen, hd]
  rfl

theorem refers_set (d : Option (Desc α)) :
    (t.set n d).Refers m f ↔ if m = n then d.map Desc.file = some f else t.Refers m f := by
  by_cases h : m = n
  · subst h
    simp [Refers, set]
  · simp [Refers, set, h]

theorem refers_close : (t.close n).Refers m f ↔ m ≠ n ∧ t.Refers m f := by
  rw [close, refers_set]
  by_cases h : m = n <;> simp [h]

theorem refers_alloc :
    (t.alloc g).Refers m f ↔ if m = t.lowestFree then g = f else t.Refers m f := by
  rw [alloc, refers_set]
  by_cases h : m = t.lowestFree <;> simp [h]

/-- `dup2` from an open descriptor of `g`. -/
theorem refers_dup2 {old new : Nat} (hold : t.Refers old g) :
    (t.dup2 old new).Refers m f ↔ if m = new then g = f else t.Refers m f := by
  unfold dup2
  by_cases heq : old = new
  · subst heq
    rw [if_pos rfl]
    by_cases h : m = old
    · rw [h, if_pos rfl]
      exact ⟨fun hf => Option.some.inj (hold.symm.trans hf), fun hf => hf ▸ hold⟩
    · rw [if_neg h]
  · obtain ⟨d, hd, hfile⟩ := Option.map_eq_some_iff.mp hold
    rw [if_neg heq, hd, refers_set]
    by_cases h : m = new <;> simp [h, hfile]

/-- `dup2` changes the new number only. -/
theorem refers_of_dup2 {old new : Nat} (hne : m ≠ new) (h : (t.dup2 old new).Refers m f) :
    t.Refers m f := by
  unfold dup2 at h
  by_cases heq : old = new
  · rwa [if_pos heq] at h
  · rw [if_neg heq] at h
    cases hd : t.entry old with
    | none => rwa [hd] at h
    | some d =>
        rw [hd] at h
        rwa [refers_set, if_neg hne] at h

/-- What is open after an `exec` was open before. -/
theorem refers_of_exec (h : t.exec.Refers m f) : t.Refers m f := by
  obtain ⟨d, hd, hf⟩ := Option.map_eq_some_iff.mp h
  exact Option.map_eq_some_iff.mpr ⟨d, (Option.filter_eq_some_iff.mp hd).1, hf⟩

theorem refers_exec (hplain : t.Plain f) : t.exec.Refers m f ↔ t.Refers m f := by
  simp only [Refers, exec]
  cases hd : t.entry m with
  | none => exact Iff.rfl
  | some d =>
      cases hc : d.cloexec with
      | false => simp [Option.filter, hc]
      | true =>
          have hne : d.file ≠ f := fun hf => by
            rw [hplain m d hd hf] at hc
            cases hc
          simp [Option.filter, hc, hne]

theorem isOpen_map (g : α → β) : (t.map g).isOpen n = t.isOpen n := by
  simp [isOpen, map]

/-! ## Close-on-exec -/

theorem plain_set {d : Option (Desc α)} (ht : t.Plain f)
    (hd : ∀ e, d = some e → e.file = f → e.cloexec = false) : (t.set n d).Plain f := by
  intro m e he hf
  by_cases h : m = n
  · subst h
    rw [set_entry, Function.update_self] at he
    exact hd e he hf
  · rw [set_entry, Function.update_of_ne h] at he
    exact ht m e he hf

theorem Plain.close (ht : t.Plain f) : (t.close n).Plain f :=
  plain_set ht fun _ he => by cases he

theorem Plain.alloc (ht : t.Plain f) : (t.alloc g).Plain f :=
  plain_set ht fun _ he _ => by cases he; rfl

theorem Plain.dup2 {old new : Nat} (ht : t.Plain f) : (t.dup2 old new).Plain f := by
  unfold FdTable.dup2
  by_cases heq : old = new
  · rw [if_pos heq]
    exact ht
  · rw [if_neg heq]
    cases t.entry old with
    | none => exact ht
    | some d => exact plain_set ht fun _ he _ => by cases he; rfl

end FdTable
