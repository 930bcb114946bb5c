import Mathlib.Logic.Function.Basic
import Mathlib.Data.List.Nodup

/-!
# An array whose live prefix is a list

`layout zero l` is the memory that holds the list `l` from index `0` on and `zero` behind it.
Appending is one write at index `l.length`; removing position `k` is the loop that copies
`idx + 1` to `idx` for `idx = k, k + 1, …`.  `shifted` is the memory in the middle of that loop,
and `shifted_start`, `shifted_step`, `shifted_end` are its three proof obligations.
-/

namespace SlotArray

variable {α : Type} (zero : α)

/-- The memory holding `l` from index `0` on, and `zero` everywhere behind it. -/
def layout (l : List α) (i : Nat) : α := l.getD i zero

/-- The removal of position `k` half done: the slots `k … idx - 1` already hold their successor. -/
def shifted (l : List α) (k idx : Nat) (i : Nat) : α :=
  if k ≤ i ∧ i < idx then layout zero l (i + 1) else layout zero l i

variable {zero}

theorem layout_of_lt {l : List α} {i : Nat} (h : i < l.length) : layout zero l i = l[i] := by
  simp [layout, h]

theorem layout_of_le {l : List α} {i : Nat} (h : l.length ≤ i) : layout zero l i = zero := by
  simp [layout, h]

/-- Reading the live prefix back gives the list. -/
theorem map_layout (l : List α) : (List.range l.length).map (layout zero l) = l := by
  refine List.ext_getElem (by simp) ?_
  intro i _ h2
  simp [layout, h2]

/-- Appending is one write just behind the live prefix. -/
theorem layout_append (l : List α) (x : α) :
    Function.update (layout zero l) l.length x = layout zero (l ++ [x]) := by
  funext i
  rcases Nat.lt_trichotomy i l.length with hlt | heq | hgt
  · rw [Function.update_of_ne (by omega), layout_of_lt hlt, layout_of_lt (by simp; omega)]
    simp [List.getElem_append_left, hlt]
  · subst heq
    rw [Function.update_self, layout_of_lt (by simp)]
    simp
  · rw [Function.update_of_ne (by omega), layout_of_le (by omega), layout_of_le (by simp; omega)]

/-- Clearing a slot behind the live prefix changes nothing. -/
theorem layout_clear {l : List α} {i : Nat} (h : l.length ≤ i) :
    Function.update (layout zero l) i zero = layout zero l := by
  have h0 : layout zero l i = zero := layout_of_le h
  calc Function.update (layout zero l) i zero
      = Function.update (layout zero l) i (layout zero l i) := by rw [h0]
    _ = layout zero l := Function.update_eq_self i (layout zero l)

theorem shifted_start (l : List α) (k : Nat) : shifted zero l k k = layout zero l := by
  funext i
  exact if_neg (by omega)

theorem shifted_at {l : List α} {k idx i : Nat} (h : idx ≤ i) :
    shifted zero l k idx i = layout zero l i :=
  if_neg (by omega)

/-- One round of the loop. -/
theorem shifted_step {l : List α} {k idx : Nat} (h : k ≤ idx) :
    Function.update (shifted zero l k idx) idx (layout zero l (idx + 1))
      = shifted zero l k (idx + 1) := by
  funext i
  by_cases hi : i = idx
  · subst hi
    rw [Function.update_self]
    exact (if_pos (by omega)).symm
  · rw [Function.update_of_ne hi]
    have hiff : (k ≤ i ∧ i < idx) ↔ (k ≤ i ∧ i < idx + 1) := by omega
    simp only [shifted, hiff]

/-- Once the loop has passed the live prefix, position `k` is gone. -/
theorem shifted_end {l : List α} {k idx : Nat} (h : l.length ≤ idx) :
    shifted zero l k idx = layout zero (l.eraseIdx k) := by
  funext i
  simp only [shifted, layout, List.getD_eq_getElem?_getD, List.getElem?_eraseIdx]
  by_cases hk : k ≤ i
  · rw [if_neg (by omega : ¬ i < k)]
    by_cases hi : i < idx
    · rw [if_pos ⟨hk, hi⟩]
    · rw [if_neg (fun hc => hi hc.2), List.getElem?_eq_none (by omega),
        List.getElem?_eq_none (by omega)]
  · rw [if_neg (fun hc => hk hc.1), if_pos (by omega)]

end SlotArray
