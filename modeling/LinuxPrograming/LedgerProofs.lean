import Mathlib.Data.List.Nodup

/-!
# A ledger of things made and things gone

What a store is for, without the store: things are made one after the other, each once, and some
of them have gone.  A `Ledger` carries the three facts that make the books consistent, so that
`remaining` — made and not gone, in the order of making — behaves like the contents of a store:
making appends to it, taking erases one position of it.
-/

variable {α : Type} [DecidableEq α]

/-- Everything made so far, in order, and everything that has gone; nothing is made twice, nothing
    goes twice, and only what was made can go. -/
structure Ledger (α : Type) [DecidableEq α] where
  made : List α
  gone : List α
  made_nodup : made.Nodup
  gone_nodup : gone.Nodup
  gone_made : gone ⊆ made

namespace Ledger

/-- Made and not gone, in the order of making. -/
def remaining (L : Ledger α) : List α := L.made.filter (· ∉ L.gone)

/-- The empty books. -/
def empty : Ledger α := ⟨[], [], List.nodup_nil, List.nodup_nil, List.nil_subset _⟩

/-- Make a new thing. -/
def make (L : Ledger α) (x : α) (h : x ∉ L.made) : Ledger α where
  made := L.made ++ [x]
  gone := L.gone
  made_nodup := List.nodup_append.mpr ⟨L.made_nodup, List.nodup_singleton x, by
    intro a ha b hb
    rw [List.mem_singleton.mp hb]
    exact fun heq => h (heq ▸ ha)⟩
  gone_nodup := L.gone_nodup
  gone_made := List.subset_append_of_subset_left _ L.gone_made

theorem mem_remaining {L : Ledger α} {x : α} : x ∈ L.remaining ↔ x ∈ L.made ∧ x ∉ L.gone := by
  simp [remaining]

theorem remaining_nodup (L : Ledger α) : L.remaining.Nodup :=
  L.made_nodup.filter _

/-- Let a remaining thing go. -/
def take (L : Ledger α) (x : α) (h : x ∈ L.remaining) : Ledger α where
  made := L.made
  gone := L.gone ++ [x]
  made_nodup := L.made_nodup
  gone_nodup := List.nodup_append.mpr ⟨L.gone_nodup, List.nodup_singleton x, by
    intro a ha b hb
    rw [List.mem_singleton.mp hb]
    exact fun heq => (mem_remaining.mp h).2 (heq ▸ ha)⟩
  gone_made := List.append_subset.mpr
    ⟨L.gone_made, fun y hy => by
      rw [List.mem_singleton.mp hy]
      exact (mem_remaining.mp h).1⟩

@[simp] theorem remaining_empty : (empty : Ledger α).remaining = [] := rfl

/-- Making appends to what remains. -/
theorem remaining_make (L : Ledger α) (x : α) (h : x ∉ L.made) :
    (L.make x h).remaining = L.remaining ++ [x] := by
  have hx : x ∉ L.gone := fun hg => h (L.gone_made hg)
  show (L.made ++ [x]).filter (· ∉ L.gone) = L.remaining ++ [x]
  rw [List.filter_append, List.filter_cons_of_pos (by simpa using hx), List.filter_nil]
  rfl

theorem remaining_take (L : Ledger α) (x : α) (h : x ∈ L.remaining) :
    (L.take x h).remaining = L.remaining.erase x := by
  rw [L.remaining_nodup.erase_eq_filter]
  show L.made.filter (· ∉ L.gone ++ [x]) = (L.made.filter (· ∉ L.gone)).filter (· != x)
  rw [List.filter_filter]
  refine List.filter_congr ?_
  intro y _
  by_cases hy : y ∈ L.gone <;> by_cases hx : y = x <;> simp [hy, hx]

/-- Taking erases one position of what remains. -/
theorem remaining_take_at (L : Ledger α) {k : Nat} {x : α} (hk : L.remaining[k]? = some x) :
    (L.take x (List.mem_of_getElem? hk)).remaining = L.remaining.eraseIdx k := by
  obtain ⟨hlt, hx⟩ := List.getElem?_eq_some_iff.mp hk
  rw [remaining_take, ← hx, L.remaining_nodup.erase_getElem k hlt]

end Ledger
