import Mathlib.Data.List.DropRight

/-!
# Streams of lines

A stream over `α` in which `nl` ends a line.  `complete` is the stream up to its last line end.  A
reader takes the stream in pieces, none of which reaches beyond a line end, and shows of each piece
what stands before the first `stop`, as a C string is shown.

* **`complete_prefix_shown_iff`** — all complete lines have been shown exactly if no line end is
  left in what has not been taken, and no complete line contains `stop`.
-/

namespace Lines

variable {α : Type} [DecidableEq α] (nl stop : α)

/-- The stream up to and including the last line end. -/
def complete (l : List α) : List α := l.rdropWhile fun c => c ≠ nl

/-- What is shown of a piece. -/
def text (p : List α) : List α := p.takeWhile fun c => c ≠ stop

variable {nl stop}

theorem complete_concat (l : List α) (c : α) :
    complete nl (l ++ [c]) = if c = nl then l ++ [c] else complete nl l := by
  rw [complete, List.rdropWhile_concat]
  by_cases h : c = nl
  · simp [h]
  · simp [h, complete]

/-- An unfinished line at the end does not count. -/
theorem complete_append_of_not_mem {l m : List α} (h : nl ∉ m) :
    complete nl (l ++ m) = complete nl l := by
  induction m using List.reverseRecOn with
  | nil => rw [List.append_nil]
  | append_singleton m c ih =>
      rw [List.mem_append, not_or] at h
      have hc : c ≠ nl := fun hc => h.2 (List.mem_singleton.mpr hc.symm)
      rw [← List.append_assoc, complete_concat, if_neg hc, ih h.1]

/-- All that stands before a line end counts. -/
theorem complete_append_of_mem {l m : List α} (h : nl ∈ m) :
    complete nl (l ++ m) = l ++ complete nl m := by
  induction m using List.reverseRecOn with
  | nil => cases h
  | append_singleton m c ih =>
      rw [← List.append_assoc, complete_concat, complete_concat]
      by_cases hc : c = nl
      · rw [if_pos hc, if_pos hc, List.append_assoc]
      · rw [if_neg hc, if_neg hc]
        have hm : nl ∈ m := by
          rcases List.mem_append.mp h with hm | hm
          · exact hm
          · exact absurd (List.mem_singleton.mp hm).symm hc
        exact ih hm

theorem mem_complete {l : List α} (h : nl ∈ l) : nl ∈ complete nl l := by
  obtain ⟨s, t, rfl⟩ := List.append_of_mem h
  have hsplit : s ++ nl :: t = (s ++ [nl]) ++ t := by simp
  rw [hsplit]
  by_cases ht : nl ∈ t
  · rw [complete_append_of_mem ht]
    simp
  · rw [complete_append_of_not_mem ht, complete_concat, if_pos rfl]
    simp

theorem complete_subset (l : List α) : complete nl l ⊆ l := (List.rdropWhile_prefix _ l).subset

/-- What is shown never contains `stop`. -/
theorem stop_not_mem_shown (ps : List (List α)) : stop ∉ (ps.map (text stop)).flatten := by
  intro h
  obtain ⟨q, hq, hmem⟩ := List.mem_flatten.mp h
  obtain ⟨p, -, rfl⟩ := List.mem_map.mp hq
  simpa using List.mem_takeWhile_imp hmem

/-- What is shown is no longer than what has been taken. -/
theorem length_shown_le (ps : List (List α)) :
    (ps.map (text stop)).flatten.length ≤ ps.flatten.length := by
  induction ps with
  | nil => exact Nat.le_refl 0
  | cons p ps ih =>
      have hp : (text stop p).length ≤ p.length := (List.takeWhile_prefix _).length_le
      simp only [List.map_cons, List.flatten_cons, List.length_append]
      omega

/-- A piece is shown whole if it does not contain `stop`. -/
theorem text_eq_self {p : List α} (h : stop ∉ p) : text stop p = p := by
  rw [text, List.takeWhile_eq_self_iff]
  intro c hc
  have hne : c ≠ stop := fun he => h (he ▸ hc)
  simpa using hne

/-- The complete lines of a piece are the piece, if it ends a line, or nothing. -/
theorem complete_piece {p : List α} (h : nl ∉ p.dropLast) :
    complete nl p = p ∨ complete nl p = [] ∧ nl ∉ p := by
  induction p using List.reverseRecOn with
  | nil => exact Or.inl rfl
  | append_singleton p c _ =>
      rw [List.dropLast_concat] at h
      rw [complete_concat]
      by_cases hc : c = nl
      · rw [if_pos hc]
        exact Or.inl rfl
      · have hcp : nl ∉ p ++ [c] := by
          rw [List.mem_append, List.mem_singleton]
          rintro (hp | hc')
          · exact h hp
          · exact hc hc'.symm
        have hnil : complete nl p = [] := complete_append_of_not_mem (l := []) h
        rw [if_neg hc]
        exact Or.inr ⟨hnil, hcp⟩

/-- The complete lines taken have been shown, if they do not contain `stop`. -/
theorem complete_prefix_shown {ps : List (List α)} (hps : ∀ p ∈ ps, nl ∉ p.dropLast)
    (hstop : stop ∉ complete nl ps.flatten) :
    complete nl ps.flatten <+: (ps.map (text stop)).flatten := by
  induction ps with
  | nil => exact List.prefix_rfl
  | cons p ps ih =>
      have ih := ih fun q hq => hps q (List.mem_cons_of_mem p hq)
      rw [List.flatten_cons] at hstop ⊢
      rw [List.map_cons, List.flatten_cons]
      by_cases hmem : nl ∈ ps.flatten
      · rw [complete_append_of_mem hmem] at hstop ⊢
        rw [List.mem_append, not_or] at hstop
        rw [text_eq_self hstop.1]
        exact (List.prefix_append_right_inj p).mpr (ih hstop.2)
      · rw [complete_append_of_not_mem hmem] at hstop ⊢
        rcases complete_piece (hps p List.mem_cons_self) with heq | ⟨hnil, -⟩
        · rw [heq] at hstop ⊢
          rw [text_eq_self hstop]
          exact List.prefix_append p _
        · rw [hnil]
          exact List.nil_prefix

/-- **When all complete lines have been shown**: `ps` has been taken, `rest` has not. -/
theorem complete_prefix_shown_iff {ps : List (List α)} (hps : ∀ p ∈ ps, nl ∉ p.dropLast)
    (rest : List α) :
    complete nl (ps.flatten ++ rest) <+: (ps.map (text stop)).flatten ↔
      nl ∉ rest ∧ stop ∉ complete nl (ps.flatten ++ rest) := by
  constructor
  · intro h
    refine ⟨?_, fun hstop => stop_not_mem_shown ps (h.subset hstop)⟩
    intro hrest
    have hpos := List.length_pos_of_mem (mem_complete hrest)
    have hle := h.length_le
    rw [complete_append_of_mem hrest, List.length_append] at hle
    have hshown : (ps.map (text stop)).flatten.length ≤ ps.flatten.length := length_shown_le ps
    omega
  · rintro ⟨hrest, hstop⟩
    rw [complete_append_of_not_mem hrest] at hstop ⊢
    exact complete_prefix_shown hps hstop

end Lines
