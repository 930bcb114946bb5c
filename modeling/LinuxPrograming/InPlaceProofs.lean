import Mathlib.Logic.Function.Basic
import Mathlib.Data.List.DropRight

/-!
# Editing an array in place

The array is a function on indices.  `reversePrefix n` reverses its first `n` elements and leaves
the rest alone; the usual way to compute it is a loop that swaps `k` with `n - 1 - k` for
`k = 0, 1, …`.  `reversing n k` is the array in the middle of that loop, and `reversing_start`,
`reversing_step`, `reversing_end` are its three proof obligations.

* **`map_reversePrefix`** — on the prefix, as a list, it is `List.reverse`; `reversePrefix_reversePrefix`
  and `perm_reversePrefix` — twice is nothing, and no element is gained or lost.
* **`reversePrefix_succ_iff`** — stopping one element short is noticed exactly if the elements are
  not all equal.
* **`takeWhile_trimmed_iff`** — trimming an array and then cutting it at a terminator, against
  cutting it first; `trimmed_append_replicate` — after trimming and padding, trimming again does
  nothing.
* **`modify_mapping`** — the round of a loop that maps a function over a buffer.
-/

namespace InPlace

variable {α : Type}

/-- The elements of `f` from index `idx` on, `n` of them. -/
def segment (f : Nat → α) (idx n : Nat) : List α := (List.range' idx n).map f

theorem segment_zero (f : Nat → α) (idx : Nat) : segment f idx 0 = [] := rfl

theorem segment_succ (f : Nat → α) (idx n : Nat) :
    segment f idx (n + 1) = f idx :: segment f (idx + 1) n := by
  rw [segment, List.range'_succ, List.map_cons, ← segment]

theorem segment_concat (f : Nat → α) (idx n : Nat) :
    segment f idx (n + 1) = segment f idx n ++ [f (idx + n)] := by
  rw [segment, List.range'_1_concat, List.map_append, ← segment, List.map_singleton]

theorem segment_append (f : Nat → α) (idx m n : Nat) :
    segment f idx (m + n) = segment f idx m ++ segment f (idx + m) n := by
  rw [segment, segment, segment, ← List.map_append]
  exact congrArg _ (by simp [List.range'_append_1])

@[simp] theorem length_segment (f : Nat → α) (idx n : Nat) : (segment f idx n).length = n := by
  simp [segment]

/-- Two arrays that agree from `idx` and from `idx'` on have the same segments there. -/
theorem segment_congr {f g : Nat → α} {idx idx' n : Nat}
    (h : ∀ i, i < n → f (idx + i) = g (idx' + i)) : segment f idx n = segment g idx' n := by
  refine List.ext_getElem (by simp) ?_
  intro i hi _
  have hlt : i < n := by simpa using hi
  simpa [segment] using h i hlt

/-- A segment says what the array is there. -/
theorem eq_of_segment_eq {f g : Nat → α} {n i : Nat} (h : segment f 0 n = segment g 0 n)
    (hi : i < n) : f i = g i := by
  have hat : (segment f 0 n)[i]? = (segment g 0 n)[i]? := by rw [h]
  simpa [segment, hi] using hat

/-- The first `n` elements, in two parts. -/
theorem segment_split (f : Nat → α) {m n : Nat} (h : m ≤ n) :
    segment f 0 n = segment f 0 m ++ segment f m (n - m) := by
  have hn : n = m + (n - m) := by omega
  conv_lhs => rw [hn]
  rw [segment_append, Nat.zero_add]

/-! ## Reversal of a prefix -/

/-- The first `n` elements in reverse order, every other one unchanged. -/
def reversePrefix (n : Nat) (f : Nat → α) (i : Nat) : α := if i < n then f (n - 1 - i) else f i

/-- The reversal of the first `n` elements after `k` swaps: `k` elements at either end are in
    place. -/
def reversing (n k : Nat) (f : Nat → α) (i : Nat) : α :=
  if i < n ∧ (i < k ∨ n - 1 - i < k) then f (n - 1 - i) else f i

/-- On the prefix, as a list, it is the reversal of lists. -/
theorem map_reversePrefix (n : Nat) (f : Nat → α) :
    segment (reversePrefix n f) 0 n = (segment f 0 n).reverse := by
  refine List.ext_getElem (by simp) ?_
  intro i h₁ _
  have hi : i < n := by simpa using h₁
  simp [segment, reversePrefix, hi]

/-- Reversing twice restores the array. -/
theorem reversePrefix_reversePrefix (n : Nat) (f : Nat → α) :
    reversePrefix n (reversePrefix n f) = f := by
  funext i
  by_cases hi : i < n
  · rw [reversePrefix, if_pos hi, reversePrefix, if_pos (by omega)]
    congr 1
    omega
  · rw [reversePrefix, if_neg hi, reversePrefix, if_neg hi]

/-- A longer part of the array, with its first `m` elements reversed. -/
theorem segment_reversePrefix {m n : Nat} (h : m ≤ n) (f : Nat → α) :
    segment (reversePrefix m f) 0 n = (segment f 0 m).reverse ++ segment f m (n - m) := by
  rw [segment_split _ h, map_reversePrefix]
  congr 1
  refine segment_congr ?_
  intro i _
  exact if_neg (by omega)

/-- Reversing a prefix permutes the array. -/
theorem perm_reversePrefix {m n : Nat} (h : m ≤ n) (f : Nat → α) :
    (segment (reversePrefix m f) 0 n).Perm (segment f 0 n) := by
  rw [segment_reversePrefix h, segment_split f h]
  exact (List.reverse_perm _).append_right _

theorem reversing_start (n : Nat) (f : Nat → α) : reversing n 0 f = f := by
  funext i
  exact if_neg (by omega)

/-- One swap. -/
theorem reversing_step {n k : Nat} (h : k < n / 2) (f : Nat → α) :
    Function.update (Function.update (reversing n k f) k (reversing n k f (n - 1 - k)))
        (n - 1 - k) (reversing n k f k)
      = reversing n (k + 1) f := by
  funext i
  by_cases hhi : i = n - 1 - k
  · subst hhi
    rw [Function.update_self, reversing, if_neg (by omega), reversing, if_pos (by omega)]
    congr 1
    omega
  · rw [Function.update_of_ne hhi]
    by_cases hlo : i = k
    · subst hlo
      rw [Function.update_self, reversing, if_neg (by omega), reversing, if_pos (by omega)]
    · rw [Function.update_of_ne hlo]
      have hiff : (i < n ∧ (i < k ∨ n - 1 - i < k)) ↔ (i < n ∧ (i < k + 1 ∨ n - 1 - i < k + 1)) := by
        omega
      simp only [reversing, hiff]

/-- After half of the swaps the prefix is reversed; a middle element stays where it is. -/
theorem reversing_end (n : Nat) (f : Nat → α) : reversing n (n / 2) f = reversePrefix n f := by
  funext i
  by_cases hi : i < n
  · rw [reversePrefix, if_pos hi, reversing]
    by_cases hmid : i < n / 2 ∨ n - 1 - i < n / 2
    · rw [if_pos ⟨hi, hmid⟩]
    · rw [if_neg fun hc => hmid hc.2]
      congr 1
      omega
  · rw [reversePrefix, if_neg hi, reversing, if_neg fun hc => hi hc.1]

/-- **ONE ELEMENT SHORT**: reversing `n` elements instead of `n + 1` makes no difference exactly if
    the `n + 1` elements are all equal. -/
theorem reversePrefix_succ_iff (n : Nat) (f : Nat → α) :
    reversePrefix n f = reversePrefix (n + 1) f ↔ ∀ i, i ≤ n → f i = f 0 := by
  constructor
  · intro h i
    -- position `k` holds `f (n - 1 - k)` in the one and `f (n - k)` in the other
    have hstep : ∀ k, k < n → f k = f (k + 1) := by
      intro k hk
      have hat := congrFun h (n - 1 - k)
      rw [reversePrefix, if_pos (by omega), reversePrefix, if_pos (by omega)] at hat
      rw [show n - 1 - (n - 1 - k) = k by omega,
        show n + 1 - 1 - (n - 1 - k) = k + 1 by omega] at hat
      exact hat
    induction i with
    | zero => intro _; rfl
    | succ i ih =>
        intro hi
        rw [← hstep i (by omega)]
        exact ih (by omega)
  · intro h
    funext i
    rcases Nat.lt_trichotomy i n with hlt | rfl | hgt
    · rw [reversePrefix, if_pos hlt, reversePrefix, if_pos (by omega)]
      exact (h _ (by omega)).trans (h _ (by omega)).symm
    · rw [reversePrefix, if_neg (by omega), reversePrefix, if_pos (by omega)]
      exact (h _ (by omega)).trans (h _ (by omega)).symm
    · rw [reversePrefix, if_neg (by omega), reversePrefix, if_neg (by omega)]

/-! ## Trimming -/

/-- The list without its leading and its trailing elements that satisfy `p`. -/
def trimmed (p : α → Bool) (s : List α) : List α := (s.dropWhile p).rdropWhile p

theorem trimmed_sublist (p : α → Bool) (s : List α) : (trimmed p s).Sublist s :=
  (List.rdropWhile_prefix p _).sublist.trans (List.dropWhile_suffix p).sublist

/-- Nothing is left to drop. -/
theorem dropWhile_trimmed (p : α → Bool) (s : List α) :
    (trimmed p s).dropWhile p = trimmed p s := by
  cases ht : trimmed p s with
  | nil => rfl
  | cons c t =>
      obtain ⟨r, hr⟩ : trimmed p s <+: s.dropWhile p := List.rdropWhile_prefix p _
      have hhead := List.head?_dropWhile_not p s
      rw [← hr, ht] at hhead
      have hc : p c = false := by simpa using hhead
      rw [List.dropWhile_cons, hc]
      rfl

/-- Cutting stops at the first element outside `q`, whatever follows it. -/
theorem takeWhile_append_cons {q : α → Bool} {z : α} (hz : q z = false) (s r : List α) :
    (s ++ z :: r).takeWhile q = s.takeWhile q := by
  induction s with
  | nil => simp [hz]
  | cons c s ih =>
      rw [List.cons_append, List.takeWhile_cons, List.takeWhile_cons]
      cases q c with
      | true => exact congrArg _ ih
      | false => rfl

/-- Trimming stops at an element that does not satisfy `p`, on the left side … -/
theorem dropWhile_append_cons {p : α → Bool} {z : α} (hz : p z = false) (s r : List α) :
    (s ++ z :: r).dropWhile p = s.dropWhile p ++ z :: r := by
  induction s with
  | nil => simp [hz]
  | cons c s ih =>
      rw [List.cons_append, List.dropWhile_cons, List.dropWhile_cons]
      cases p c with
      | true => exact ih
      | false => rfl

/-- … and on the right side. -/
theorem rdropWhile_append_cons {p : α → Bool} {z : α} (hz : p z = false) (s r : List α) :
    (s ++ z :: r).rdropWhile p = s ++ z :: r.rdropWhile p := by
  have hrev : (s ++ z :: r).reverse = r.reverse ++ z :: s.reverse := by simp
  rw [List.rdropWhile, hrev, dropWhile_append_cons hz, List.rdropWhile]
  simp

/-- **TRIM AND PAD**: trimming what has been trimmed and padded changes nothing, when the padding is
    not something that trimming takes off. -/
theorem trimmed_append_replicate {p : α → Bool} {z : α} (hz : p z = false) (m : Nat)
    (s : List α) :
    trimmed p (trimmed p s ++ List.replicate m z) = trimmed p s ++ List.replicate m z := by
  cases m with
  | zero =>
      rw [List.replicate_zero, List.append_nil]
      conv_lhs => rw [trimmed, dropWhile_trimmed]
      exact List.rdropWhile_idempotent p _
  | succ m =>
      have hleft : (trimmed p s ++ List.replicate (m + 1) z).dropWhile p
          = trimmed p s ++ List.replicate (m + 1) z := by
        rw [List.replicate_succ, dropWhile_append_cons hz, dropWhile_trimmed]
      -- the last element stays, so nothing goes on the right
      conv_lhs => rw [trimmed, hleft, List.replicate_succ', ← List.append_assoc]
      rw [List.rdropWhile_concat_neg _ _ _ (by simp [hz]), List.append_assoc,
        ← List.replicate_succ']

/-- The last element of what is left of a list from the left side is the last one of the list. -/
theorem getLast?_dropWhile {p : α → Bool} {s : List α} (h : s.dropWhile p ≠ []) :
    (s.dropWhile p).getLast? = s.getLast? := by
  have hs : s = s.takeWhile p ++ s.dropWhile p := List.takeWhile_append_dropWhile.symm
  conv_rhs => rw [hs]
  rw [List.getLast?_append_of_ne_nil _ h]

/-- **TRIM AND CUT**: when terminators (the elements outside `q`) are not trimmed away, trimming the
    whole array trims the part before the first terminator, unless that part ends in an element
    that would have to go. -/
theorem takeWhile_trimmed_iff {p q : α → Bool} (hpq : ∀ c, p c = true → q c = true)
    (s : List α) :
    (trimmed p s).takeWhile q = trimmed p (s.takeWhile q) ↔
      (∀ c ∈ s, q c = true) ∨ (∀ c ∈ s.takeWhile q, p c = true) ∨
        ∀ c ∈ (s.takeWhile q).getLast?, p c = false := by
  by_cases hall : ∀ c ∈ s, q c = true
  · -- nothing is cut
    have hs : s.takeWhile q = s := List.takeWhile_eq_self_iff.mpr hall
    have ht : (trimmed p s).takeWhile q = trimmed p s :=
      List.takeWhile_eq_self_iff.mpr fun c hc => hall c ((trimmed_sublist p s).subset hc)
    rw [hs, ht]
    exact ⟨fun _ => Or.inl hall, fun _ => rfl⟩
  · obtain ⟨z, r, hsplit⟩ : ∃ z r, s.dropWhile q = z :: r := by
      cases hd : s.dropWhile q with
      | nil => exact absurd (List.dropWhile_eq_nil_iff.mp hd) hall
      | cons z r => exact ⟨z, r, rfl⟩
    have hqz : q z = false := by
      have hhead := List.head?_dropWhile_not q s
      rw [hsplit] at hhead
      simpa using hhead
    have hpz : p z = false := by
      cases hp : p z with
      | true => exact absurd (hpq z hp) (by simp [hqz])
      | false => rfl
    have hs : s = s.takeWhile q ++ z :: r := by
      rw [← hsplit]
      exact List.takeWhile_append_dropWhile.symm
    -- the terminator keeps the right side from being trimmed
    have hleft : (trimmed p s).takeWhile q = (s.takeWhile q).dropWhile p := by
      have hq : ∀ c ∈ (s.takeWhile q).dropWhile p, q c = true := fun c hc =>
        List.mem_takeWhile_imp ((List.dropWhile_suffix p).subset hc)
      conv_lhs => rw [hs]
      rw [trimmed, dropWhile_append_cons hpz, rdropWhile_append_cons hpz,
        takeWhile_append_cons hqz, List.takeWhile_eq_self_iff.mpr hq]
    rw [hleft, trimmed, eq_comm, List.rdropWhile_eq_self_iff, or_iff_right hall]
    by_cases hempty : (s.takeWhile q).dropWhile p = []
    · rw [hempty]
      refine iff_of_true (fun hne => absurd rfl hne) (Or.inl ?_)
      exact List.dropWhile_eq_nil_iff.mp hempty
    · have hnot : ¬ ∀ c ∈ s.takeWhile q, p c = true := fun h =>
        hempty (List.dropWhile_eq_nil_iff.mpr h)
      rw [or_iff_right hnot, ← getLast?_dropWhile hempty, List.getLast?_eq_some_getLast hempty]
      simp [hempty]

/-! ## Mapping -/

/-- The loop that applies `f` to each element of a buffer, after `j` rounds. -/
def mapping (f : α → α) (j : Nat) (l : List α) : List α := (l.take j).map f ++ l.drop j

@[simp] theorem mapping_zero (f : α → α) (l : List α) : mapping f 0 l = l := rfl

@[simp] theorem mapping_length (f : α → α) (l : List α) : mapping f l.length l = l.map f := by
  simp [mapping]

/-- **One round** of the loop. -/
theorem modify_mapping (f : α → α) {j : Nat} {l : List α} (hj : j < l.length) :
    (mapping f j l).modify j f = mapping f (j + 1) l := by
  induction l generalizing j with
  | nil => exact absurd hj (Nat.not_lt_zero _)
  | cons a l ih =>
      cases j with
      | zero => rfl
      | succ j => exact congrArg (f a :: ·) (ih (Nat.lt_of_succ_lt_succ hj))

end InPlace
