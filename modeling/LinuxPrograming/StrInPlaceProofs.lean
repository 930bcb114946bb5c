import LinuxPrograming.StrTrimProofs

/-!
# The in-place functions: what they touch, and a second run (`strutils.c`)

`str_reverse` and `str_trim` work on the caller's array while they still read it.

* **`Memory.Within`** — only indices below `len` have been touched, and only bytes below `len`
  changed.
* **`str_reverse_twice`** — the mirror index never wraps, the bytes are permuted, the first NUL stays
  where it is, and a second call restores the array.
* **`str_trim_rightpad`**, **`str_trim_twice`** — up to `2 ^ 31` bytes the copy gives the trimmed
  array, padded with NULs, and a second call changes nothing.
-/

namespace StrUtils

open InPlace

/-! ## What is touched -/

/-- Only indices below `len` have been read or written on the way from `str` to `str'`, and the
    bytes from `len` on are the same. -/
structure Memory.Within (len : UInt32) (str str' : Memory) : Prop where
  touched : ∃ new, str'.touched = str.touched ++ new ∧ ∀ i ∈ new, i < len
  frame   : ∀ i, len.toNat ≤ i → str'.bytes i = str.bytes i

namespace Memory.Within

variable {len : UInt32} {str str' str'' : Memory}

theorem refl (len : UInt32) (str : Memory) : Within len str str :=
  ⟨⟨[], (List.append_nil _).symm, fun i hi => (by cases hi)⟩, fun _ _ => rfl⟩

theorem trans (h : Within len str str') (h' : Within len str' str'') : Within len str str'' := by
  obtain ⟨new, hnew, hlt⟩ := h.touched
  obtain ⟨new', hnew', hlt'⟩ := h'.touched
  refine ⟨⟨new ++ new', by rw [hnew', hnew, List.append_assoc], ?_⟩, ?_⟩
  · intro i hi
    rcases List.mem_append.mp hi with hi | hi
    · exact hlt i hi
    · exact hlt' i hi
  · intro i hi
    rw [h'.frame i hi, h.frame i hi]

/-- A read below `len`. -/
theorem touch {i : UInt32} (hi : i < len) : Within len str (str.touch i) := by
  refine ⟨⟨[i], rfl, ?_⟩, fun _ _ => rfl⟩
  intro j hj
  rw [List.mem_singleton.mp hj]
  exact hi

/-- A write below `len`. -/
theorem write {i : UInt32} (hi : i < len) (c : UInt8) : Within len str (str.write i c) := by
  refine ⟨⟨[i], rfl, ?_⟩, ?_⟩
  · intro j hj
    rw [List.mem_singleton.mp hj]
    exact hi
  · intro j hj
    have hlt : i.toNat < len.toNat := hi
    exact Function.update_of_ne (by omega) _ _

end Memory.Within

/-! ## `str_reverse` -/

/-- The scan for the end reads below `len`. -/
theorem findTail_within {len : UInt32} (n : Nat) (idx tail : UInt32) (str : Memory)
    (h : idx.toNat + n ≤ len.toNat) : Memory.Within len str (findTail n idx tail str).2 := by
  induction n generalizing idx str with
  | zero => exact .refl len str
  | succ n ih =>
      have hbound := len.toNat_lt
      have hidx : idx < len := UInt32.lt_iff_toNat_lt.mpr (by omega)
      rw [findTail]
      cases is_null (str.read idx) with
      | true => exact .touch hidx
      | false =>
          have hrest := ih (idx + 1) (str.touch idx) (by rw [toNat_succ (n := n)] <;> omega)
          exact Memory.Within.trans (.touch hidx) hrest

/-- A swap of two bytes below `len`. -/
theorem swap_character_within {len x y : UInt32} (str : Memory) (hx : x < len) (hy : y < len) :
    Memory.Within len str (swap_character str x y) :=
  ((Memory.Within.touch hx).trans (.touch hy)).trans ((Memory.Within.write hx _).trans (.write hy _))

/-- The swaps stay below the end that has been found. -/
theorem swapLoop_within {len : UInt32} (n : Nat) (idx tail : UInt32) (str : Memory)
    (hn : idx.toNat + n ≤ tail.toNat / 2) (htail : tail.toNat ≤ len.toNat) :
    Memory.Within len str (swapLoop n idx tail str) := by
  induction n generalizing idx str with
  | zero => exact .refl len str
  | succ n ih =>
      have hbound := tail.toNat_lt
      have hmirror : (tail - idx - 1).toNat = tail.toNat - 1 - idx.toNat :=
        mirror_toNat (by omega)
      have hswap : Memory.Within len str (swap_character str idx (tail - idx - 1)) :=
        swap_character_within str (UInt32.lt_iff_toNat_lt.mpr (by omega))
          (UInt32.lt_iff_toNat_lt.mpr (by omega))
      rw [swapLoop]
      exact hswap.trans (ih (idx + 1) _ (by rw [toNat_succ (n := n)] <;> omega))

/-- No more bytes are reversed than there are before the first NUL. -/
theorem tailOf_le (str : Nat → UInt8) (len : Nat) : tailOf str len ≤ (text str 0 len).length := by
  have hle := length_text_le str 0 len
  rw [tailOf]
  split <;> omega

/-- Reversing bytes before the first NUL leaves the NUL where it is. -/
theorem length_text_reversePrefix {str : Nat → UInt8} {m n : Nat}
    (h : m ≤ (text str 0 n).length) :
    (text (reversePrefix m str) 0 n).length = (text str 0 n).length := by
  have hle := length_text_le str 0 n
  have hmn : m ≤ n := Nat.le_trans h hle
  -- the first `m` bytes are part of the text
  have hall : ∀ c ∈ segment str 0 m, (!is_null c) = true := by
    have htext : text str 0 n <+: segment str 0 m ++ segment str m (n - m) := by
      rw [text_eq_segment, segment_split str hmn]
      exact List.takeWhile_prefix _
    have hpre : segment str 0 m <+: text str 0 n :=
      List.prefix_of_prefix_length_le (List.prefix_append _ _) htext (by simpa using h)
    intro c hc
    exact List.mem_takeWhile_imp (p := fun c => !is_null c) (hpre.subset hc)
  have hall' : ∀ c ∈ (segment str 0 m).reverse, (!is_null c) = true := by
    intro c hc
    exact hall c (List.mem_reverse.mp hc)
  rw [text_eq_segment, text_eq_segment, segment_reversePrefix hmn, segment_split str hmn,
    List.takeWhile_append_of_pos hall, List.takeWhile_append_of_pos hall']
  simp

/-- `str_reverse` stays inside the array. -/
theorem str_reverse_within (str : Memory) {len : UInt32} (hlen : 0 < len) {str' : Memory}
    (h : str_reverse (some str) len = (SUCCESS, some str')) : Memory.Within len str str' := by
  obtain ⟨-, htail⟩ := findTail_eq len.toNat 0 (len - 1) str (by simpa using len.toNat_lt)
  have hle : (findTail len.toNat 0 (len - 1) str).1.toNat ≤ len.toNat := by
    rw [htail, toNat_pred hlen]
    split
    · simpa using length_text_le str.bytes 0 len.toNat
    · exact Nat.sub_le _ _
  rw [str_reverse_valid str hlen] at h
  cases h
  refine Memory.Within.trans (findTail_within len.toNat 0 (len - 1) str (by simp)) ?_
  exact swapLoop_within _ 0 _ _ (by simp) hle

/-- **A SECOND `str_reverse` RESTORES THE ARRAY.**  A call touches only indices below `len`; the
    index `tail - idx - 1` of its swaps never wraps; it permutes the bytes and leaves the first NUL
    where it is, so that the second call finds the same end. -/
theorem str_reverse_twice (str : Memory) {len : UInt32} (hlen : 0 < len) :
    ∃ str' str'', str_reverse (some str) len = (SUCCESS, some str') ∧
      Memory.Within len str str' ∧
      (∀ idx, idx < (findTail len.toNat 0 (len - 1) str).1 / 2 →
        idx.toNat + 1 ≤ (findTail len.toNat 0 (len - 1) str).1.toNat ∧
        ((findTail len.toNat 0 (len - 1) str).1 - idx - 1).toNat
          = (findTail len.toNat 0 (len - 1) str).1.toNat - 1 - idx.toNat) ∧
      (segment str'.bytes 0 len.toNat).Perm (segment str.bytes 0 len.toNat) ∧
      (text str'.bytes 0 len.toNat).length = (text str.bytes 0 len.toNat).length ∧
      str_reverse (some str') len = (SUCCESS, some str'') ∧ str''.bytes = str.bytes := by
  obtain ⟨str', hrun, hbytes⟩ := str_reverse_bytes str hlen
  obtain ⟨str'', hrun', hbytes'⟩ := str_reverse_bytes str' hlen
  have htail := tailOf_le str.bytes len.toNat
  have hlength : (text str'.bytes 0 len.toNat).length = (text str.bytes 0 len.toNat).length := by
    rw [hbytes]
    exact length_text_reversePrefix htail
  refine ⟨str', str'', hrun, str_reverse_within str hlen hrun, ?_, ?_, hlength, hrun', ?_⟩
  · intro idx hidx
    have hlt : idx.toNat < (findTail len.toNat 0 (len - 1) str).1.toNat / 2 := by
      simpa [UInt32.lt_iff_toNat_lt] using hidx
    have hle : idx.toNat + 1 ≤ (findTail len.toNat 0 (len - 1) str).1.toNat := by omega
    exact ⟨hle, mirror_toNat hle⟩
  · rw [hbytes]
    exact perm_reversePrefix (Nat.le_trans htail (length_text_le _ _ _)) _
  · have hsame : tailOf str'.bytes len.toNat = tailOf str.bytes len.toNat := by
      rw [tailOf, tailOf, hlength]
    rw [hbytes', hsame, hbytes, reversePrefix_reversePrefix]

/-- The theorem for an array without a NUL: `abc` becomes `bac`, and `abc` again. -/
theorem str_reverse_twice_abc :
    ∃ str' str'', str_reverse (some (ofList [97, 98, 99])) 3 = (SUCCESS, some str') ∧
      (segment str'.bytes 0 3).Perm (segment (ofList [97, 98, 99]).bytes 0 3) ∧
      str_reverse (some str') 3 = (SUCCESS, some str'') ∧
      str''.bytes = (ofList [97, 98, 99]).bytes := by
  obtain ⟨str', str'', hrun, -, -, hperm, -, hrun', hsame⟩ :=
    str_reverse_twice (ofList [97, 98, 99]) (show (0 : UInt32) < 3 by decide)
  exact ⟨str', str'', hrun, hperm, hrun', hsame⟩

/-! ## `str_trim` -/

/-- The scan from the front reads below `len`. -/
theorem skipStart_within {len : UInt32} (n : Nat) (start : UInt32) (str : Memory)
    (h : start.toNat + n ≤ len.toNat) : Memory.Within len str (skipStart n start str).2 := by
  induction n generalizing start str with
  | zero => exact .refl len str
  | succ n ih =>
      have hbound := len.toNat_lt
      have hstart : start < len := UInt32.lt_iff_toNat_lt.mpr (by omega)
      rw [skipStart]
      by_cases hsp : str.read start = SPACE
      · rw [if_pos hsp]
        have hrest := ih (start + 1) (str.touch start) (by rw [toNat_succ (n := n)] <;> omega)
        exact Memory.Within.trans (.touch hstart) hrest
      · rw [if_neg hsp]
        exact .touch hstart

/-- The scan from the end reads at the index it starts with and below. -/
theorem skipEnd_within {len : UInt32} (n : Nat) (stop : UInt32) (str : Memory)
    (hn : n ≤ stop.toNat) (hstop : stop < len) :
    Memory.Within len str (skipEnd n stop str).2 := by
  induction n generalizing stop str with
  | zero => exact .refl len str
  | succ n ih =>
      rw [skipEnd]
      by_cases hsp : str.read stop = SPACE
      · have hpred : (stop - 1).toNat = stop.toNat - 1 :=
          toNat_pred (UInt32.lt_iff_toNat_lt.mpr (by simp; omega))
        have hlt : stop.toNat < len.toNat := hstop
        rw [if_pos hsp]
        exact Memory.Within.trans (.touch hstop) (ih (stop - 1) (str.touch stop) (by omega)
          (UInt32.lt_iff_toNat_lt.mpr (by omega)))
      · rw [if_neg hsp]
        exact .touch hstop

/-- The copy reads up to `stop` and writes below `len`. -/
theorem copyLoop_within {len start stop : UInt32} (hstop : stop < len) (n : Nat) (idx : UInt32)
    (str : Memory) (h : idx.toNat + n ≤ len.toNat) :
    Memory.Within len str (copyLoop start stop n idx str) := by
  induction n generalizing idx str with
  | zero => exact .refl len str
  | succ n ih =>
      have hbound := len.toNat_lt
      have hidx : idx < len := UInt32.lt_iff_toNat_lt.mpr (by omega)
      have hnext : (idx + 1).toNat + n ≤ len.toNat := by rw [toNat_succ (n := n)] <;> omega
      rw [copyLoop]
      by_cases hle : idx + start ≤ stop
      · rw [if_pos hle]
        have hread : idx + start < len := UInt32.lt_of_le_of_lt hle hstop
        exact (Memory.Within.trans (.touch hread) (.write hidx _)).trans (ih _ _ hnext)
      · rw [if_neg hle]
        exact Memory.Within.trans (.write hidx _) (ih _ _ hnext)

/-- A segment copied to the front of an array, and NULs behind it. -/
theorem segment_of_copied {f g : Nat → UInt8} {a k n : Nat} (hk : k ≤ n)
    (hcopy : ∀ i, i < k → g i = f (a + i)) (hnul : ∀ i, k ≤ i → i < n → g i = 0) :
    segment g 0 n = (segment f a k).rightpad n 0 := by
  have hfront : segment g 0 k = segment f a k :=
    segment_congr fun i hi => by rw [Nat.zero_add]; exact hcopy i hi
  have hback : segment g k (n - k) = List.replicate (n - k) 0 := by
    refine List.eq_replicate_iff.mpr ⟨length_segment _ _ _, ?_⟩
    intro c hc
    obtain ⟨i, hi, rfl⟩ := List.mem_map.mp hc
    obtain ⟨hlo, hhi⟩ := List.mem_range'_1.mp hi
    exact hnul i hlo (by omega)
  rw [segment_split g hk, hfront, hback, List.rightpad, length_segment]

/-- **THE COPY AGREES WITH THE REFERENCE.**  For lengths up to `2 ^ 31` the array holds the trimmed
    bytes and NULs behind them; a NUL of the input is a byte like any other.  Only indices below
    `len` are touched. -/
theorem str_trim_rightpad (str : Memory) {len : UInt32} (hlen : 0 < len)
    (hmax : len.toNat ≤ 2 ^ 31) :
    ∃ str', str_trim (some str) len = (SUCCESS, some str') ∧
      segment str'.bytes 0 len.toNat
        = (trimmed isSpace (segment str.bytes 0 len.toNat)).rightpad len.toNat 0 ∧
      Memory.Within len str str' := by
  have hbound := len.toNat_lt
  obtain ⟨first, last, hfirst, hlast, hbytes, hle, hlt, htrim⟩ := scans_eq str hlen
  refine ⟨_, str_trim_valid str hlen hfirst hlast, ?_, ?_⟩
  · rw [htrim]
    refine segment_of_copied (by omega) ?_ ?_
    · intro i hi
      rw [(copyLoop_bytes _ _ len.toNat 0 _ (by simpa using hbound) i).2 (Nat.zero_le i)
        (by simp; omega) (by omega), if_pos (by omega), hbytes, Nat.add_comm]
    -- this far behind the copy the sum of the indices would wrap for longer arrays
    · intro i hlo hhi
      rw [(copyLoop_bytes _ _ len.toNat 0 _ (by simpa using hbound) i).2 (Nat.zero_le i)
        (by simpa using hhi) (by omega), if_neg (by omega)]
  · have hstop : len - 1 < len :=
      UInt32.lt_iff_toNat_lt.mpr (by rw [toNat_pred hlen]; have := pos_toNat hlen; omega)
    have hfront : Memory.Within len str first.2 :=
      hfirst ▸ skipStart_within len.toNat 0 str (by simp)
    have hback : Memory.Within len first.2 last.2 :=
      hlast ▸ skipEnd_within _ (len - 1) first.2 (Nat.sub_le _ _) hstop
    exact (hfront.trans hback).trans
      (copyLoop_within (UInt32.lt_iff_toNat_lt.mpr hlt) len.toNat 0 _ (by simp))

/-- **A SECOND `str_trim` CHANGES NOTHING**, because the first one gives what the reference gives:
    drop the leading spaces, drop the trailing ones, pad with NULs. -/
theorem str_trim_twice (str : Memory) {len : UInt32} (hlen : 0 < len)
    (hmax : len.toNat ≤ 2 ^ 31) :
    ∃ str' str'', str_trim (some str) len = (SUCCESS, some str') ∧
      segment str'.bytes 0 len.toNat
        = (((segment str.bytes 0 len.toNat).dropWhile isSpace).rdropWhile isSpace).rightpad
            len.toNat 0 ∧
      Memory.Within len str str' ∧
      str_trim (some str') len = (SUCCESS, some str'') ∧ str''.bytes = str'.bytes := by
  obtain ⟨str', hrun, hseg, hwithin⟩ := str_trim_rightpad str hlen hmax
  obtain ⟨str'', hrun', hseg', hwithin'⟩ := str_trim_rightpad str' hlen hmax
  refine ⟨str', str'', hrun, hseg, hwithin, hrun', ?_⟩
  -- neither trimming nor padding finds anything to do
  have htrim : trimmed isSpace (segment str'.bytes 0 len.toNat) = segment str'.bytes 0 len.toNat := by
    rw [hseg]
    exact trimmed_append_replicate (z := 0) (by decide) _ _
  have hpad : (segment str'.bytes 0 len.toNat).rightpad len.toNat 0
      = segment str'.bytes 0 len.toNat := by
    rw [List.rightpad, length_segment, Nat.sub_self, List.replicate_zero, List.append_nil]
  rw [htrim, hpad] at hseg'
  funext i
  rcases Nat.lt_or_ge i len.toNat with hlt | hge
  · exact eq_of_segment_eq hseg' hlt
  · exact hwithin'.frame i hge

/-- The theorem for `" a b "`, with a space that stays. -/
theorem str_trim_twice_ab :
    ∃ str' str'', str_trim (some (ofList [32, 97, 32, 98, 32])) 5 = (SUCCESS, some str') ∧
      segment str'.bytes 0 5 = [97, 32, 98, 0, 0] ∧
      str_trim (some str') 5 = (SUCCESS, some str'') ∧ str''.bytes = str'.bytes := by
  obtain ⟨str', str'', hrun, hseg, -, hrun', hsame⟩ :=
    str_trim_twice (ofList [32, 97, 32, 98, 32]) (show (0 : UInt32) < 5 by decide) (by decide)
  exact ⟨str', str'', hrun, hseg, hrun', hsame⟩

end StrUtils
