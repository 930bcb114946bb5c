import LinuxPrograming.StrReverseProofs

/-!
# `str_trim` (`strutils.c`)

The function looks for the first and the last byte of the array that is not a space and copies
what lies between them to the front, in place and in ascending order.  It takes all `len` bytes for
the string: a NUL is a byte like any other.

* **`str_trim_text`** — the C string it leaves: the trimmed array up to its first NUL.
* **`str_trim_trims_iff`** — when that is the trimmed C string.
-/

namespace StrUtils

open InPlace

/-! ## The program -/

/-- The character `' '`. -/
def SPACE : UInt8 := 32

/-- `while(start < len && str[start] == ' ')`, `n` rounds before `start` reaches `len`. -/
def skipStart : Nat → UInt32 → Memory → UInt32 × Memory
  | 0, start, str => (start, str)
  | n + 1, start, str =>
      if str.read start = SPACE then skipStart n (start + 1) (str.touch start)
      else (start, str.touch start)

/-- `while(end > start && str[end] == ' ')`, `n` rounds before `end` reaches `start`. -/
def skipEnd : Nat → UInt32 → Memory → UInt32 × Memory
  | 0, stop, str => (stop, str)
  | n + 1, stop, str =>
      if str.read stop = SPACE then skipEnd n (stop - 1) (str.touch stop)
      else (stop, str.touch stop)

/-- The copy, `n` rounds before `idx` reaches `len`. -/
def copyLoop (start stop : UInt32) : Nat → UInt32 → Memory → Memory
  | 0, _, str => str
  | n + 1, idx, str =>
      if idx + start ≤ stop then
        copyLoop start stop n (idx + 1)
          ((str.touch (idx + start)).write idx (str.read (idx + start)))
      else copyLoop start stop n (idx + 1) (str.write idx 0)

/-- The value returned and the memory left behind; `none` is the null pointer. -/
def str_trim (str : Option Memory) (len : UInt32) : UInt32 × Option Memory :=
  if validate_input str len = false then (ERRNO_II.toUInt32, str)
  else
    match str with
    | none => (ERRNO_II.toUInt32, none)
    | some str =>
        let first := skipStart len.toNat 0 str
        let last := skipEnd ((len - 1).toNat - first.1.toNat) (len - 1) first.2
        (SUCCESS, some (copyLoop first.1 last.1 len.toNat 0 last.2))

/-! ## The two scans -/

/-- What is trimmed away. -/
def isSpace (c : UInt8) : Bool := c == SPACE

theorem not_isSpace {c : UInt8} (h : c ≠ SPACE) : isSpace c = false := by
  simpa [isSpace] using h

/-- The scan from the front drops the leading spaces; it changes nothing. -/
theorem skipStart_eq (n : Nat) (start : UInt32) (str : Memory) (h : start.toNat + n < 2 ^ 32) :
    ∃ k, k ≤ n ∧ (skipStart n start str).1.toNat = start.toNat + k ∧
      (skipStart n start str).2.bytes = str.bytes ∧
      (segment str.bytes start.toNat n).dropWhile isSpace
        = segment str.bytes (start.toNat + k) (n - k) ∧
      (k < n → str.bytes (start.toNat + k) ≠ SPACE) := by
  induction n generalizing start str with
  | zero => exact ⟨0, Nat.le_refl 0, rfl, rfl, rfl, fun hlt => absurd hlt (Nat.lt_irrefl 0)⟩
  | succ n ih =>
      rw [skipStart, segment_succ, List.dropWhile_cons]
      by_cases hsp : str.read start = SPACE
      · have hsp' : isSpace (str.bytes start.toNat) = true := beq_iff_eq.mpr hsp
        obtain ⟨k, hk, hval, hbytes, hdrop, hend⟩ :=
          ih (start + 1) (str.touch start) (by rw [toNat_succ h]; omega)
        rw [toNat_succ h] at hval hdrop hend
        have hidx : start.toNat + (k + 1) = start.toNat + 1 + k := by omega
        rw [if_pos hsp, if_pos hsp']
        refine ⟨k + 1, by omega, ?_⟩
        rw [hidx, Nat.add_sub_add_right]
        exact ⟨hval, hbytes, hdrop, fun hlt => hend (by omega)⟩
      · have hsp' : isSpace (str.bytes start.toNat) = false := not_isSpace hsp
        rw [if_neg hsp, hsp', if_neg (by decide)]
        exact ⟨0, Nat.zero_le _, rfl, rfl, (segment_succ _ _ _).symm, fun _ => hsp⟩

/-- The scan from the end drops the trailing spaces; it stops at the latest at the byte that ended
    the scan from the front. -/
theorem skipEnd_eq (n a : Nat) (stop : UInt32) (str : Memory) (h : stop.toNat = a + n)
    (hne : str.bytes a ≠ SPACE) :
    ∃ k, k ≤ n ∧ (skipEnd n stop str).1.toNat = a + k ∧
      (skipEnd n stop str).2.bytes = str.bytes ∧
      (segment str.bytes a (n + 1)).rdropWhile isSpace = segment str.bytes a (k + 1) := by
  induction n generalizing stop str with
  | zero =>
      refine ⟨0, Nat.le_refl 0, h, rfl, ?_⟩
      rw [segment_concat, List.rdropWhile_concat_neg]
      simp [not_isSpace hne]
  | succ n ih =>
      rw [skipEnd, segment_concat, ← h]
      by_cases hsp : str.read stop = SPACE
      · have hsp' : isSpace (str.bytes stop.toNat) = true := beq_iff_eq.mpr hsp
        have hpred : (stop - 1).toNat = a + n := by
          rw [UInt32.toNat_sub_of_le, h]
          · simp
          · rw [UInt32.le_iff_toNat_le, h]
            simp
            omega
        obtain ⟨k, hk, hval, hbytes, hdrop⟩ := ih (stop - 1) (str.touch stop) hpred hne
        rw [if_pos hsp, List.rdropWhile_concat_pos _ _ _ hsp']
        exact ⟨k, by omega, hval, hbytes, hdrop⟩
      · have hsp' : isSpace (str.bytes stop.toNat) = false := not_isSpace hsp
        rw [if_neg hsp, List.rdropWhile_concat_neg _ _ _ (by simp [hsp'])]
        refine ⟨n + 1, Nat.le_refl _, h, rfl, ?_⟩
        rw [segment_concat _ _ (n + 1), h]

/-! ## The copy -/

/-- What the copy leaves in the first `n` bytes, as long as the sum `idx + start` does not wrap.
    The bytes it reads are never behind those it has written. -/
theorem copyLoop_bytes (start stop : UInt32) (n : Nat) (idx : UInt32) (str : Memory)
    (h : idx.toNat + n < 2 ^ 32) (i : Nat) :
    (i < idx.toNat → (copyLoop start stop n idx str).bytes i = str.bytes i) ∧
    (idx.toNat ≤ i → i < idx.toNat + n → i + start.toNat < 2 ^ 32 →
      (copyLoop start stop n idx str).bytes i
        = if i + start.toNat ≤ stop.toNat then str.bytes (i + start.toNat) else 0) := by
  induction n generalizing idx str with
  | zero => exact ⟨fun _ => rfl, fun h₁ h₂ _ => absurd h₂ (by omega)⟩
  | succ n ih =>
      -- one round stores `c` at `idx` and goes on
      obtain ⟨c, u, hloop, hu, hc⟩ : ∃ (c : UInt8) (u : Memory),
          copyLoop start stop (n + 1) idx str = copyLoop start stop n (idx + 1) u ∧
          u.bytes = Function.update str.bytes idx.toNat c ∧
          (idx.toNat + start.toNat < 2 ^ 32 →
            c = if idx.toNat + start.toNat ≤ stop.toNat
              then str.bytes (idx.toNat + start.toNat) else 0) := by
        by_cases hle : idx + start ≤ stop
        · refine ⟨str.read (idx + start), _, by rw [copyLoop, if_pos hle], rfl, ?_⟩
          intro hwrap
          have hsum : (idx + start).toNat = idx.toNat + start.toNat := by
            rw [UInt32.toNat_add, Nat.mod_eq_of_lt hwrap]
          rw [UInt32.le_iff_toNat_le, hsum] at hle
          rw [if_pos hle, Memory.read, hsum]
        · refine ⟨0, _, by rw [copyLoop, if_neg hle], rfl, ?_⟩
          intro hwrap
          have hsum : (idx + start).toNat = idx.toNat + start.toNat := by
            rw [UInt32.toNat_add, Nat.mod_eq_of_lt hwrap]
          rw [UInt32.le_iff_toNat_le, hsum] at hle
          rw [if_neg hle]
      have hsucc := toNat_succ h
      obtain ⟨hbelow, habove⟩ := ih (idx + 1) u (by rw [hsucc]; omega)
      rw [hsucc] at hbelow habove
      rw [hloop]
      constructor
      · intro hi
        rw [hbelow (by omega), hu, Function.update_of_ne (by omega)]
      · intro hlo hhi hwrap
        by_cases heq : i = idx.toNat
        · subst heq
          rw [hbelow (Nat.lt_succ_self _), hu, Function.update_self, hc hwrap]
        · rw [habove (by omega) (by omega) hwrap, hu, Function.update_of_ne (by omega)]

/-- A segment copied to the front of an array, and a NUL behind it if there is room. -/
theorem text_of_copied {f g : Nat → UInt8} {a k n : Nat} (hk : k ≤ n)
    (hcopy : ∀ i, i < k → g i = f (a + i)) (hnul : k < n → g k = 0) :
    text g 0 n = (segment f a k).takeWhile fun c => !is_null c := by
  have hfront : segment g 0 k = segment f a k :=
    segment_congr fun i hi => by rw [Nat.zero_add]; exact hcopy i hi
  obtain ⟨m, rfl⟩ := Nat.exists_eq_add_of_le hk
  rw [text_eq_segment, segment_append, hfront, Nat.zero_add]
  cases m with
  | zero => rw [segment_zero, List.append_nil]
  | succ m =>
      have hz : is_null (g k) = true := by rw [hnul (by omega)]; rfl
      rw [segment_succ, takeWhile_append_cons (by simp [hz])]

/-! ## What `str_trim` does -/

/-- What runs once the input is accepted. -/
theorem str_trim_valid (str : Memory) {len : UInt32} (hlen : 0 < len) {first last : UInt32 × Memory}
    (hfirst : skipStart len.toNat 0 str = first)
    (hlast : skipEnd ((len - 1).toNat - first.1.toNat) (len - 1) first.2 = last) :
    str_trim (some str) len = (SUCCESS, some (copyLoop first.1 last.1 len.toNat 0 last.2)) := by
  have hvalid : validate_input (some str) len = true := by simp [validate_input, hlen]
  subst hfirst hlast
  rw [str_trim, hvalid]
  rfl

/-- **THE TWO SCANS**: what lies between them is the trimmed array, all spaces or not. -/
theorem scans_eq (str : Memory) {len : UInt32} (hlen : 0 < len) :
    ∃ first last : UInt32 × Memory, skipStart len.toNat 0 str = first ∧
      skipEnd ((len - 1).toNat - first.1.toNat) (len - 1) first.2 = last ∧
      last.2.bytes = str.bytes ∧ first.1.toNat ≤ len.toNat ∧ last.1.toNat < len.toNat ∧
      trimmed isSpace (segment str.bytes 0 len.toNat)
        = segment str.bytes first.1.toNat (last.1.toNat + 1 - first.1.toNat) := by
  have hpos := pos_toNat hlen
  obtain ⟨k, hk, hstart, hbytes, hdrop, hne⟩ :=
    skipStart_eq len.toNat 0 str (by simpa using len.toNat_lt)
  simp only [UInt32.toNat_zero, Nat.zero_add] at hstart hdrop hne
  refine ⟨_, _, rfl, rfl, ?_⟩
  rw [trimmed, hdrop, hstart, toNat_pred hlen]
  rcases Nat.lt_or_ge k len.toNat with hlt | hge
  · -- byte `k` is no space, so the scan from the end stops at it or before
    obtain ⟨j, hj, hstop, hbytes', hrdrop⟩ :=
      skipEnd_eq (len.toNat - 1 - k) k (len - 1) (skipStart len.toNat 0 str).2
        (by rw [toNat_pred hlen]; omega) (by rw [hbytes]; exact hne hlt)
    rw [hbytes, show len.toNat - 1 - k + 1 = len.toNat - k by omega] at hrdrop
    rw [hrdrop, hstop, show k + j + 1 - k = j + 1 by omega]
    exact ⟨hbytes'.trans hbytes, hk, by omega, rfl⟩
  · -- nothing but spaces: the scan from the end has nothing to do
    rw [show len.toNat - 1 - k = 0 by omega, show len.toNat - k = 0 by omega]
    refine ⟨hbytes, hk, ?_, ?_⟩
    · show (len - 1).toNat < len.toNat
      rw [toNat_pred hlen]
      omega
    · show [] = segment str.bytes k ((len - 1).toNat + 1 - k)
      rw [toNat_pred hlen, show len.toNat - 1 + 1 - k = 0 by omega, segment_zero]

/-- **WHAT `str_trim` DOES**: it trims the whole array; the C string left is what comes before the
    first NUL of that. -/
theorem str_trim_text (str : Memory) {len : UInt32} (hlen : 0 < len) :
    ∃ str', str_trim (some str) len = (SUCCESS, some str') ∧
      text str'.bytes 0 len.toNat
        = (trimmed isSpace (segment str.bytes 0 len.toNat)).takeWhile fun c => !is_null c := by
  have hbound := len.toNat_lt
  obtain ⟨first, last, hfirst, hlast, hbytes, hle, hlt, htrim⟩ := scans_eq str hlen
  refine ⟨_, str_trim_valid str hlen hfirst hlast, ?_⟩
  rw [htrim]
  refine text_of_copied (by omega) ?_ ?_
  · intro i hi
    rw [(copyLoop_bytes _ _ len.toNat 0 _ (by simpa using hbound) i).2 (Nat.zero_le i)
      (by simp; omega) (by omega), if_pos (by omega), hbytes, Nat.add_comm]
  -- the byte behind the copy, if there is one
  · intro hi
    rw [(copyLoop_bytes _ _ len.toNat 0 _ (by simpa using hbound) _).2 (Nat.zero_le _)
      (by simpa using hi) (by omega), if_neg (by omega)]

/-- **WHEN `str_trim` TRIMS THE STRING**: there is no NUL among the `len` bytes, or the bytes before
    it are all spaces, or they do not end in a space. -/
theorem str_trim_trims_iff (str : Memory) (len : UInt32) (hlen : 0 < len) :
    (∃ str', str_trim (some str) len = (SUCCESS, some str') ∧
      text str'.bytes 0 len.toNat = trimmed isSpace (text str.bytes 0 len.toNat)) ↔
    (∀ i, i < len.toNat → str.bytes i ≠ 0) ∨
      (∀ c ∈ text str.bytes 0 len.toNat, c = SPACE) ∨
      (text str.bytes 0 len.toNat).getLast? ≠ some SPACE := by
  obtain ⟨str', hrun, htext⟩ := str_trim_text str hlen
  have hiff : (∃ str', str_trim (some str) len = (SUCCESS, some str') ∧
      text str'.bytes 0 len.toNat = trimmed isSpace (text str.bytes 0 len.toNat)) ↔
      text str'.bytes 0 len.toNat = trimmed isSpace (text str.bytes 0 len.toNat) := by
    rw [hrun]
    constructor
    · rintro ⟨u, hu, hut⟩
      cases hu
      exact hut
    · intro heq
      exact ⟨str', rfl, heq⟩
  have hpq : ∀ c, isSpace c = true → (!is_null c) = true := by
    intro c hc
    rw [beq_iff_eq.mp hc]
    rfl
  rw [hiff, htext, text_eq_segment str.bytes, takeWhile_trimmed_iff hpq]
  -- the three conditions, on bytes
  have hnul : (∀ c ∈ segment str.bytes 0 len.toNat, (!is_null c) = true) ↔
      ∀ i, i < len.toNat → str.bytes i ≠ 0 := by
    simp [InPlace.segment, is_null]
  have hspaces : (∀ c ∈ text str.bytes 0 len.toNat, isSpace c = true) ↔
      ∀ c ∈ text str.bytes 0 len.toNat, c = SPACE := by
    simp [isSpace]
  have hlast : (∀ c ∈ (text str.bytes 0 len.toNat).getLast?, isSpace c = false) ↔
      (text str.bytes 0 len.toNat).getLast? ≠ some SPACE := by
    cases (text str.bytes 0 len.toNat).getLast? with
    | none => simp
    | some c => simp [isSpace]
  rw [text_eq_segment] at hspaces hlast
  rw [hnul, hspaces, hlast]

/-- A string that fills the length: `" a "` becomes `"a"`. -/
theorem str_trim_trims_a :
    ∃ str', str_trim (some (ofList [32, 97, 32])) 3 = (SUCCESS, some str') ∧
      text str'.bytes 0 3 = trimmed isSpace (text (ofList [32, 97, 32]).bytes 0 3) :=
  (str_trim_trims_iff (ofList [32, 97, 32]) 3 (by decide)).mpr (Or.inl (by decide))

/-- A string shorter than the length: `" a "` and the NUL behind it becomes `"a "`. -/
theorem str_trim_keeps_space :
    ¬ ∃ str', str_trim (some (ofList [32, 97, 32])) 4 = (SUCCESS, some str') ∧
      text str'.bytes 0 4 = trimmed isSpace (text (ofList [32, 97, 32]).bytes 0 4) := by
  rintro ⟨str', hrun, htext⟩
  cases hrun
  exact absurd htext (by decide)

end StrUtils
