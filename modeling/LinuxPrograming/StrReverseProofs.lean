import LinuxPrograming.StrUtilsProofs
import LinuxPrograming.InPlaceProofs

/-!
# `str_reverse` (`strutils.c`)

The function finds the end of the string and swaps from both ends towards the middle, on the
caller's array.  Where the scan meets no NUL the end is the default `len - 1`, one byte short.

* **`str_reverse_bytes`** — what it does to every array, for every length but `0`.
* **`str_reverse_reverses_iff`** — when that is the reversal of the string.
-/

namespace StrUtils

open InPlace

/-! ## The program -/

def SUCCESS : UInt32 := 0

/-- The memory at `str`.  `touched` is a ghost: the indices read or written so far. -/
structure Memory where
  bytes   : Nat → UInt8
  touched : List UInt32 := []

namespace Memory

/-- The byte `str[i]`. -/
def read (str : Memory) (i : UInt32) : UInt8 := str.bytes i.toNat

/-- Note a read of `str[i]`. -/
def touch (str : Memory) (i : UInt32) : Memory := { str with touched := str.touched ++ [i] }

/-- `str[i] = c`. -/
def write (str : Memory) (i : UInt32) (c : UInt8) : Memory where
  bytes   := Function.update str.bytes i.toNat c
  touched := str.touched ++ [i]

@[simp] theorem touch_bytes (str : Memory) (i : UInt32) : (str.touch i).bytes = str.bytes := rfl
@[simp] theorem write_bytes (str : Memory) (i : UInt32) (c : UInt8) :
    (str.write i c).bytes = Function.update str.bytes i.toNat c := rfl

end Memory

/-- `swap_character(&str[x], &str[y])`. -/
def swap_character (str : Memory) (x y : UInt32) : Memory :=
  let temp := str.read x
  let str := str.touch x
  let str := (str.touch y).write x (str.read y)
  str.write y temp

/-- The scan for the end of the string, `n` rounds before `idx` reaches `len`. -/
def findTail : Nat → UInt32 → UInt32 → Memory → UInt32 × Memory
  | 0, _, tail, str => (tail, str)
  | n + 1, idx, tail, str =>
      if is_null (str.read idx) then (idx, str.touch idx)
      else findTail n (idx + 1) tail (str.touch idx)

/-- The swaps, `n` rounds before `idx` reaches `tail / 2`. -/
def swapLoop : Nat → UInt32 → UInt32 → Memory → Memory
  | 0, _, _, str => str
  | n + 1, idx, tail, str => swapLoop n (idx + 1) tail (swap_character str idx (tail - idx - 1))

/-- The value returned and the memory left behind; `none` is the null pointer. -/
def str_reverse (str : Option Memory) (len : UInt32) : UInt32 × Option Memory :=
  if validate_input str len = false then (ERRNO_II.toUInt32, str)
  else
    match str with
    | none => (ERRNO_II.toUInt32, none)
    | some str =>
        let scan := findTail len.toNat 0 (len - 1) str
        (SUCCESS, some (swapLoop (scan.1 / 2).toNat 0 scan.1 scan.2))

/-! ## The end of the string -/

theorem text_eq_segment (str : Nat → UInt8) (idx n : Nat) :
    text str idx n = (segment str idx n).takeWhile fun c => !is_null c := rfl

theorem length_text_le (str : Nat → UInt8) (idx n : Nat) : (text str idx n).length ≤ n := by
  rw [text_eq_segment]
  calc ((segment str idx n).takeWhile fun c => !is_null c).length
      ≤ (segment str idx n).length := (List.takeWhile_prefix _).length_le
    _ = n := length_segment str idx n

/-- The text is shorter than the array exactly if there is a NUL in it. -/
theorem length_text_lt_iff (str : Nat → UInt8) (idx n : Nat) :
    (text str idx n).length < n ↔ ∃ i, i < n ∧ str (idx + i) = 0 := by
  induction n generalizing idx with
  | zero => simp
  | succ n ih =>
      rw [text_succ]
      cases hz : is_null (str idx) with
      | true =>
          refine ⟨fun _ => ⟨0, Nat.succ_pos n, ?_⟩, fun _ => Nat.succ_pos n⟩
          simpa [is_null] using hz
      | false =>
          rw [if_neg (by simp), List.length_cons, Nat.succ_lt_succ_iff, ih]
          constructor
          · rintro ⟨i, hi, h0⟩
            exact ⟨i + 1, by omega, by rw [← h0]; congr 1; omega⟩
          · rintro ⟨i, hi, h0⟩
            cases i with
            | zero =>
                rw [is_null, show str idx = 0 from h0] at hz
                exact absurd hz (by decide)
            | succ i => exact ⟨i, by omega, by rw [← h0]; congr 1; omega⟩

/-- Below the bound of the loop the index does not wrap. -/
theorem toNat_succ {idx : UInt32} {n : Nat} (h : idx.toNat + (n + 1) < 2 ^ 32) :
    (idx + 1).toNat = idx.toNat + 1 := by
  rw [UInt32.toNat_add]
  exact Nat.mod_eq_of_lt (by simp; omega)

/-- The scan ends at the first NUL, or with the default where there is none; it changes nothing. -/
theorem findTail_eq (n : Nat) (idx tail : UInt32) (str : Memory) (h : idx.toNat + n < 2 ^ 32) :
    (findTail n idx tail str).2.bytes = str.bytes ∧
    (findTail n idx tail str).1.toNat
      = if (text str.bytes idx.toNat n).length < n
          then idx.toNat + (text str.bytes idx.toNat n).length else tail.toNat := by
  induction n generalizing idx str with
  | zero => exact ⟨rfl, rfl⟩
  | succ n ih =>
      rw [findTail, text_succ]
      cases hz : is_null (str.read idx) with
      | true =>
          have hz' : is_null (str.bytes idx.toNat) = true := hz
          simp [hz']
      | false =>
          have hz' : is_null (str.bytes idx.toNat) = false := hz
          have hrec := ih (idx + 1) (str.touch idx) (by rw [toNat_succ h]; omega)
          rw [toNat_succ h, Memory.touch_bytes] at hrec
          simp only [hz', Bool.false_eq_true, if_false, List.length_cons, Nat.succ_lt_succ_iff]
          refine ⟨hrec.1, ?_⟩
          rw [hrec.2]
          split <;> omega

/-! ## The swaps -/

/-- One swap of two different bytes, or of a byte with itself. -/
theorem swap_character_bytes (str : Memory) (x y : UInt32) :
    (swap_character str x y).bytes
      = Function.update (Function.update str.bytes x.toNat (str.bytes y.toNat)) y.toNat
          (str.bytes x.toNat) := rfl

/-- The mirror index does not wrap below `0`. -/
theorem mirror_toNat {idx tail : UInt32} (h : idx.toNat + 1 ≤ tail.toNat) :
    (tail - idx - 1).toNat = tail.toNat - 1 - idx.toNat := by
  have h1 : idx ≤ tail := UInt32.le_iff_toNat_le.mpr (by omega)
  have h2 : (1 : UInt32) ≤ tail - idx := by
    rw [UInt32.le_iff_toNat_le, UInt32.toNat_sub_of_le _ _ h1]
    simp
    omega
  rw [UInt32.toNat_sub_of_le _ _ h2, UInt32.toNat_sub_of_le _ _ h1]
  simp
  omega

/-- The loop continues a reversal of the first `tail` bytes. -/
theorem swapLoop_bytes (f : Nat → UInt8) (n : Nat) (idx tail : UInt32) (str : Memory)
    (hn : idx.toNat + n ≤ tail.toNat / 2) (hstr : str.bytes = reversing tail.toNat idx.toNat f) :
    (swapLoop n idx tail str).bytes = reversing tail.toNat (idx.toNat + n) f := by
  induction n generalizing idx str with
  | zero => exact hstr
  | succ n ih =>
      have hlt := tail.toNat_lt
      have hsucc : (idx + 1).toNat = idx.toNat + 1 := toNat_succ (n := n) (by omega)
      have hmirror : (tail - idx - 1).toNat = tail.toNat - 1 - idx.toNat :=
        mirror_toNat (by omega)
      rw [swapLoop, ih (idx + 1) _ (by omega), hsucc, Nat.add_right_comm, Nat.add_assoc]
      rw [swap_character_bytes, hmirror, hsucc, hstr]
      exact reversing_step (by omega) f

/-! ## What `str_reverse` does -/

/-- The number of bytes that `str_reverse` reverses. -/
def tailOf (str : Nat → UInt8) (len : Nat) : Nat :=
  if (text str 0 len).length < len then (text str 0 len).length else len - 1

theorem pos_toNat {len : UInt32} (h : 0 < len) : 0 < len.toNat := by
  have : (0 : UInt32).toNat < len.toNat := h
  simpa using this

theorem toNat_pred {len : UInt32} (h : 0 < len) : (len - 1).toNat = len.toNat - 1 := by
  refine (UInt32.toNat_sub_of_le _ _ ?_).trans (by simp)
  rw [UInt32.le_iff_toNat_le]
  simpa using Nat.succ_le_of_lt (pos_toNat h)

/-- What runs once the input is accepted. -/
theorem str_reverse_valid (str : Memory) {len : UInt32} (hlen : 0 < len) :
    str_reverse (some str) len
      = (SUCCESS, some (swapLoop ((findTail len.toNat 0 (len - 1) str).1 / 2).toNat 0
          (findTail len.toNat 0 (len - 1) str).1 (findTail len.toNat 0 (len - 1) str).2)) := by
  have hvalid : validate_input (some str) len = true := by simp [validate_input, hlen]
  rw [str_reverse, hvalid]
  rfl

/-- **WHAT `str_reverse` DOES**: the bytes before the first NUL are reversed; without a NUL all but
    the last one of the `len` bytes are. -/
theorem str_reverse_bytes (str : Memory) {len : UInt32} (hlen : 0 < len) :
    ∃ str', str_reverse (some str) len = (SUCCESS, some str') ∧
      str'.bytes = reversePrefix (tailOf str.bytes len.toNat) str.bytes := by
  have hlast := toNat_pred hlen
  obtain ⟨hbytes, htail⟩ := findTail_eq len.toNat 0 (len - 1) str (by simpa using len.toNat_lt)
  rw [hlast] at htail
  have htail' : (findTail len.toNat 0 (len - 1) str).1.toNat = tailOf str.bytes len.toNat := by
    simpa [tailOf] using htail
  refine ⟨_, str_reverse_valid str hlen, ?_⟩
  rw [swapLoop_bytes str.bytes, htail']
  · have hhalf : (findTail len.toNat 0 (len - 1) str).1.toNat / 2
        = ((findTail len.toNat 0 (len - 1) str).1 / 2).toNat := by simp
    rw [← hhalf, htail']
    simpa using reversing_end (tailOf str.bytes len.toNat) str.bytes
  · simp
  · rw [hbytes]
    exact (reversing_start _ _).symm

/-- **WHEN `str_reverse` REVERSES THE STRING**: there is a NUL among the first `len` bytes, or these
    bytes are all equal. -/
theorem str_reverse_reverses_iff (str : Memory) (len : UInt32) (hlen : 0 < len) :
    (∃ str', str_reverse (some str) len = (SUCCESS, some str') ∧
      str'.bytes = reversePrefix (text str.bytes 0 len.toNat).length str.bytes) ↔
    (∃ i, i < len.toNat ∧ str.bytes i = 0) ∨ ∀ i, i < len.toNat → str.bytes i = str.bytes 0 := by
  obtain ⟨str', hrun, hbytes⟩ := str_reverse_bytes str hlen
  obtain ⟨n, hn⟩ : ∃ n, len.toNat = n + 1 := ⟨len.toNat - 1, by have := pos_toNat hlen; omega⟩
  have hnul := length_text_lt_iff str.bytes 0 len.toNat
  simp only [Nat.zero_add] at hnul
  have hiff : (∃ str', str_reverse (some str) len = (SUCCESS, some str') ∧
      str'.bytes = reversePrefix (text str.bytes 0 len.toNat).length str.bytes) ↔
      reversePrefix (tailOf str.bytes len.toNat) str.bytes
        = reversePrefix (text str.bytes 0 len.toNat).length str.bytes := by
    rw [hrun]
    constructor
    · rintro ⟨u, hu, hub⟩
      cases hu
      exact hbytes.symm.trans hub
    · intro heq
      exact ⟨str', rfl, hbytes.trans heq⟩
  rw [hiff, ← hnul, tailOf]
  by_cases hlt : (text str.bytes 0 len.toNat).length < len.toNat
  · rw [if_pos hlt]
    exact ⟨fun _ => Or.inl hlt, fun _ => rfl⟩
  · -- without a NUL the string has `n + 1` bytes and `n` of them are reversed
    have hfull : (text str.bytes 0 len.toNat).length = n + 1 := by
      have := length_text_le str.bytes 0 len.toNat
      omega
    rw [if_neg hlt, hfull, hn, Nat.add_sub_cancel, reversePrefix_succ_iff]
    constructor
    · intro h
      exact Or.inr fun i hi => h i (by omega)
    · rintro (h | h) i hi
      · exact absurd h (by omega)
      · exact h i (by omega)

/-- The memory that holds `s`, and NULs behind it. -/
def ofList (s : List UInt8) : Memory where
  bytes := bytesOf s

/-- A string and the NUL behind it, all of it within the length: `ab` becomes `ba`. -/
theorem str_reverse_reverses_ab :
    ∃ str', str_reverse (some (ofList [97, 98])) 3 = (SUCCESS, some str') ∧
      str'.bytes = reversePrefix (text (ofList [97, 98]).bytes 0 3).length (ofList [97, 98]).bytes :=
  (str_reverse_reverses_iff (ofList [97, 98]) 3 (by decide)).mpr (Or.inl ⟨2, by decide, rfl⟩)

/-- Without the NUL, as the caller passes a string: `ab` stays `ab`. -/
theorem str_reverse_keeps_ab :
    ¬ ∃ str', str_reverse (some (ofList [97, 98])) 2 = (SUCCESS, some str') ∧
      str'.bytes = reversePrefix (text (ofList [97, 98]).bytes 0 2).length
        (ofList [97, 98]).bytes := by
  rintro ⟨str', hrun, hbytes⟩
  cases hrun
  exact absurd (congrFun hbytes 0) (by decide)

end StrUtils
