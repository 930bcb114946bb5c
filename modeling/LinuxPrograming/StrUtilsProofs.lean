import Mathlib.Data.Nat.Digits.Defs

/-!
# `strutils.c` (`1-GeneralKnowlegde/`)

The string functions work on a `char` array and a 32-bit length.  A `char` is its byte: nothing in
the file depends on the sign of a `char`.

* **`str_to_int_eq`** — what `str_to_int` reads, for every array and every length but `0`: the
  signed integer modulo `2^32`, or `INT32_MAX`.
-/

namespace StrUtils

/-! ## The program -/

def ERRNO_II : Int32 := -1

def INT32_MAX : Int32 := 2147483647

/-- The character `'-'`. -/
def MINUS : UInt8 := 45

/-- The character `'0'`. -/
def ZERO : UInt8 := 48

/-- The character `'9'`. -/
def NINE : UInt8 := 57

def validate_input {α : Type} (str : Option α) (len : UInt32) : Bool :=
  str.isSome && decide (0 < len)

def is_digit (c : UInt8) : Bool := decide (ZERO ≤ c) && decide (c ≤ NINE)

def is_null (c : UInt8) : Bool := c == 0

/-- The loop of `str_to_int`, `n` rounds before `idx` reaches `len`; `none` if it leaves the
    function. -/
def convert (str : Nat → UInt8) : Nat → Nat → UInt32 → Option UInt32
  | 0, _, ret => some ret
  | n + 1, idx, ret =>
      if is_null (str idx) then some ret
      else if is_digit (str idx) = false then none
      else convert str n (idx + 1) (ret * 10 + (str idx - ZERO).toUInt32)

/-- `none` is the null pointer. -/
def str_to_int (str : Option (Nat → UInt8)) (len : UInt32) : Int32 :=
  if validate_input str len = false then ERRNO_II
  else
    match str with
    | none => ERRNO_II
    | some str =>
        let idx := if str 0 = MINUS then 1 else 0
        match convert str (len.toNat - idx) idx 0 with
        | none => INT32_MAX
        | some ret => if str 0 = MINUS then (-ret).toInt32 else ret.toInt32

/-- The array that holds `s`, and NULs behind it. -/
def bytesOf (s : List UInt8) (i : Nat) : UInt8 := s.getD i 0

/-! ## Decimal numerals -/

/-- The integer that a list of digits, the most significant first, denotes. -/
def digitsValue (ds : List UInt8) : Nat :=
  Nat.ofDigits 10 (ds.map fun c => (c - ZERO).toNat).reverse

/-- What follows the optional sign. -/
def unsignedPart : List UInt8 → List UInt8
  | [] => []
  | c :: s => if c = MINUS then s else c :: s

/-- The integer that an optional sign and any number of digits denote. -/
def signed (s : List UInt8) : Option Int :=
  if (unsignedPart s).all is_digit then
    some (if s.head? = some MINUS then -(digitsValue (unsignedPart s) : Int)
      else digitsValue (unsignedPart s))
  else none

/-- The integer that a decimal numeral, which has at least one digit, denotes. -/
def numeral (s : List UInt8) : Option Int :=
  if unsignedPart s = [] then none else signed s

/-- The bytes of `n` characters from index `idx` on, up to the first NUL. -/
def text (str : Nat → UInt8) (idx n : Nat) : List UInt8 :=
  ((List.range' idx n).map str).takeWhile fun c => !is_null c

/-- A numeral is a sign and digits, and denotes what they denote. -/
theorem signed_of_numeral {s : List UInt8} {v : Int} (h : numeral s = some v) :
    signed s = some v := by
  unfold numeral at h
  split at h
  · cases h
  · exact h

/-- What is no numeral although it is a sign and digits has no digit, and so reads as `0`. -/
theorem signed_of_not_numeral {s : List UInt8} {v : Int} (h : signed s = some v)
    (hn : numeral s = none) : unsignedPart s = [] ∧ v = 0 := by
  unfold numeral at hn
  split at hn
  case isTrue he =>
    refine ⟨he, ?_⟩
    unfold signed at h
    rw [he] at h
    simpa [digitsValue] using h.symm
  case isFalse => rw [h] at hn; cases hn

/-- A string without digits is empty or a lone sign. -/
theorem eq_minus_of_unsignedPart {s : List UInt8} (hs : 0 < s.length) (h : unsignedPart s = []) :
    s = [MINUS] := by
  cases s with
  | nil => exact absurd hs (by decide)
  | cons c s =>
      rw [unsignedPart] at h
      split at h
      case isTrue hc => rw [hc, h]
      case isFalse => cases h

/-! ## What `str_to_int` computes -/

/-- One more digit in front of a list of digits. -/
theorem digitsValue_cons (c : UInt8) (ds : List UInt8) :
    digitsValue (c :: ds) = (c - ZERO).toNat * 10 ^ ds.length + digitsValue ds := by
  unfold digitsValue
  rw [List.map_cons, Nat.ofDigits_reverse_cons, List.length_map, Nat.mul_comm, Nat.add_comm]

theorem text_succ (str : Nat → UInt8) (idx n : Nat) :
    text str idx (n + 1) = if is_null (str idx) then [] else str idx :: text str (idx + 1) n := by
  unfold text
  rw [List.range'_succ, List.map_cons, List.takeWhile_cons]
  cases is_null (str idx) with
  | true => rfl
  | false => rfl

/-- The loop reads digits up to the first NUL and computes modulo `2^32`; `acc` is what it has
    read so far. -/
theorem convert_eq (str : Nat → UInt8) (n idx acc : Nat) :
    convert str n idx (UInt32.ofNat acc)
      = if (text str idx n).all is_digit then
          some (UInt32.ofNat (acc * 10 ^ (text str idx n).length + digitsValue (text str idx n)))
        else none := by
  induction n generalizing idx acc with
  | zero => simp [convert, text, digitsValue]
  | succ n ih =>
      unfold convert
      rw [text_succ]
      cases hz : is_null (str idx) with
      | true => simp [digitsValue]
      | false =>
          cases hd : is_digit (str idx) with
          | false => simp [hd]
          | true =>
              -- reduction modulo `2^32` commutes with the step of the loop
              have hacc : UInt32.ofNat acc * 10 + (str idx - ZERO).toUInt32
                  = UInt32.ofNat (acc * 10 + (str idx - ZERO).toNat) := by
                rw [UInt32.ofNat_add, UInt32.ofNat_mul, UInt32.ofNat_uInt8ToNat]
                rfl
              simp only [Bool.false_eq_true, if_false, Bool.true_eq_false, hacc, ih,
                List.all_cons, hd, Bool.true_and, digitsValue_cons, List.length_cons]
              congr 3
              ring

/-- The loop from its start. -/
theorem convert_zero (str : Nat → UInt8) (n idx : Nat) :
    convert str n idx 0
      = if (text str idx n).all is_digit then
          some (UInt32.ofNat (digitsValue (text str idx n)))
        else none := by
  have h := convert_eq str n idx 0
  rw [Nat.zero_mul, Nat.zero_add] at h
  exact h

/-- Conversion from `uint32_t` to `int32_t` is modulo `2^32`. -/
theorem toInt32_ofNat (n : Nat) : (UInt32.ofNat n).toInt32 = Int32.ofInt n := by
  rw [UInt32.toInt32_ofNat', Int32.ofInt_eq_ofNat]

theorem toInt32_neg_ofNat (n : Nat) : (-UInt32.ofNat n).toInt32 = Int32.ofInt (-n) := by
  rw [UInt32.toInt32_neg, toInt32_ofNat, Int32.ofInt_neg]

/-- The string is its sign and what follows the sign. -/
theorem unsignedPart_text (str : Nat → UInt8) (n : Nat) :
    unsignedPart (text str 0 (n + 1))
      = if str 0 = MINUS then text str 1 n else text str 0 (n + 1) := by
  rw [text_succ]
  cases hz : is_null (str 0) with
  | true =>
      have hne : str 0 ≠ MINUS := by
        intro he
        rw [he] at hz
        exact absurd hz (by decide)
      simp [unsignedPart, hne]
  | false => simp [unsignedPart]

/-- The text starts with the sign exactly if the array does. -/
theorem head_text (str : Nat → UInt8) (n : Nat) :
    (text str 0 (n + 1)).head? = some MINUS ↔ str 0 = MINUS := by
  rw [text_succ]
  cases hz : is_null (str 0) with
  | true =>
      simp only [if_true, List.head?_nil, reduceCtorEq, false_iff]
      intro he
      rw [he] at hz
      exact absurd hz (by decide)
  | false => simp

/-- **WHAT `str_to_int` COMPUTES**: of an optional sign and any number of digits the signed integer
    modulo `2^32`, and `INT32_MAX` of every other string. -/
theorem str_to_int_eq (str : Nat → UInt8) {len : UInt32} (hlen : 0 < len) :
    str_to_int (some str) len
      = match signed (text str 0 len.toNat) with
        | none => INT32_MAX
        | some v => Int32.ofInt v := by
  have hvalid : validate_input (some str) len = true := by simp [validate_input, hlen]
  obtain ⟨n, hn⟩ : ∃ n, len.toNat = n + 1 := by
    refine ⟨len.toNat - 1, ?_⟩
    have : (0 : UInt32).toNat < len.toNat := hlen
    have h0 : (0 : UInt32).toNat = 0 := rfl
    omega
  unfold str_to_int signed
  rw [hvalid, hn, unsignedPart_text]
  simp only [head_text, Bool.true_eq_false, if_false]
  by_cases hm : str 0 = MINUS
  · simp only [if_pos hm, Nat.add_sub_cancel, convert_zero]
    cases hd : (text str 1 n).all is_digit with
    | true => exact toInt32_neg_ofNat _
    | false => rfl
  · simp only [if_neg hm, Nat.sub_zero, convert_zero]
    cases hd : (text str 0 (n + 1)).all is_digit with
    | true => exact toInt32_ofNat _
    | false => rfl

end StrUtils
