import LinuxPrograming.StrUtilsProofs

/-!
# The results of `str_to_int` (`strutils.c`)

Numbers and errors share the 32 bits that `str_to_int` returns: `ERRNO_II` for a null pointer and
for the length `0`, `INT32_MAX` for a character that is no digit, and nothing at all for a string
without digits or for a value that does not fit.

* **`str_to_int_spec`** — the function, by the grammar of its input; every `int32_t` is read back
  from its decimal text.
* **`str_to_int_separates_iff`** — which numbers cannot be told from which errors.
-/

namespace StrUtils

/-! ## Reading back -/

/-- The optional sign. -/
def sign (minus : Bool) : List UInt8 := if minus then [MINUS] else []

/-- The character of a digit. -/
def digitChar (d : Nat) : UInt8 := ZERO + UInt8.ofNat d

/-- The decimal digits of `n`, the most significant first; zero has one. -/
def decimal (n : Nat) : List UInt8 :=
  if n = 0 then [ZERO] else (Nat.digits 10 n).reverse.map digitChar

/-- The decimal text of `v` with `zeros` more zeros in front of the digits. -/
def decimalText (zeros : Nat) (v : Int) : List UInt8 :=
  sign (decide (v < 0)) ++ (List.replicate zeros ZERO ++ decimal v.natAbs)

theorem digitChar_table :
    ∀ d < 10, is_digit (digitChar d) = true ∧ (digitChar d - ZERO).toNat = d := by decide

theorem is_digit_ne_minus {c : UInt8} (h : is_digit c = true) : c ≠ MINUS := by
  intro hc
  rw [hc] at h
  exact absurd h (by decide)

/-- The digits behind the optional sign. -/
theorem unsignedPart_sign (minus : Bool) {ds : List UInt8} (hds : ∀ d ∈ ds, is_digit d = true) :
    unsignedPart (sign minus ++ ds) = ds := by
  cases minus with
  | true => rfl
  | false =>
      cases ds with
      | nil => rfl
      | cons d ds => exact if_neg (is_digit_ne_minus (hds d (List.mem_cons_self ..)))

/-- What an optional sign and digits denote. -/
theorem signed_sign (minus : Bool) {ds : List UInt8} (hds : ∀ d ∈ ds, is_digit d = true) :
    signed (sign minus ++ ds)
      = some (if minus then -(digitsValue ds : Int) else digitsValue ds) := by
  have hall : ds.all is_digit = true := List.all_eq_true.mpr hds
  rw [signed, unsignedPart_sign minus hds, if_pos hall]
  cases minus with
  | true => rfl
  | false =>
      cases ds with
      | nil => rfl
      | cons d ds =>
          have hd := is_digit_ne_minus (hds d (List.mem_cons_self ..))
          simp [sign, hd]

/-- A string that denotes an integer is an optional sign and digits. -/
theorem exists_sign_of_signed {s : List UInt8} {v : Int} (h : signed s = some v) :
    ∃ minus ds, (∀ d ∈ ds, is_digit d = true) ∧ s = sign minus ++ ds := by
  rw [signed] at h
  split at h
  case isFalse => cases h
  case isTrue hall =>
    have hds := List.all_eq_true.mp hall
    cases s with
    | nil => exact ⟨false, [], by simp, rfl⟩
    | cons c s =>
        rw [unsignedPart] at hds
        split at hds
        case isTrue hc => exact ⟨true, s, hds, by rw [hc]; rfl⟩
        case isFalse => exact ⟨false, c :: s, hds, rfl⟩

theorem digitsValue_replicate (zeros : Nat) (ds : List UInt8) :
    digitsValue (List.replicate zeros ZERO ++ ds) = digitsValue ds := by
  induction zeros with
  | zero => rfl
  | succ n ih =>
      rw [List.replicate_succ, List.cons_append, digitsValue_cons, ih]
      simp [ZERO]

/-- Every character of a decimal text is a digit … -/
theorem is_digit_of_mem_decimal {n : Nat} {c : UInt8} (h : c ∈ decimal n) : is_digit c = true := by
  rw [decimal] at h
  split at h
  · rw [List.mem_singleton.mp h]
    decide
  · obtain ⟨d, hd, rfl⟩ := List.mem_map.mp h
    exact (digitChar_table d (Nat.digits_lt_base (by decide) (List.mem_reverse.mp hd))).1

/-- … and the digits have the value that they were made from. -/
theorem digitsValue_decimal (n : Nat) : digitsValue (decimal n) = n := by
  rw [decimal]
  split
  case isTrue h => rw [h]; decide
  case isFalse =>
    have hback : ((Nat.digits 10 n).reverse.map digitChar).map (fun c => (c - ZERO).toNat)
        = (Nat.digits 10 n).reverse := by
      rw [List.map_map]
      conv_rhs => rw [← List.map_id (Nat.digits 10 n).reverse]
      refine List.map_congr_left ?_
      intro d hd
      exact (digitChar_table d (Nat.digits_lt_base (by decide) (List.mem_reverse.mp hd))).2
    rw [digitsValue, hback, List.reverse_reverse, Nat.ofDigits_digits]

/-- A decimal text denotes the number that it was made from. -/
theorem signed_decimalText (zeros : Nat) (v : Int) : signed (decimalText zeros v) = some v := by
  have hds : ∀ d ∈ List.replicate zeros ZERO ++ decimal v.natAbs, is_digit d = true := by
    intro d hd
    rcases List.mem_append.mp hd with hz | hdec
    · rw [List.eq_of_mem_replicate hz]
      decide
    · exact is_digit_of_mem_decimal hdec
  rw [decimalText, signed_sign _ hds, digitsValue_replicate, digitsValue_decimal]
  by_cases hneg : v < 0
  · rw [decide_eq_true hneg, if_pos rfl]
    congr 1
    omega
  · rw [decide_eq_false hneg, if_neg (by decide)]
    congr 1
    omega

/-- **THE FUNCTION**: an optional sign and digits give the integer that they denote modulo `2^32`,
    which is `0` where there is no digit; every number of the type is read back from its decimal
    text; any other string gives `INT32_MAX`. -/
theorem str_to_int_spec (str : Nat → UInt8) (len : UInt32) (hlen : 0 < len) :
    (∀ minus ds, (∀ d ∈ ds, is_digit d = true) → text str 0 len.toNat = sign minus ++ ds →
      str_to_int (some str) len
        = Int32.ofInt (if minus then -(digitsValue ds : Int) else digitsValue ds)) ∧
    (∀ minus, text str 0 len.toNat = sign minus → str_to_int (some str) len = 0) ∧
    (∀ (v : Int32) (zeros : Nat), text str 0 len.toNat = decimalText zeros v.toInt →
      str_to_int (some str) len = v) ∧
    ((¬ ∃ minus ds, (∀ d ∈ ds, is_digit d = true) ∧ text str 0 len.toNat = sign minus ++ ds) →
      str_to_int (some str) len = INT32_MAX) := by
  rw [str_to_int_eq str hlen]
  refine ⟨?_, ?_, ?_, ?_⟩
  · intro minus ds hds htext
    rw [htext, signed_sign minus hds]
  · intro minus htext
    rw [htext, ← List.append_nil (sign minus), signed_sign minus (by simp)]
    cases minus <;> rfl
  · intro v zeros htext
    rw [htext, signed_decimalText]
    exact Int32.ofInt_toInt v
  · intro hnot
    cases hs : signed (text str 0 len.toNat) with
    | none => rfl
    | some v => exact absurd (exists_sign_of_signed hs) hnot

/-- The text `-007`. -/
theorem str_to_int_spec_minus_seven :
    str_to_int (some (bytesOf (decimalText 2 (-7)))) 9 = -7 :=
  (str_to_int_spec (bytesOf (decimalText 2 (-7))) 9 (by decide)).2.2.1 (-7) 2 (by decide +kernel)

/-! ## Numbers and errors -/

/-- The integers of `int32_t`. -/
def InInt32 (v : Int) : Prop := -2 ^ 31 ≤ v ∧ v < 2 ^ 31

instance : DecidablePred InInt32 := fun v => by unfold InInt32; infer_instance

/-- The input is a decimal numeral, of the value `v` and within `int32_t`. -/
def Denotes (str : Option (Nat → UInt8)) (len : UInt32) (v : Int) : Prop :=
  InInt32 v ∧ 0 < len ∧ ∃ b, str = some b ∧ numeral (text b 0 len.toNat) = some v

/-- How an input that is no number comes to be taken for the number `v`. -/
inductive TakenFor (str : Option (Nat → UInt8)) (len : UInt32) (v : Int) : Prop where
  /-- the result `ERRNO_II` for a null pointer or the length `0` -/
  | rejected (h : validate_input str len = false) (hv : v = -1)
  /-- the result `INT32_MAX` for a character that is no digit -/
  | notDigit (b : Nat → UInt8) (hstr : str = some b) (hlen : 0 < len)
      (h : signed (text b 0 len.toNat) = none) (hv : v = 2147483647)
  /-- an empty string or a lone sign, which reads as `0` -/
  | noDigit (b : Nat → UInt8) (hstr : str = some b) (hlen : 0 < len)
      (h : unsignedPart (text b 0 len.toNat) = []) (hv : v = 0)
  /-- a numeral that does not fit, with the residue of `v` -/
  | wraps (b : Nat → UInt8) (hstr : str = some b) (hlen : 0 < len) (w : Int)
      (h : numeral (text b 0 len.toNat) = some w) (hw : ¬ InInt32 w) (hv : v % 2 ^ 32 = w % 2 ^ 32)

/-- Conversion to `int32_t` keeps the residue, and nothing else. -/
theorem ofInt_eq_iff (v w : Int) : Int32.ofInt v = Int32.ofInt w ↔ v % 2 ^ 32 = w % 2 ^ 32 := by
  constructor
  · intro h
    have hi := congrArg Int32.toInt h
    rw [Int32.toInt_ofInt, Int32.toInt_ofInt] at hi
    calc v % 2 ^ 32 = v.bmod Int32.size % Int32.size := Int.bmod_emod.symm
      _ = w.bmod Int32.size % Int32.size := by rw [hi]
      _ = w % 2 ^ 32 := Int.bmod_emod
  · intro h
    rw [← Int32.toInt_inj, Int32.toInt_ofInt, Int32.toInt_ofInt, Int.bmod, Int.bmod]
    simp only [Int32.size] at *
    norm_num at h ⊢
    rw [h]

theorem eq_of_residue {v w : Int} (hv : InInt32 v) (hw : InInt32 w)
    (h : v % 2 ^ 32 = w % 2 ^ 32) : v = w := by
  obtain ⟨hv₁, hv₂⟩ := hv
  obtain ⟨hw₁, hw₂⟩ := hw
  omega

/-- A number is returned as it is. -/
theorem str_to_int_of_denotes {str : Option (Nat → UInt8)} {len : UInt32} {v : Int}
    (h : Denotes str len v) : str_to_int str len = Int32.ofInt v := by
  obtain ⟨-, hlen, b, rfl, hnum⟩ := h
  rw [str_to_int_eq b hlen, signed_of_numeral hnum]

/-- What has no digits is read as `0`. -/
theorem signed_of_unsignedPart_nil {s : List UInt8} (h : unsignedPart s = []) :
    signed s = some 0 := by
  rw [signed, h]
  simp [digitsValue]

/-- The first way: the input is refused. -/
theorem takenFor_of_refused {str : Option (Nat → UInt8)} {len : UInt32} {v : Int}
    (hin : InInt32 v) (h : validate_input str len = false) :
    Int32.ofInt v = str_to_int str len ↔ TakenFor str len v := by
  have hres : str_to_int str len = Int32.ofInt (-1) := by
    unfold str_to_int
    rw [if_pos h]
    rfl
  rw [hres, ofInt_eq_iff]
  constructor
  · intro hv
    exact .rejected h (eq_of_residue hin (by decide) hv)
  · intro hv
    cases hv with
    | rejected _ hv => rw [hv]
    | notDigit b hstr hlen => simp [validate_input, hstr, hlen] at h
    | noDigit b hstr hlen => simp [validate_input, hstr, hlen] at h
    | wraps b hstr hlen => simp [validate_input, hstr, hlen] at h

/-- The second way: there is a character that is no digit. -/
theorem takenFor_of_not_signed {b : Nat → UInt8} {len : UInt32} {v : Int} (hin : InInt32 v)
    (hlen : 0 < len) (h : signed (text b 0 len.toNat) = none) :
    Int32.ofInt v = str_to_int (some b) len ↔ TakenFor (some b) len v := by
  have hres : str_to_int (some b) len = Int32.ofInt 2147483647 := by
    rw [str_to_int_eq b hlen, h]
    rfl
  rw [hres, ofInt_eq_iff]
  constructor
  · intro hv
    exact .notDigit b rfl hlen h (eq_of_residue hin (by decide) hv)
  · intro hv
    cases hv with
    | rejected hval => simp [validate_input, hlen] at hval
    | notDigit _ _ _ _ hv => rw [hv]
    | noDigit b' hstr _ hno =>
        cases hstr
        rw [signed_of_unsignedPart_nil hno] at h
        cases h
    | wraps b' hstr _ w hw =>
        cases hstr
        rw [signed_of_numeral hw] at h
        cases h

/-- The other two: a sign and digits that denote an integer, but are not a number. -/
theorem takenFor_of_signed {b : Nat → UInt8} {len : UInt32} {v w : Int} (hin : InInt32 v)
    (hlen : 0 < len) (h : signed (text b 0 len.toNat) = some w)
    (hinvalid : ¬ ∃ w, Denotes (some b) len w) :
    Int32.ofInt v = str_to_int (some b) len ↔ TakenFor (some b) len v := by
  rw [str_to_int_eq b hlen, h, ofInt_eq_iff]
  constructor
  · intro hv
    cases hnum : numeral (text b 0 len.toNat) with
    | none =>
        obtain ⟨hno, rfl⟩ := signed_of_not_numeral h hnum
        exact .noDigit b rfl hlen hno (eq_of_residue hin (by decide) hv)
    | some w' =>
        rw [signed_of_numeral hnum] at h
        cases h
        exact .wraps b rfl hlen w hnum (fun hw => hinvalid ⟨w, hw, hlen, b, rfl, hnum⟩) hv
  · intro hv
    cases hv with
    | rejected hval => simp [validate_input, hlen] at hval
    | notDigit b' hstr _ hno =>
        cases hstr
        rw [h] at hno
        cases hno
    | noDigit b' hstr _ hno hv =>
        cases hstr
        rw [signed_of_unsignedPart_nil hno] at h
        cases h
        rw [hv]
    | wraps b' hstr _ w' hnum _ hv =>
        cases hstr
        rw [signed_of_numeral hnum] at h
        cases h
        exact hv

/-- **WHICH RESULTS COLLIDE**: the result for a number differs from that for an input which is no
    number unless this is one of the four inputs taken for it. -/
theorem str_to_int_separates_iff (str₁ str₂ : Option (Nat → UInt8)) (len₁ len₂ : UInt32) (v : Int)
    (hvalid : Denotes str₁ len₁ v) (hinvalid : ¬ ∃ w, Denotes str₂ len₂ w) :
    str_to_int str₁ len₁ ≠ str_to_int str₂ len₂ ↔ ¬ TakenFor str₂ len₂ v := by
  rw [str_to_int_of_denotes hvalid, ne_eq, not_iff_not]
  cases hval : validate_input str₂ len₂ with
  | false => exact takenFor_of_refused hvalid.1 hval
  | true =>
      cases str₂ with
      | none => cases hval
      | some b =>
          have hlen : 0 < len₂ := by simpa [validate_input] using hval
          cases hs : signed (text b 0 len₂.toNat) with
          | none => exact takenFor_of_not_signed hvalid.1 hlen hs
          | some w => exact takenFor_of_signed hvalid.1 hlen hs hinvalid

/-- What is no numeral, or none within the type, is no number. -/
theorem not_denotes {b : Nat → UInt8} {len : UInt32}
    (h : ∀ v, numeral (text b 0 len.toNat) = some v → ¬ InInt32 v) :
    ¬ ∃ v, Denotes (some b) len v := by
  rintro ⟨v, hin, -, b', hb, hnum⟩
  cases hb
  exact h v hnum hin

/-- The text `x` is no number. -/
theorem not_denotes_x : ¬ ∃ v, Denotes (some (bytesOf [120])) 1 v := by
  refine not_denotes fun v hv => ?_
  rw [show numeral (text (bytesOf [120]) 0 (1 : UInt32).toNat) = none by decide] at hv
  cases hv

/-- The result for the number `1` differs from that for the text `x`. -/
theorem str_to_int_separates_one :
    str_to_int (some (bytesOf [49])) 1 ≠ str_to_int (some (bytesOf [120])) 1 := by
  refine (str_to_int_separates_iff (some (bytesOf [49])) (some (bytesOf [120])) 1 1 1
    ⟨by decide, by decide, _, rfl, by decide⟩ not_denotes_x).mpr ?_
  intro h
  cases h with
  | rejected h => cases h
  | notDigit _ _ _ _ hv => cases hv
  | noDigit _ _ _ _ hv => cases hv
  | wraps b hb _ w hw =>
      cases hb
      rw [show numeral (text (bytesOf [120]) 0 (1 : UInt32).toNat) = none by decide] at hw
      cases hw

/-- The number `0` is not told from the text `4294967296`, nor the number `2147483647` from the
    text `x`. -/
theorem str_to_int_collides :
    (Denotes (some (bytesOf [48])) 1 0 ∧
      (¬ ∃ v, Denotes (some (bytesOf [52, 50, 57, 52, 57, 54, 55, 50, 57, 54])) 10 v) ∧
      str_to_int (some (bytesOf [48])) 1
        = str_to_int (some (bytesOf [52, 50, 57, 52, 57, 54, 55, 50, 57, 54])) 10) ∧
    (Denotes (some (bytesOf [50, 49, 52, 55, 52, 56, 51, 54, 52, 55])) 10 2147483647 ∧
      (¬ ∃ v, Denotes (some (bytesOf [120])) 1 v) ∧
      str_to_int (some (bytesOf [50, 49, 52, 55, 52, 56, 51, 54, 52, 55])) 10
        = str_to_int (some (bytesOf [120])) 1) := by
  refine ⟨⟨⟨by decide, by decide, _, rfl, by decide⟩, not_denotes fun v hv => ?_, by decide⟩,
    ⟨by decide, by decide, _, rfl, by decide +kernel⟩, not_denotes_x, by decide +kernel⟩
  have hnum : numeral (text (bytesOf [52, 50, 57, 52, 57, 54, 55, 50, 57, 54]) 0
      (10 : UInt32).toNat) = some 4294967296 := by decide +kernel
  rw [hnum] at hv
  cases hv
  decide

end StrUtils
