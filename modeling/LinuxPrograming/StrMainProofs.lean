import LinuxPrograming.StrInPlaceProofs

/-!
# The string program (`1-GeneralKnowlegde/main.c`)

`main` trims a string, reverses what is left and reads it as a number, all in one array and with the
length of the original string: what `str_trim` moves is followed by the NULs that tell the other
two functions where the string ends.  Only where nothing was trimmed there is none, and
`str_reverse` keeps the last character in its place.

* **`main_eq`** — what `main` logs, for every initial string.
* **`reversedIn_iff`** — when the text is reversed.
-/

namespace StrUtils

open InPlace

/-! ## The program -/

/-- A line that `main` logs, with what it prints. -/
inductive LogLine where
  | trimmedString (text : List UInt8)
  | reverseString (text : List UInt8)
  | conversionError
  | convertedInteger (v : Int32)
deriving DecidableEq

/-- What `%s` prints of an array of `n` characters and one NUL more. -/
def shown (n : Nat) : Option Memory → List UInt8
  | none => []
  | some str => text str.bytes 0 (n + 1)

/-- What `main` logs of the result of `str_to_int`. -/
def resultLine (ret : Int32) : LogLine :=
  if ret = INT32_MAX then .conversionError else .convertedInteger ret

/-- `main`, with the string `s` in the array `str`. -/
def main (s : List UInt8) : List LogLine :=
  let len := UInt32.ofNat s.length
  let str := (str_trim (some (ofList s)) len).2
  let trimmedLine := .trimmedString (shown s.length str)
  let str := (str_reverse str len).2
  let reverseLine := .reverseString (shown s.length str)
  let ret := str_to_int (str.map Memory.bytes) len
  [trimmedLine, reverseLine, resultLine ret]

/-! ## What is printed -/

/-- The text `t` reversed in an array of `n` characters: a text that fills the array keeps its last
    character in its place. -/
def reversedIn (n : Nat) (t : List UInt8) : List UInt8 :=
  if t.length < n then t.reverse else t.dropLast.reverse ++ t.getLast?.toList

/-- The result of `str_to_int`, for a string. -/
def intOf (s : List UInt8) : Int32 := (signed s).elim INT32_MAX Int32.ofInt

/-- A NUL behind the array ends what `%s` prints. -/
theorem shown_eq {str : Memory} {n : Nat} (hnul : str.bytes n = 0) :
    shown n (some str) = text str.bytes 0 n := by
  have hz : (fun c => !is_null c) (str.bytes n) = false := by
    rw [hnul]
    rfl
  rw [shown, text_eq_segment, text_eq_segment, segment_concat, Nat.zero_add]
  exact takeWhile_append_cons (q := fun c => !is_null c) hz _ []

/-- The string of an array that holds `t` and NULs behind it. -/
theorem text_of_rightpad {f : Nat → UInt8} {t : List UInt8} {n : Nat} (ht : (0 : UInt8) ∉ t)
    (hseg : segment f 0 n = t.rightpad n 0) : text f 0 n = t := by
  have hpos : ∀ c ∈ t, (!is_null c) = true := by
    intro c hc
    have hne : c ≠ 0 := fun h => ht (h ▸ hc)
    simpa [is_null] using hne
  rw [text_eq_segment, hseg, List.rightpad, List.takeWhile_append_of_pos hpos]
  cases hm : n - t.length with
  | zero => rw [List.replicate_zero, List.takeWhile_nil, List.append_nil]
  | succ m =>
      rw [List.replicate_succ, List.takeWhile_cons, if_neg (by decide), List.append_nil]

/-- The array that holds a string. -/
theorem segment_ofList (s : List UInt8) : segment (ofList s).bytes 0 s.length = s := by
  refine List.ext_getElem (length_segment ..) ?_
  intro i hi hi'
  simp [InPlace.segment, ofList, bytesOf, hi']

/-- What `str_reverse` makes of a text with NULs behind it. -/
theorem segment_reversed {f : Nat → UInt8} {t : List UInt8} {n : Nat} (ht : (0 : UInt8) ∉ t)
    (hle : t.length ≤ n) (hseg : segment f 0 n = t.rightpad n 0) :
    segment (reversePrefix (tailOf f n) f) 0 n = (reversedIn n t).rightpad n 0 := by
  have htext : text f 0 n = t := text_of_rightpad ht hseg
  rw [tailOf, reversedIn, htext]
  by_cases hlt : t.length < n
  · -- the first NUL is behind the text
    have hsplit := segment_split f hle
    rw [hseg, List.rightpad] at hsplit
    obtain ⟨hfront, hback⟩ := List.append_inj hsplit (length_segment ..).symm
    rw [if_pos hlt, if_pos hlt, segment_reversePrefix hle, ← hfront, ← hback, List.rightpad,
      List.length_reverse]
  · -- no NUL, and the last character stays
    have hn : n = t.length := by omega
    subst hn
    rw [List.rightpad, Nat.sub_self, List.replicate_zero, List.append_nil] at hseg
    rw [if_neg hlt, if_neg hlt]
    cases t using List.reverseRecOn with
    | nil => rfl
    | append_singleton t c =>
        rw [List.length_append, List.length_singleton] at hseg ⊢
        rw [segment_concat, Nat.zero_add] at hseg
        obtain ⟨hfront, hback⟩ := List.append_inj hseg (length_segment ..)
        have hkept : segment f t.length (t.length + 1 - t.length) = [c] := by
          rw [Nat.add_sub_cancel_left, segment_succ, segment_zero, hback]
        rw [Nat.add_sub_cancel, segment_reversePrefix (Nat.le_succ _), hfront, hkept,
          List.dropLast_concat, List.getLast?_concat, Option.toList_some, List.rightpad,
          List.length_append, List.length_reverse, List.length_singleton, Nat.sub_self,
          List.replicate_zero, List.append_nil]

/-- Reversing in an array of `n` characters moves the characters of the text, no more. -/
theorem mem_reversedIn {n : Nat} {t : List UInt8} {c : UInt8} :
    c ∈ reversedIn n t ↔ c ∈ t := by
  rw [reversedIn]
  split
  · exact List.mem_reverse
  · cases t using List.reverseRecOn with
    | nil => exact Iff.rfl
    | append_singleton t d =>
        rw [List.dropLast_concat, List.getLast?_concat, Option.toList_some, List.mem_append,
          List.mem_append, List.mem_reverse]

/-- A list that may be shifted past `c` has nothing else in it. -/
theorem concat_eq_cons_iff {c : UInt8} {t : List UInt8} : t ++ [c] = c :: t ↔ ∀ d ∈ t, d = c := by
  induction t with
  | nil => simp
  | cons d t ih =>
      rw [List.cons_append, List.cons.injEq, List.forall_mem_cons]
      constructor
      · rintro ⟨rfl, h⟩
        exact ⟨rfl, ih.mp h⟩
      · rintro ⟨rfl, h⟩
        exact ⟨rfl, ih.mpr h⟩

/-- **WHEN THE TEXT IS REVERSED**: it does not fill the array, or its characters are all the same. -/
theorem reversedIn_iff {n : Nat} {t : List UInt8} (hle : t.length ≤ n) :
    reversedIn n t = t.reverse ↔ t.length < n ∨ ∀ c ∈ t, ∀ d ∈ t, c = d := by
  rw [reversedIn]
  by_cases hlt : t.length < n
  · rw [if_pos hlt]
    exact iff_of_true rfl (.inl hlt)
  · rw [if_neg hlt, or_iff_right hlt]
    cases t using List.reverseRecOn with
    | nil => simp
    | append_singleton t c =>
        rw [List.dropLast_concat, List.getLast?_concat, Option.toList_some, List.reverse_concat,
          concat_eq_cons_iff]
        constructor
        · intro h
          have hall : ∀ d ∈ t ++ [c], d = c := by
            intro d hd
            rcases List.mem_append.mp hd with hd | hd
            · exact h d (List.mem_reverse.mpr hd)
            · exact List.mem_singleton.mp hd
          intro d hd e he
          rw [hall d hd, hall e he]
        · intro h d hd
          exact h d (List.mem_append_left _ (List.mem_reverse.mp hd)) c
            (List.mem_append_right _ (List.mem_singleton_self c))

/-- What `str_to_int` makes of an array. -/
theorem str_to_int_intOf (str : Nat → UInt8) {len : UInt32} (hlen : 0 < len) :
    str_to_int (some str) len = intOf (text str 0 len.toNat) := by
  rw [str_to_int_eq str hlen, intOf]
  cases signed (text str 0 len.toNat) with
  | none => rfl
  | some v => rfl

/-- A string from which nothing is trimmed is as long as before. -/
theorem trimmed_length_lt_iff {s : List UInt8} :
    (trimmed isSpace s).length < s.length ↔ trimmed isSpace s ≠ s := by
  have hsub := trimmed_sublist isSpace s
  constructor
  · intro hlt heq
    rw [heq] at hlt
    exact Nat.lt_irrefl _ hlt
  · intro hne
    exact Nat.lt_of_le_of_ne hsub.length_le fun heq => hne (hsub.eq_of_length heq)

/-- **WHAT `main` LOGS**, for every initial string of up to `2 ^ 31` characters: the trimmed string;
    its characters in the order in which `str_reverse` leaves them in an array of the original
    length; and the integer modulo `2 ^ 32` that these denote.  The order is reversed exactly if
    something has been trimmed or the characters are all the same. -/
theorem main_eq {s : List UInt8} (hs : s ≠ []) (hmax : s.length ≤ 2 ^ 31) (hnul : (0 : UInt8) ∉ s) :
    main s = [.trimmedString (trimmed isSpace s),
      .reverseString (reversedIn s.length (trimmed isSpace s)),
      resultLine (intOf (reversedIn s.length (trimmed isSpace s)))] ∧
    (reversedIn s.length (trimmed isSpace s) = (trimmed isSpace s).reverse ↔
      trimmed isSpace s ≠ s ∨ ∀ c ∈ s, ∀ d ∈ s, c = d) := by
  have hlen : (UInt32.ofNat s.length).toNat = s.length :=
    UInt32.toNat_ofNat_of_lt' (by simp [UInt32.size]; omega)
  have hpos : (0 : UInt32) < UInt32.ofNat s.length := by
    rw [UInt32.lt_iff_toNat_lt, hlen]
    exact List.length_pos_iff.mpr hs
  have hend : (ofList s).bytes s.length = 0 := by simp [ofList, bytesOf]
  -- the array after `str_trim`
  obtain ⟨str, htrim, hseg, hwithin⟩ := str_trim_rightpad (ofList s) hpos (by rw [hlen]; exact hmax)
  rw [hlen, segment_ofList] at hseg
  have hsub := trimmed_sublist isSpace s
  have ht : (0 : UInt8) ∉ trimmed isSpace s := fun h => hnul (hsub.subset h)
  have hend₁ : str.bytes s.length = 0 := by
    rw [hwithin.frame s.length (by rw [hlen])]
    exact hend
  -- the array after `str_reverse`
  obtain ⟨str', hreverse, hbytes⟩ := str_reverse_bytes str hpos
  have hwithin' := str_reverse_within str hpos hreverse
  have hseg' : segment str'.bytes 0 s.length
      = (reversedIn s.length (trimmed isSpace s)).rightpad s.length 0 := by
    rw [hbytes, hlen]
    exact segment_reversed ht hsub.length_le hseg
  have ht' : (0 : UInt8) ∉ reversedIn s.length (trimmed isSpace s) :=
    fun h => ht (mem_reversedIn.mp h)
  have hend₂ : str'.bytes s.length = 0 := by
    rw [hwithin'.frame s.length (by rw [hlen])]
    exact hend₁
  have htext : text str'.bytes 0 s.length = reversedIn s.length (trimmed isSpace s) :=
    text_of_rightpad ht' hseg'
  constructor
  · simp only [main, htrim, hreverse, Option.map_some]
    rw [shown_eq hend₁, shown_eq hend₂, str_to_int_intOf _ hpos, hlen, htext,
      text_of_rightpad ht hseg]
  · rw [reversedIn_iff hsub.length_le, trimmed_length_lt_iff]
    by_cases heq : trimmed isSpace s = s
    · rw [heq]
    · exact iff_of_true (.inl heq) (.inl heq)

/-- The string of the source, `" Hello World  "`: it is trimmed, reversed, and no number. -/
example : main [32, 72, 101, 108, 108, 111, 32, 87, 111, 114, 108, 100, 32, 32] =
    [.trimmedString [72, 101, 108, 108, 111, 32, 87, 111, 114, 108, 100],
      .reverseString [100, 108, 114, 111, 87, 32, 111, 108, 108, 101, 72],
      .conversionError] := by decide

/-- The theorem for ` 12 `. -/
theorem main_eq_twelve : main [32, 49, 50, 32] =
    [.trimmedString [49, 50], .reverseString [50, 49], .convertedInteger 21] := by
  have h := main_eq (s := [32, 49, 50, 32]) (by simp) (by decide) (by decide)
  exact h.1.trans (by decide)

end StrUtils
