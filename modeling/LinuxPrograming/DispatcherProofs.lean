import LinuxPrograming.CmnBaseProofs
import LinuxPrograming.StrUtilsProofs

/-!
# The task dispatcher (`7-Queue/dispatcher.c`)

The dispatcher reads a priority with `str_to_int`, stores it in a `uint32_t`, compares it with
`INT32_MAX` and sends the task.  The kernel rejects priorities from `MQ_PRIO_MAX` on.

`str_to_int` computes modulo `2^32` and reads a lone sign as `0`, and `strlen` is cut to 32 bits on
the way, so that some arguments that denote no priority are sent with one.

* **`main_enqueues_iff`** — what a run sends.
* **`dispatcher_exact_iff`** — the arguments with which the dispatcher does what it is for.
-/

namespace TaskQueue

open CmnBase StrUtils

/-! ## The program -/

/-- A C string: its bytes up to the terminating NUL. -/
structure CString where
  bytes : List UInt8
  noNul : (0 : UInt8) ∉ bytes

/-- The array that holds the string. -/
def CString.mem (s : CString) : Nat → UInt8 := fun i => s.bytes.getD i 0

def CString.strlen (s : CString) : Nat := s.bytes.length

def MQ_PRIO_MAX : Nat := 32768

/-- A message of the queue, with its priority. -/
structure Message where
  prio : UInt32
  body : List UInt8
deriving DecidableEq

/-- What a run of the dispatcher finds: the environment, and whether its calls succeed. -/
structure Kernel where
  dumpcore : Option String
  opens    : Bool
  accepts  : Bool

/-- The message that `mq_send` enqueues, if it does not fail; `accepts` is what the kernel does with
    a message of a priority that it has. -/
def mq_send (accepts : Bool) (m : Message) : Option Message :=
  if m.prio.toNat < MQ_PRIO_MAX ∧ accepts then some m else none

/-- The variable `prio`: the length is converted to `uint32_t`, the result from `int32_t`. -/
def priority (arg : CString) : UInt32 :=
  (str_to_int (some arg.mem) (UInt32.ofNat arg.strlen)).toUInt32

/-- The message that `main` is about to send; `none` if it terminates before. -/
def request : List CString → Option Message
  | [_, arg, task] =>
      let prio := priority arg
      if prio = INT32_MAX.toUInt32 then none else some ⟨prio, task.bytes⟩
  | _ => none

/-- What a run has done: the message it enqueued and how it ended. -/
structure Result where
  enqueued : Option Message
  ending   : Ending

def main (k : Kernel) (argv : List CString) : Result :=
  match request argv with
  | none => ⟨none, terminate k.dumpcore EXIT_FAILURE false⟩
  | some m =>
      if k.opens = false then ⟨none, .exit 1⟩
      else
        match mq_send k.accepts m with
        | none => ⟨none, .exit 1⟩
        | some m => ⟨some m, .exit 0⟩

/-! ## What a run sends -/

/-- `mq_send` enqueues the message that it is given, of a priority below `MQ_PRIO_MAX`. -/
theorem mq_send_eq_some {accepts : Bool} {m m' : Message} :
    mq_send accepts m = some m' ↔ m = m' ∧ m.prio.toNat < MQ_PRIO_MAX ∧ accepts = true := by
  rw [mq_send]
  split
  case isTrue h => simp [h]
  case isFalse h => simp [h]

/-- A run enqueues its request exactly if every call of it succeeds. -/
theorem main_enqueues_iff {k : Kernel} {argv : List CString} {m : Message} :
    (main k argv).enqueued = some m
      ↔ request argv = some m ∧ k.opens = true ∧ m.prio.toNat < MQ_PRIO_MAX
        ∧ k.accepts = true := by
  rw [main]
  cases request argv with
  | none => simp
  | some m₀ =>
      cases k.opens with
      | false => simp
      | true =>
          simp only [Bool.true_eq_false, if_false]
          cases hs : mq_send k.accepts m₀ with
          | none =>
              constructor
              · intro h
                cases h
              · rintro ⟨h, -, hm⟩
                cases h
                rw [mq_send_eq_some.mpr ⟨rfl, hm⟩] at hs
                cases hs
          | some m' =>
              obtain ⟨rfl, hm⟩ := mq_send_eq_some.mp hs
              constructor
              · intro h
                cases h
                exact ⟨rfl, trivial, hm⟩
              · rintro ⟨h, -⟩
                exact h

/-- What is sent is the text of a C string. -/
theorem request_noNul {argv : List CString} {m : Message} (h : request argv = some m) :
    (0 : UInt8) ∉ m.body := by
  unfold request at h
  split at h
  · simp only at h
    split at h
    · cases h
    · cases h
      exact CString.noNul _
  · cases h

/-- A run that enqueues nothing reports a failure. -/
theorem main_failed {k : Kernel} {argv : List CString} (h : (main k argv).enqueued = none) :
    (main k argv).ending.Failed := by
  have hone : (Ending.exit 1).Failed := by decide
  unfold main at h ⊢
  cases hr : request argv with
  | none => exact terminate_failed _ _ (by decide)
  | some m =>
      rw [hr] at h
      cases ho : k.opens with
      | false => exact hone
      | true =>
          simp only [ho, Bool.true_eq_false, if_false] at h ⊢
          cases hs : mq_send k.accepts m with
          | none => exact hone
          | some m' =>
              rw [hs] at h
              cases h

/-- What `str_to_int` is given of the argument. -/
theorem text_mem (s : CString) (n : Nat) : text s.mem 0 n = s.bytes.take n := by
  -- the induction drops the first byte, so the array is read from an offset
  suffices h : ∀ (bytes : List UInt8), (0 : UInt8) ∉ bytes → ∀ n idx,
      text (fun i => bytes.getD (i - idx) 0) idx n = bytes.take n from h s.bytes s.noNul n 0
  intro bytes hz n
  induction n generalizing bytes with
  | zero => intro idx; rfl
  | succ n ih =>
      intro idx
      rw [text_succ]
      cases bytes with
      | nil => simp [is_null]
      | cons c bytes =>
          have hc : is_null c = false := by
            have : c ≠ 0 := fun he => hz (by simp [he])
            simpa [is_null] using this
          simp only [Nat.sub_self, List.getD_cons_zero, hc, Bool.false_eq_true, if_false,
            List.take_succ_cons]
          rw [← ih bytes (fun hm => hz (List.mem_cons_of_mem c hm)) (idx + 1)]
          congr 1
          rw [text]
          congr 1
          refine List.map_congr_left ?_
          intro i hi
          have hlt : idx + 1 ≤ i := (List.mem_range'_1.mp hi).1
          rw [show i - idx = i - (idx + 1) + 1 by omega, List.getD_cons_succ]

/-! ## The priority -/

/-- The number of characters that `str_to_int` is told of. -/
def readLength (arg : CString) : Nat := arg.strlen % 2 ^ 32

/-- Conversion from `int32_t` to `uint32_t` keeps the residue. -/
theorem toNat_ofInt (v : Int) : ((Int32.ofInt v).toUInt32.toNat : Int) = v % 2 ^ 32 := by
  show ((BitVec.ofInt 32 v).toNat : Int) = v % 2 ^ 32
  rw [BitVec.toNat_ofInt]
  omega

/-- A length that is cut to `0` reads as `ERRNO_II`, as the empty string does. -/
theorem priority_empty {arg : CString} (h : readLength arg = 0) :
    (priority arg).toNat = 2 ^ 32 - 1 := by
  have hlen : UInt32.ofNat arg.strlen = 0 := by
    apply UInt32.toNat_inj.mp
    rw [UInt32.toNat_ofNat']
    exact h
  rw [priority]
  rw [hlen]
  rfl

/-- What `str_to_int` makes of the characters that it is told of. -/
theorem priority_eq {arg : CString} (hpos : 0 < readLength arg) :
    priority arg
      = match signed (arg.bytes.take (readLength arg)) with
        | none => INT32_MAX.toUInt32
        | some v => (Int32.ofInt v).toUInt32 := by
  have hlen : (UInt32.ofNat arg.strlen).toNat = readLength arg := UInt32.toNat_ofNat'
  rw [priority]
  rw [str_to_int_eq arg.mem (by rw [UInt32.lt_iff_toNat_lt, hlen]; exact hpos), hlen, text_mem]
  cases signed (arg.bytes.take (readLength arg)) with
  | none => rfl
  | some v => rfl

/-- What is no sign and digits reads as `INT32_MAX`. -/
theorem priority_invalid {arg : CString} (hpos : 0 < readLength arg)
    (h : signed (arg.bytes.take (readLength arg)) = none) :
    priority arg = INT32_MAX.toUInt32 := by
  rw [priority_eq hpos, h]

/-- A sign and digits read as a residue modulo `2^32`. -/
theorem priority_signed {arg : CString} {v : Int} (hpos : 0 < readLength arg)
    (h : signed (arg.bytes.take (readLength arg)) = some v) :
    ((priority arg).toNat : Int) = v % 2 ^ 32 := by
  rw [priority_eq hpos, h]
  exact toNat_ofInt v

/-! ## The arguments that are sent with a priority they do not denote -/

/-- A priority that the queue has. -/
def InRange (v : Int) : Prop := 0 ≤ v ∧ v < MQ_PRIO_MAX

instance : DecidablePred InRange := fun v => by unfold InRange; infer_instance

/-- The arguments that the dispatcher takes for a priority that they do not denote. -/
inductive Trap (s : List UInt8) : Prop where
  /-- a lone sign, which reads as `0` -/
  | signOnly (h : s = [MINUS])
  /-- a numeral out of range whose residue modulo `2^32` is in range -/
  | wraps (v : Int) (hlen : s.length < 2 ^ 32) (hv : numeral s = some v) (hout : ¬ InRange v)
      (hres : v % 2 ^ 32 < MQ_PRIO_MAX)
  /-- a string whose length is cut by the conversion, so that only a beginning of it is read -/
  | truncated (v : Int) (hlen : 2 ^ 32 ≤ s.length) (hpos : 0 < s.length % 2 ^ 32)
      (hv : signed (s.take (s.length % 2 ^ 32)) = some v) (hres : v % 2 ^ 32 < MQ_PRIO_MAX)
      (hne : numeral s ≠ some (v % 2 ^ 32))

/-- The queue has no priority `INT32_MAX`. -/
theorem int32_max_rejected : ¬ INT32_MAX.toUInt32.toNat < MQ_PRIO_MAX := by decide

/-- What a run of the dispatcher is for: a message is sent with the priority that the argument
    denotes, and an argument that denotes none is a failure. -/
def SendsExactly (arg : CString) : Prop :=
  ∀ (k : Kernel) (name task : CString),
    (∀ m, (main k [name, arg, task]).enqueued = some m →
      numeral arg.bytes = some (m.prio.toNat : Int))
    ∧ ((¬ ∃ v, InRange v ∧ numeral arg.bytes = some v) →
      (main k [name, arg, task]).enqueued = none ∧ (main k [name, arg, task]).ending.Failed)

/-- A run can enqueue a message with the priority that it read, and only with that, if this is
    below `MQ_PRIO_MAX`. -/
theorem request_eq_some {name arg task : CString} {m : Message} (h : m.prio.toNat < MQ_PRIO_MAX) :
    request [name, arg, task] = some m ↔ m = ⟨priority arg, task.bytes⟩ := by
  unfold request
  simp only
  split
  case isTrue he =>
    constructor
    · intro h
      cases h
    · rintro rfl
      rw [he] at h
      exact absurd h int32_max_rejected
  case isFalse => rw [Option.some.injEq, eq_comm]

/-- The dispatcher does what it is for exactly if it denotes the priority that it reads whenever
    the queue takes this one. -/
theorem sendsExactly_iff {arg : CString} :
    SendsExactly arg ↔ ((priority arg).toNat < MQ_PRIO_MAX →
      numeral arg.bytes = some ((priority arg).toNat : Int)) := by
  constructor
  -- an environment in which every call succeeds sends what was read
  · intro h hlt
    have hsent : (main ⟨none, true, true⟩ [arg, arg, arg]).enqueued
        = some ⟨priority arg, arg.bytes⟩ :=
      main_enqueues_iff.mpr ⟨(request_eq_some hlt).mpr rfl, rfl, hlt, rfl⟩
    exact (h ⟨none, true, true⟩ arg arg).1 _ hsent
  · intro h k name task
    have hsent : ∀ m, (main k [name, arg, task]).enqueued = some m →
        m.prio.toNat < MQ_PRIO_MAX ∧ numeral arg.bytes = some (m.prio.toNat : Int) := by
      intro m hm
      obtain ⟨hr, -, hlt, -⟩ := main_enqueues_iff.mp hm
      have := (request_eq_some hlt).mp hr
      subst this
      exact ⟨hlt, h hlt⟩
    refine ⟨fun m hm => (hsent m hm).2, ?_⟩
    intro hnone
    have henq : (main k [name, arg, task]).enqueued = none := by
      cases hm : (main k [name, arg, task]).enqueued with
      | none => rfl
      | some m =>
          obtain ⟨hlt, hv⟩ := hsent m hm
          exact absurd ⟨_, ⟨Int.natCast_nonneg _, by omega⟩, hv⟩ hnone
    exact ⟨henq, main_failed henq⟩

/-- A priority that the queue takes was read from a sign and digits. -/
theorem signed_of_accepted {arg : CString} (h : (priority arg).toNat < MQ_PRIO_MAX) :
    0 < readLength arg ∧ ∃ v, signed (arg.bytes.take (readLength arg)) = some v
      ∧ ((priority arg).toNat : Int) = v % 2 ^ 32 := by
  have hmax : MQ_PRIO_MAX = 32768 := rfl
  have hpos : 0 < readLength arg := by
    rcases Nat.eq_zero_or_pos (readLength arg) with hz | hpos
    · have := priority_empty hz
      omega
    · exact hpos
  refine ⟨hpos, ?_⟩
  cases hv : signed (arg.bytes.take (readLength arg)) with
  | none =>
      rw [priority_invalid hpos hv] at h
      exact absurd h int32_max_rejected
  | some v => exact ⟨v, rfl, priority_signed hpos hv⟩

/-- A string that is not cut is read as a whole. -/
theorem take_readLength (arg : CString) (h : arg.bytes.length < 2 ^ 32) :
    readLength arg = arg.bytes.length ∧ arg.bytes.take (readLength arg) = arg.bytes := by
  have heq : readLength arg = arg.bytes.length := Nat.mod_eq_of_lt h
  exact ⟨heq, by rw [heq, List.take_length]⟩

/-- A trap is taken by the queue, for a priority that it does not denote. -/
theorem Trap.sent {arg : CString} (h : Trap arg.bytes) :
    (priority arg).toNat < MQ_PRIO_MAX
      ∧ numeral arg.bytes ≠ some ((priority arg).toNat : Int) := by
  have hmax : MQ_PRIO_MAX = 32768 := rfl
  cases h with
  | signOnly h =>
      have hlen : arg.bytes.length = 1 := by rw [h]; rfl
      obtain ⟨heq, htake⟩ := take_readLength arg (by omega)
      have hv : ((priority arg).toNat : Int) = 0 % 2 ^ 32 :=
        priority_signed (by omega) (by rw [htake, h]; decide)
      refine ⟨by omega, ?_⟩
      rw [h]
      intro h
      cases h
  | wraps v hlen hv hout hres =>
      obtain ⟨heq, htake⟩ := take_readLength arg hlen
      have hpos : 0 < arg.bytes.length := by
        cases hs : arg.bytes with
        | nil => rw [hs] at hv; cases hv
        | cons c s => exact Nat.succ_pos _
      -- the residue is sent, which is not the value
      have hp := priority_signed (by omega) (htake.symm ▸ signed_of_numeral hv)
      refine ⟨by omega, fun hn => hout ?_⟩
      rw [hv, Option.some.injEq] at hn
      exact ⟨by omega, by omega⟩
  | truncated v hlen hpos hv hres hne =>
      have hp : ((priority arg).toNat : Int) = v % 2 ^ 32 := priority_signed hpos hv
      rw [hp]
      exact ⟨by omega, hne⟩

/-- What the queue takes for a priority that it does not denote is a trap. -/
theorem Trap.of_sent {arg : CString} (h : (priority arg).toNat < MQ_PRIO_MAX)
    (hne : numeral arg.bytes ≠ some ((priority arg).toNat : Int)) : Trap arg.bytes := by
  have hmax : MQ_PRIO_MAX = 32768 := rfl
  obtain ⟨hpos, v, hv, hp⟩ := signed_of_accepted h
  have hres : v % 2 ^ 32 < MQ_PRIO_MAX := by omega
  by_cases hlen : arg.bytes.length < 2 ^ 32
  · obtain ⟨heq, htake⟩ := take_readLength arg hlen
    rw [htake] at hv
    cases hn : numeral arg.bytes with
    | none =>
        -- no digit was read, but at least one character
        obtain ⟨hempty, -⟩ := signed_of_not_numeral hv hn
        exact .signOnly (eq_minus_of_unsignedPart (by omega) hempty)
    | some w =>
        have hw := signed_of_numeral hn
        rw [hv, Option.some.injEq] at hw
        subst hw
        refine .wraps v hlen hn (fun hin => hne ?_) hres
        rw [hn, hp, Int.emod_eq_of_lt hin.1 (by have := hin.2; omega)]
  · exact .truncated v (by omega) hpos hv hres (hp ▸ hne)

/-- **WHEN THE DISPATCHER SENDS EXACTLY WHAT IT IS TOLD**: whatever the environment does, a run
    sends its task with the priority that the argument denotes and fails on an argument that
    denotes none, exactly if the argument is no trap. -/
theorem dispatcher_exact_iff (arg : CString) : SendsExactly arg ↔ ¬ Trap arg.bytes := by
  rw [sendsExactly_iff]
  constructor
  · rintro h ht
    obtain ⟨hlt, hne⟩ := ht.sent
    exact hne (h hlt)
  · intro ht hlt
    by_contra hne
    exact ht (.of_sent hlt hne)

/-- `"4294967297"` is sent with priority `1`. -/
theorem wrapped_priority :
    ¬ ∀ (arg : CString), SendsExactly arg := by
  intro h
  have := (h ⟨[52, 50, 57, 52, 57, 54, 55, 50, 57, 55], by decide⟩ ⟨none, true, true⟩
    ⟨[], by decide⟩ ⟨[116], by decide⟩).1 ⟨1, [116]⟩ (by decide +kernel)
  exact absurd this (by decide +kernel)

end TaskQueue
