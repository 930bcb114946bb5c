import LinuxPrograming.TransitionProofs
import LinuxPrograming.ByteStreamProofs
import LinuxPrograming.CmnBaseProofs
import Mathlib.Data.Fintype.Basic

/-!
# A product in shared memory (`9-ShareMemory/`)

Producers copy the same record into a shared memory object, consumers copy it out and print it.
Nothing orders the two: a consumer may find no object, an object of size 0, or one that is half
written.  The bytes of a `memcpy` are copied in any order.

* **`Advances`** — what a step can do to the object: it gets its size once, and a byte that has its
  last value keeps it.
* **`reads_harmless`** — nobody touches memory outside the object, and what a consumer prints is the
  product with some parts still zero.
* **`reads_product`** — a consumer that starts to copy when a producer is through prints nothing but
  the product; **`late_consumer_completes`** adds that it gets there.
-/

namespace ShareMemory

open Transition CmnBase

/-! ## The programs -/

structure ProductInfo where
  id    : Int
  price : Int
  name  : List UInt8
deriving DecidableEq

/-- The record of the producers; its name is `"Sample Product"`. -/
def product : ProductInfo :=
  ⟨1, 100, [83, 97, 109, 112, 108, 101, 32, 80, 114, 111, 100, 117, 99, 116]⟩

/-- `sizeof(ProductInfo)`: two `int` and a `char[256]`. -/
def len : Nat := 264

/-- Byte `i` of an `int`, the lowest first. -/
def intByte (n : Int) (i : Nat) : UInt8 := UInt8.ofNat ((n % 2 ^ 32).toNat / 256 ^ i % 256)

/-- The record in memory; `name` is filled with zeros. -/
def ProductInfo.bytes (p : ProductInfo) (k : Nat) : UInt8 :=
  if k < 4 then intByte p.id k
  else if k < 8 then intByte p.price (k - 4)
  else p.name.getD (k - 8) 0

/-- The `int` at `k`. -/
def intAt (m : Nat → UInt8) (k : Nat) : Int :=
  let n : Nat := (m k).toNat + 256 * (m (k + 1)).toNat + 256 ^ 2 * (m (k + 2)).toNat
    + 256 ^ 3 * (m (k + 3)).toNat
  if n < 2 ^ 31 then n else (n : Int) - 2 ^ 32

/-- What `%s` prints of an array of `n` bytes; without a zero it would run over the end. -/
def stringAt (m : Nat → UInt8) (n : Nat) : Option (List UInt8) :=
  let text := ((List.range n).map m).takeWhile fun c => c ≠ 0
  if text.length < n then some text else none

/-- What the consumer prints of its record. -/
def printed (m : Nat → UInt8) : Option ProductInfo :=
  (stringAt (fun k => m (8 + k)) 256).map fun name => ⟨intAt m 0, intAt m 4, name⟩

/-- The object `my_shared_memory`; bytes outside its size are zero. -/
structure Object where
  size  : Nat
  bytes : Nat → UInt8

/-- What `shm_open` creates. -/
def Object.created : Object := ⟨0, fun _ => 0⟩

/-- `ftruncate`. -/
def Object.truncate (ob : Object) (n : Nat) : Object :=
  ⟨n, fun k => if k < n then ob.bytes k else 0⟩

def Object.store (ob : Object) (k : Nat) (c : UInt8) : Object :=
  { ob with bytes := Function.update ob.bytes k c }

/-- Where a producer is: before the call that the control point names.  `left` are the bytes that
    `memcpy` has still to copy; `faulted` is an access outside the mapped object. -/
inductive Producer where
  | shm_open
  | ftruncate
  | mmap
  | close
  | memcpy (left : List Nat)
  | failed (error : String) (e : Ending)
  | done
  | faulted

/-- Where a consumer is; `st_size` is the length of its mapping and `product` its copy. -/
inductive Consumer where
  | shm_open
  | fstat
  | mmap (st_size : Nat)
  | close (st_size : Nat)
  | memcpy (st_size : Nat) (left : List Nat) (product : Nat → UInt8)
  | failed (error : String) (e : Ending)
  | done (printed : ProductInfo)
  | faulted

/-- How the next call of a process ends, or which byte its `memcpy` copies next. -/
inductive Outcome where
  | ok
  | fails
  | copies (k : Nat)

/-- A system call whose failure is logged and ends the process. -/
def attempt {α : Type} (name : String) (dumpcore : Option String) (failed : String → Ending → α)
    (next : Option α) : Outcome → Option α
  | .ok       => next
  | .fails    => some (failed name (terminate dumpcore EXIT_FAILURE true))
  | .copies _ => none

/-- A step of a producer; the object and where the producer is after it. -/
def producerStep (dumpcore : Option String) (object : Option Object) (o : Outcome) :
    Producer → Option (Option Object × Producer)
  | .shm_open  => attempt "shm_open" dumpcore (fun name e => (object, .failed name e))
      (some (some (object.getD .created), .ftruncate)) o
  | .ftruncate => attempt "ftruncate" dumpcore (fun name e => (object, .failed name e))
      (object.map fun ob => (some (ob.truncate len), .mmap)) o
  | .mmap      => attempt "mmap" dumpcore (fun name e => (object, .failed name e))
      (some (object, .close)) o
  | .close     => attempt "close" dumpcore (fun name e => (object, .failed name e))
      (some (object, .memcpy (List.range len))) o
  | .memcpy left =>
      match o with
      | .copies k =>
          if k ∈ left then object.map fun ob =>
            if k < ob.size then (some (ob.store k (product.bytes k)), .memcpy (left.erase k))
            else (object, .faulted)
          else none
      | .ok       => if left = [] then some (object, .done) else none
      | .fails    => none
  | .failed _ _ | .done | .faulted => none

/-- A step of a consumer; `shm_open` fails without an object and `mmap` with size 0.  `stack` is what
    its record holds before the copy. -/
def consumerStep (dumpcore : Option String) (stack : Nat → UInt8) (object : Option Object)
    (o : Outcome) : Consumer → Option Consumer
  | .shm_open => attempt "shm_open" dumpcore .failed (object.map fun _ => .fstat) o
  | .fstat    => attempt "fstat" dumpcore .failed (object.map fun ob => .mmap ob.size) o
  | .mmap st_size => attempt "mmap" dumpcore .failed
      (if st_size = 0 then none else some (.close st_size)) o
  | .close st_size => attempt "close" dumpcore .failed
      (some (.memcpy st_size (List.range len) stack)) o
  | .memcpy st_size left m =>
      match o with
      | .copies k =>
          if k ∈ left then object.map fun ob =>
            if k < st_size ∧ k < ob.size
            then .memcpy st_size (left.erase k) (Function.update m k (ob.bytes k)) else .faulted
          else none
      | .ok       => if left = [] then some ((printed m).elim .faulted .done) else none
      | .fails    => none
  | .failed _ _ | .done _ | .faulted => none

/-- The object, if there is one, and any number of processes. -/
structure State (ι κ : Type) where
  object   : Option Object
  producer : ι → Producer
  consumer : κ → Consumer

inductive Act (ι κ : Type) where
  | producer (i : ι) (o : Outcome)
  | consumer (j : κ) (o : Outcome)

variable {ι κ : Type} [DecidableEq ι] [DecidableEq κ]

def step (dumpcore : Option String) (stack : Nat → UInt8) (s : State ι κ) :
    Act ι κ → Option (State ι κ)
  | .producer i o => (producerStep dumpcore s.object o (s.producer i)).map fun next =>
      { s with object := next.1, producer := Function.update s.producer i next.2 }
  | .consumer j o => (consumerStep dumpcore stack s.object o (s.consumer j)).map fun next =>
      { s with consumer := Function.update s.consumer j next }

def opening : State ι κ := ⟨none, fun _ => .shm_open, fun _ => .shm_open⟩

/-! ## Reading a record that is half written -/

/-- Every byte is still zero or has its last value. -/
def Partly (m : Nat → UInt8) : Prop := ∀ k, k < len → m k = 0 ∨ m k = product.bytes k

/-- A text of which some bytes are still zero reads as a beginning of it. -/
theorem takeWhile_prefix (text : List UInt8) (m : Nat → UInt8) (n : Nat)
    (h : ∀ k, k < n → m k = 0 ∨ m k = text.getD k 0) :
    ((List.range n).map m).takeWhile (fun c => c ≠ 0) <+: text := by
  induction n generalizing text m with
  | zero => exact List.nil_prefix
  | succ n ih =>
      rw [List.range_succ_eq_map, List.map_cons, List.map_map]
      by_cases hzero : m 0 = 0
      · rw [List.takeWhile_cons_of_neg (by simpa using hzero)]
        exact List.nil_prefix
      · have hhead : m 0 = text.getD 0 0 := (h 0 (Nat.succ_pos n)).resolve_left hzero
        cases text with
        | nil => exact absurd hhead hzero
        | cons c text =>
            rw [List.takeWhile_cons_of_pos (by simpa using hzero),
              show m 0 = c from hhead, List.prefix_cons_inj]
            exact ih text (m ∘ Nat.succ) fun k hk => h (k + 1) (Nat.succ_lt_succ hk)

/-- The `int` whose lowest byte alone is not zero. -/
theorem intAt_of_low {m : Nat → UInt8} {k : Nat} {c : UInt8} (h₀ : m k = 0 ∨ m k = c)
    (h₁ : m (k + 1) = 0) (h₂ : m (k + 2) = 0) (h₃ : m (k + 3) = 0) :
    intAt m k = 0 ∨ intAt m k = c.toNat := by
  have hlow : (m k).toNat < 256 := (m k).toNat_lt
  have hint : intAt m k = (m k).toNat := by
    simp only [intAt, h₁, h₂, h₃, UInt8.toNat_zero, Nat.mul_zero, Nat.add_zero]
    rw [if_pos (by omega)]
  rcases h₀ with h₀ | h₀
  · exact .inl (by rw [hint, h₀]; rfl)
  · exact .inr (by rw [hint, h₀])

/-- Parts of the product. -/
def PartOf (p : ProductInfo) : Prop :=
  (p.id = 0 ∨ p.id = product.id) ∧ (p.price = 0 ∨ p.price = product.price) ∧
    p.name <+: product.name

theorem Partly.eq_zero {m : Nat → UInt8} (h : Partly m) {k : Nat} (hk : k < len)
    (hzero : product.bytes k = 0) : m k = 0 := (h k hk).elim id fun he => he.trans hzero

/-- What a consumer prints of such a record. -/
theorem Partly.printed {m : Nat → UInt8} (h : Partly m) :
    ∃ p, ShareMemory.printed m = some p ∧ PartOf p := by
  have hname := takeWhile_prefix product.name (fun k => m (8 + k)) 256 fun k hk => by
    have hbyte := h (8 + k) (by unfold len; omega)
    rwa [ProductInfo.bytes, if_neg (by omega), if_neg (by omega), Nat.add_sub_cancel_left] at hbyte
  have hshort := Nat.lt_of_le_of_lt hname.length_le (show product.name.length < 256 by decide)
  have htext : stringAt (fun k => m (8 + k)) 256 = some _ := if_pos hshort
  refine ⟨_, (congrArg (Option.map _) htext).trans (Option.map_some ..), ?_, ?_, hname⟩
  · exact intAt_of_low (h 0 (by decide)) (h.eq_zero (by decide) rfl) (h.eq_zero (by decide) rfl)
      (h.eq_zero (by decide) rfl)
  · exact intAt_of_low (h 4 (by decide)) (h.eq_zero (by decide) rfl) (h.eq_zero (by decide) rfl)
      (h.eq_zero (by decide) rfl)

/-- The whole record prints as the product. -/
theorem printed_product {m : Nat → UInt8} (h : ∀ k, k < len → m k = product.bytes k) :
    printed m = some product := by
  have hname : (List.range 256).map (fun k => m (8 + k))
      = (List.range 256).map fun k => product.bytes (8 + k) :=
    List.map_congr_left fun k hk => h (8 + k) (by
      have := List.mem_range.mp hk
      unfold len
      omega)
  have hints : intAt m 0 = 1 ∧ intAt m 4 = 100 := by
    simp only [intAt, h 0 (by decide), h 1 (by decide), h 2 (by decide), h 3 (by decide),
      h 4 (by decide), h 5 (by decide), h 6 (by decide), h 7 (by decide), Nat.zero_add]
    decide
  rw [printed, stringAt, hname, hints.1, hints.2]
  decide +kernel

/-! ## What a step does to the object -/

/-- The object has the size of a record. -/
def Sized (object : Option Object) : Prop := ∃ ob, object = some ob ∧ ob.size = len

/-- Byte `k` has been written. -/
def Written (object : Option Object) (k : Nat) : Prop :=
  ∃ ob, object = some ob ∧ ob.bytes k = product.bytes k

@[simp] theorem sized_some (ob : Object) : Sized (some ob) ↔ ob.size = len := by simp [Sized]

@[simp] theorem written_some (ob : Object) (k : Nat) :
    Written (some ob) k ↔ ob.bytes k = product.bytes k := by simp [Written]

/-- What a step can do to the object. -/
structure Advances (object object' : Option Object) : Prop where
  exists_ : object.isSome → object'.isSome
  sized   : Sized object → Sized object'
  written : ∀ k, Sized object → k < len → Written object k → Written object' k

/-- What holds of the object at any time. -/
structure ObjectInv (ob : Object) : Prop where
  size  : ob.size = 0 ∨ ob.size = len
  bytes : Partly ob.bytes

theorem Advances.refl (object : Option Object) : Advances object object :=
  ⟨id, id, fun _ _ _ h => h⟩

theorem ObjectInv.created : ObjectInv .created := ⟨.inl rfl, fun _ _ => .inl rfl⟩

theorem ObjectInv.truncate {ob : Object} (h : ObjectInv ob) : ObjectInv (ob.truncate len) := by
  refine ⟨.inr rfl, ?_⟩
  intro k hk
  rw [Object.truncate]
  simp only [hk, if_true]
  exact h.bytes k hk

theorem ObjectInv.store {ob : Object} (h : ObjectInv ob) (k : Nat) :
    ObjectInv (ob.store k (product.bytes k)) := by
  refine ⟨h.size, ?_⟩
  intro j hj
  rw [Object.store]
  by_cases hjk : j = k
  · subst hjk
    exact .inr (Function.update_self ..)
  · simp only [Function.update_of_ne hjk]
    exact h.bytes j hj

theorem Advances.created {object : Option Object} :
    Advances object (some (object.getD .created)) := by
  cases object with
  | none =>
      refine ⟨fun _ => rfl, ?_, ?_⟩
      · exact fun h => nomatch h.choose_spec.1
      · exact fun _ h => nomatch h.choose_spec.1
  | some ob => exact .refl _

theorem Advances.truncate (ob : Object) : Advances (some ob) (some (ob.truncate len)) := by
  refine ⟨fun _ => rfl, fun _ => (sized_some _).mpr rfl, ?_⟩
  intro k _ hk hbyte
  rw [written_some] at hbyte ⊢
  exact (if_pos hk).trans hbyte

theorem Advances.store (ob : Object) (k : Nat) :
    Advances (some ob) (some (ob.store k (product.bytes k))) := by
  refine ⟨fun _ => rfl, ?_, ?_⟩
  · rw [sized_some, sized_some]
    exact id
  · intro j _ _ hbyte
    rw [written_some] at hbyte ⊢
    by_cases hjk : j = k
    · subst hjk
      exact Function.update_self ..
    · exact (Function.update_of_ne hjk ..).trans hbyte

/-! ## The invariant -/

/-- What a producer knows of the object. -/
def Producer.Inv (object : Option Object) : Producer → Prop
  | .shm_open      => True
  | .ftruncate     => object.isSome
  | .mmap | .close => Sized object
  | .memcpy left   => Sized object ∧ ((∀ k ∈ left, k < len) ∧ left.Nodup) ∧
      ∀ k, k < len → k ∉ left → Written object k
  | .failed _ e    => e.Failed
  | .done          => Sized object ∧ ∀ k, k < len → Written object k
  | .faulted       => False

/-- What a consumer knows of the object and of its copy. -/
def Consumer.Inv (object : Option Object) : Consumer → Prop
  | .shm_open      => True
  | .fstat         => object.isSome
  | .mmap st_size  => st_size = 0 ∨ st_size = len ∧ Sized object
  | .close st_size => st_size = len ∧ Sized object
  | .memcpy st_size left m => st_size = len ∧ Sized object ∧ ((∀ k ∈ left, k < len) ∧ left.Nodup) ∧
      ∀ k, k < len → k ∉ left → m k = 0 ∨ m k = product.bytes k
  | .failed _ e    => e.Failed
  | .done p        => PartOf p
  | .faulted       => False

theorem Producer.Inv.advance {p : Producer} {object object' : Option Object}
    (h : p.Inv object) (ha : Advances object object') : p.Inv object' := by
  cases p with
  | shm_open => trivial
  | ftruncate => exact ha.exists_ h
  | mmap => exact ha.sized h
  | close => exact ha.sized h
  | memcpy left =>
      exact ⟨ha.sized h.1, h.2.1, fun k hk hleft => ha.written k h.1 hk (h.2.2 k hk hleft)⟩
  | failed error e => exact h
  | done => exact ⟨ha.sized h.1, fun k hk => ha.written k h.1 hk (h.2 k hk)⟩
  | faulted => exact h

theorem Consumer.Inv.advance {c : Consumer} {object object' : Option Object}
    (h : c.Inv object) (ha : Advances object object') : c.Inv object' := by
  cases c with
  | shm_open => trivial
  | fstat => exact ha.exists_ h
  | mmap st_size => exact h.imp_right fun h => ⟨h.1, ha.sized h.2⟩
  | close st_size => exact ⟨h.1, ha.sized h.2⟩
  | memcpy st_size left m => exact ⟨h.1, ha.sized h.2.1, h.2.2⟩
  | failed error e => exact h
  | done p => exact h
  | faulted => exact h

/-- The two ways in which a system call ends. -/
theorem attempt_cases {α : Type} {name : String} {dumpcore : Option String}
    {failed : String → Ending → α} {next : Option α} {o : Outcome} {a : α}
    (h : attempt name dumpcore failed next o = some a) :
    o = .ok ∧ next = some a ∨ o = .fails ∧ ∃ e, e.Failed ∧ a = failed name e := by
  cases o with
  | ok => exact .inl ⟨rfl, h⟩
  | fails =>
      cases h
      exact .inr ⟨rfl, _, terminate_failed dumpcore true (by decide), rfl⟩
  | copies k => cases h

variable {dumpcore : Option String} {stack : Nat → UInt8} {object object' : Option Object}
  {o : Outcome}

/-- The producer is before a system call. -/
def Producer.Early : Producer → Prop
  | .shm_open | .ftruncate | .mmap | .close => True
  | _ => False

/-- The consumer has not begun to copy. -/
def Consumer.Early : Consumer → Prop
  | .shm_open | .fstat | .mmap _ | .close _ => True
  | _ => False

/-- What a producer's step can be. -/
inductive Producer.Move : Option Object → Outcome → Producer → Option Object → Producer → Prop where
  | shm_open {object : Option Object} :
      Move object .ok .shm_open (some (object.getD .created)) .ftruncate
  | ftruncate {ob : Object} : Move (some ob) .ok .ftruncate (some (ob.truncate len)) .mmap
  | mmap {object : Option Object} : Move object .ok .mmap object .close
  | close {object : Option Object} : Move object .ok .close object (.memcpy (List.range len))
  | copy {ob : Object} {left : List Nat} {k : Nat} (hmem : k ∈ left) (hk : k < ob.size) :
      Move (some ob) (.copies k) (.memcpy left) (some (ob.store k (product.bytes k)))
        (.memcpy (left.erase k))
  | fault {ob : Object} {left : List Nat} {k : Nat} (hmem : k ∈ left) (hk : ¬ k < ob.size) :
      Move (some ob) (.copies k) (.memcpy left) (some ob) .faulted
  | finish {object : Option Object} : Move object .ok (.memcpy []) object .done
  | fail {object : Option Object} {p : Producer} {error : String} {e : Ending} (hp : p.Early)
      (he : e.Failed) : Move object .fails p object (.failed error e)

/-- What a consumer's step can be. -/
inductive Consumer.Move (stack : Nat → UInt8) (object : Option Object) :
    Outcome → Consumer → Consumer → Prop where
  | shm_open (h : object.isSome) : Move stack object .ok .shm_open .fstat
  | fstat {ob : Object} (h : object = some ob) : Move stack object .ok .fstat (.mmap ob.size)
  | mmap {n : Nat} (hn : n ≠ 0) : Move stack object .ok (.mmap n) (.close n)
  | close {n : Nat} : Move stack object .ok (.close n) (.memcpy n (List.range len) stack)
  | copy {n k : Nat} {left : List Nat} {m : Nat → UInt8} {ob : Object} (hmem : k ∈ left)
      (h : object = some ob) (hk : k < n ∧ k < ob.size) :
      Move stack object (.copies k) (.memcpy n left m)
        (.memcpy n (left.erase k) (Function.update m k (ob.bytes k)))
  | fault {n k : Nat} {left : List Nat} {m : Nat → UInt8} {ob : Object} (hmem : k ∈ left)
      (h : object = some ob) (hk : ¬ (k < n ∧ k < ob.size)) :
      Move stack object (.copies k) (.memcpy n left m) .faulted
  | print {n : Nat} {m : Nat → UInt8} : Move stack object .ok (.memcpy n [] m)
      ((printed m).elim .faulted .done)
  | fail {c : Consumer} {error : String} {e : Ending} (hc : c.Early) (he : e.Failed) :
      Move stack object .fails c (.failed error e)

theorem producerStep_move {p p' : Producer}
    (hs : producerStep dumpcore object o p = some (object', p')) : p.Move object o object' p' := by
  cases p with
  | shm_open =>
      rw [producerStep] at hs
      rcases attempt_cases hs with ⟨rfl, hs⟩ | ⟨rfl, e, he, hs⟩ <;> cases hs
      · exact .shm_open
      · exact .fail trivial he
  | ftruncate =>
      rw [producerStep] at hs
      rcases attempt_cases hs with ⟨rfl, hs⟩ | ⟨rfl, e, he, hs⟩
      · obtain ⟨ob, rfl, hs⟩ := Option.map_eq_some_iff.mp hs
        cases hs
        exact .ftruncate
      · cases hs
        exact .fail trivial he
  | mmap =>
      rw [producerStep] at hs
      rcases attempt_cases hs with ⟨rfl, hs⟩ | ⟨rfl, e, he, hs⟩ <;> cases hs
      · exact .mmap
      · exact .fail trivial he
  | close =>
      rw [producerStep] at hs
      rcases attempt_cases hs with ⟨rfl, hs⟩ | ⟨rfl, e, he, hs⟩ <;> cases hs
      · exact .close
      · exact .fail trivial he
  | memcpy left =>
      cases o with
      | ok =>
          rw [producerStep] at hs
          split at hs <;> cases hs
          next hnil => exact hnil ▸ .finish
      | fails => cases hs
      | copies k =>
          rw [producerStep] at hs
          split at hs
          next hmem =>
            obtain ⟨ob, rfl, hs⟩ := Option.map_eq_some_iff.mp hs
            split at hs <;> cases hs
            next hk => exact .copy hmem hk
            next hk => exact .fault hmem hk
          next => cases hs
  | failed error e => cases hs
  | done => cases hs
  | faulted => cases hs

theorem consumerStep_move {c c' : Consumer}
    (hs : consumerStep dumpcore stack object o c = some c') : c.Move stack object o c' := by
  cases c with
  | shm_open =>
      rw [consumerStep] at hs
      rcases attempt_cases hs with ⟨rfl, hs⟩ | ⟨rfl, e, he, rfl⟩
      · obtain ⟨ob, rfl, rfl⟩ := Option.map_eq_some_iff.mp hs
        exact .shm_open rfl
      · exact .fail trivial he
  | fstat =>
      rw [consumerStep] at hs
      rcases attempt_cases hs with ⟨rfl, hs⟩ | ⟨rfl, e, he, rfl⟩
      · obtain ⟨ob, hob, rfl⟩ := Option.map_eq_some_iff.mp hs
        exact .fstat hob
      · exact .fail trivial he
  | mmap n =>
      rw [consumerStep] at hs
      rcases attempt_cases hs with ⟨rfl, hs⟩ | ⟨rfl, e, he, rfl⟩
      · split at hs <;> cases hs
        next hn => exact .mmap hn
      · exact .fail trivial he
  | close n =>
      rw [consumerStep] at hs
      rcases attempt_cases hs with ⟨rfl, hs⟩ | ⟨rfl, e, he, rfl⟩
      · cases hs
        exact .close
      · exact .fail trivial he
  | memcpy n left m =>
      cases o with
      | ok =>
          rw [consumerStep] at hs
          split at hs <;> cases hs
          next hnil => exact hnil ▸ .print
      | fails => cases hs
      | copies k =>
          rw [consumerStep] at hs
          split at hs
          next hmem =>
            obtain ⟨ob, hob, hs⟩ := Option.map_eq_some_iff.mp hs
            split at hs <;> cases hs
            next hk => exact .copy hmem hob hk
            next hk => exact .fault hmem hob hk
          next => cases hs
  | failed error e => cases hs
  | done p => cases hs
  | faulted => cases hs

/-- What a `memcpy` still has to copy. -/
theorem copying_start : (∀ k ∈ List.range len, k < len) ∧ (List.range len).Nodup :=
  ⟨fun _ hk => List.mem_range.mp hk, List.nodup_range⟩

theorem copying_next {left : List Nat} (h : (∀ k ∈ left, k < len) ∧ left.Nodup) (k : Nat) :
    (∀ j ∈ left.erase k, j < len) ∧ (left.erase k).Nodup :=
  ⟨fun j hj => h.1 j (List.mem_of_mem_erase hj), h.2.erase k⟩

/-- A copy of one byte: what held of the bytes copied so far, and holds of this one, holds of all
    copied now. -/
theorem copied_next {P : Nat → Prop} {left : List Nat} (hnodup : left.Nodup) {k : Nat} (hk : P k)
    (h : ∀ j, j < len → j ∉ left → j ≠ k → P j) : ∀ j, j < len → j ∉ left.erase k → P j := by
  intro j hj hleft
  rw [hnodup.mem_erase_iff] at hleft
  by_cases hjk : j = k
  · exact hjk ▸ hk
  · exact h j hj (fun hmem => hleft ⟨hjk, hmem⟩) hjk

/-- **A producer's step** only advances the object, and stays inside it. -/
theorem Producer.Move.inv {p p' : Producer} (hm : p.Move object o object' p')
    (hob : ∀ ob, object = some ob → ObjectInv ob) (h : p.Inv object) :
    Advances object object' ∧ (∀ ob, object' = some ob → ObjectInv ob) ∧ p'.Inv object' := by
  cases hm with
  | shm_open =>
      refine ⟨.created, ?_, rfl⟩
      rintro ob ⟨⟩
      cases object with
      | none => exact .created
      | some ob => exact hob ob rfl
  | ftruncate =>
      refine ⟨.truncate _, ?_, (sized_some _).mpr rfl⟩
      rintro ob ⟨⟩
      exact (hob _ rfl).truncate
  | mmap => exact ⟨.refl _, hob, h⟩
  | close =>
      exact ⟨.refl _, hob, h, copying_start,
        fun k hk hleft => absurd (List.mem_range.mpr hk) hleft⟩
  | @copy ob left k hmem hk =>
      obtain ⟨hsized, hleft, hwritten⟩ := h
      refine ⟨.store ob k, ?_, (Advances.store ob k).sized hsized, copying_next hleft k, ?_⟩
      · rintro ob' ⟨⟩
        exact (hob ob rfl).store k
      · refine copied_next hleft.2 ?_ fun j hj hmem _ =>
          (Advances.store ob k).written j hsized hj (hwritten j hj hmem)
        rw [written_some]
        exact Function.update_self ..
  | fault hmem hk =>
      obtain ⟨hsized, hleft, -⟩ := h
      exact absurd ((sized_some _).mp hsized ▸ hleft.1 _ hmem) hk
  | finish => exact ⟨.refl _, hob, h.1, fun k hk => h.2.2 k hk List.not_mem_nil⟩
  | fail hp he => exact ⟨.refl _, hob, he⟩

/-- **A consumer's step** stays inside the object, and copies what is there. -/
theorem Consumer.Move.inv {c c' : Consumer} (hm : c.Move stack object o c')
    (hob : ∀ ob, object = some ob → ObjectInv ob) (h : c.Inv object) : c'.Inv object := by
  cases hm with
  | shm_open hsome => exact hsome
  | @fstat ob hobject =>
      subst hobject
      exact (hob ob rfl).size.imp_right fun hsize => ⟨hsize, (sized_some _).mpr hsize⟩
  | mmap hn => exact h.resolve_left hn
  | close => exact ⟨h.1, h.2, copying_start, fun k hk hleft => absurd (List.mem_range.mpr hk) hleft⟩
  | @copy n k left m ob hmem hobject hk =>
      subst hobject
      obtain ⟨hn, hsized, hleft, hcopied⟩ := h
      refine ⟨hn, hsized, copying_next hleft k, copied_next hleft.2 ?_ fun j hj hmem hjk => ?_⟩
      · rw [Function.update_self]
        exact (hob ob rfl).bytes k (hleft.1 k hmem)
      · rw [Function.update_of_ne hjk]
        exact hcopied j hj hmem
  | fault hmem hobject hk =>
      subst hobject
      obtain ⟨rfl, hsized, hleft, -⟩ := h
      have hlt := hleft.1 _ hmem
      exact absurd ⟨hlt, (sized_some _).mp hsized ▸ hlt⟩ hk
  | @print n m =>
      have hpartly : Partly m := fun k hk => h.2.2.2 k hk List.not_mem_nil
      obtain ⟨p, hp, hpart⟩ := hpartly.printed
      rw [hp]
      exact hpart
  | fail hc he => exact he

/-! ## Any number of processes -/

structure Inv (s : State ι κ) : Prop where
  object   : ∀ ob, s.object = some ob → ObjectInv ob
  producer : ∀ i, (s.producer i).Inv s.object
  consumer : ∀ j, (s.consumer j).Inv s.object

variable {s s' s₁ s₂ : State ι κ} {a : Act ι κ}

/-- A step as the process that makes it sees it. -/
theorem step_cases (hs : step dumpcore stack s a = some s') :
    (∃ i o object p, a = .producer i o ∧ (s.producer i).Move s.object o object p ∧
      s' = { s with object := object, producer := Function.update s.producer i p }) ∨
    ∃ j o c, a = .consumer j o ∧ (s.consumer j).Move stack s.object o c ∧
      s' = { s with consumer := Function.update s.consumer j c } := by
  cases a with
  | producer i o =>
      obtain ⟨next, hnext, rfl⟩ := Option.map_eq_some_iff.mp hs
      exact .inl ⟨i, o, next.1, next.2, rfl, producerStep_move hnext, rfl⟩
  | consumer j o =>
      obtain ⟨next, hnext, rfl⟩ := Option.map_eq_some_iff.mp hs
      exact .inr ⟨j, o, next, rfl, consumerStep_move hnext, rfl⟩

theorem inv_step (h : Inv s) (hs : step dumpcore stack s a = some s') :
    Inv s' ∧ Advances s.object s'.object := by
  rcases step_cases hs with ⟨i, o, object, p, -, hm, rfl⟩ | ⟨j, o, c, -, hm, rfl⟩
  · obtain ⟨ha, hob, hp⟩ := hm.inv h.object (h.producer i)
    refine ⟨⟨hob, ?_, fun j => (h.consumer j).advance ha⟩, ha⟩
    intro i'
    by_cases hi : i' = i
    · subst hi
      simpa using hp
    · simpa [hi] using (h.producer i').advance ha
  · refine ⟨⟨h.object, h.producer, ?_⟩, .refl _⟩
    intro j'
    by_cases hj : j' = j
    · subst hj
      simpa using hm.inv h.object (h.consumer j')
    · simpa [hj] using h.consumer j'

theorem inv_reach (h : Reachable (step dumpcore stack) opening s) : Inv s := by
  have hinit : Inv (opening : State ι κ) := ⟨nofun, fun _ => trivial, fun _ => trivial⟩
  exact h.invariant hinit fun _ _ _ hi _ hs => (inv_step hi hs).1

/-- **READING TOO EARLY DOES NO HARM.**  In every run of any number of processes nobody touches
    memory outside the object; a consumer that gives up has not reported success, and one that
    prints shows the product with some parts still zero: the id `0` or `1`, the price `0` or
    `100`, and a beginning of the name. -/
theorem reads_harmless (h : Reachable (step dumpcore stack) (opening : State ι κ) s) :
    (∀ i, s.producer i ≠ .faulted) ∧ ∀ j, s.consumer j ≠ .faulted ∧
      (∀ error e, s.consumer j = .failed error e → e.Failed) ∧
      ∀ p, s.consumer j = .done p →
        (p.id = 0 ∨ p.id = 1) ∧ (p.price = 0 ∨ p.price = 100) ∧ p.name <+: product.name := by
  have hinv := inv_reach h
  refine ⟨?_, fun j => ⟨?_, ?_, ?_⟩⟩
  · intro i hi
    have := hinv.producer i
    rwa [hi] at this
  · intro hj
    have := hinv.consumer j
    rwa [hj] at this
  · intro error e hj
    have := hinv.consumer j
    rwa [hj] at this
  · intro p hj
    have := hinv.consumer j
    rwa [hj] at this

/-- What a consumer has printed. -/
def Consumer.shown : Consumer → Option ProductInfo
  | .done p => some p
  | _       => none

theorem Consumer.eq_done {c : Consumer} {p : ProductInfo} (h : c.shown = some p) : c = .done p := by
  cases c with
  | done p' =>
      cases h
      rfl
  | _ => cases h

/-- A producer that has not written the name yet. -/
def halfWritten : List (Act Unit Unit) :=
  List.replicate 4 (.producer () .ok) ++ (List.range 8).map (fun k => .producer () (.copies k))

/-- A consumer, from its start to the end. -/
def reading : List (Act Unit Unit) :=
  List.replicate 4 (.consumer () .ok) ++ (List.range len).map (fun k => .consumer () (.copies k))
    ++ [.consumer () .ok]

/-- A consumer prints the id and the price without the name. -/
theorem reads_harmless_half : ∃ s : State Unit Unit,
    Reachable (step none fun _ => 7) opening s ∧ s.consumer () = .done ⟨1, 100, []⟩ ∧
    s.producer () ≠ .faulted := by
  obtain ⟨s, hs, hp⟩ : ∃ s, Reachable (step none fun _ => 7) (opening : State Unit Unit) s ∧
      (s.consumer ()).shown = some ⟨1, 100, []⟩ :=
    reachable_of_run_map _ _ (halfWritten ++ reading) _ (by decide +kernel)
  exact ⟨s, hs, Consumer.eq_done hp, (reads_harmless hs).1 ()⟩

/-! ## After a producer -/

/-- The record is in the object. -/
def Settled (object : Option Object) : Prop := Sized object ∧ ∀ k, k < len → Written object k

/-- A consumer that takes nothing but the product. -/
def Consumer.Fresh : Consumer → Prop
  | .memcpy _ left m => ∀ k, k < len → k ∉ left → m k = product.bytes k
  | .done p          => p = product
  | _                => True

theorem Consumer.Early.fresh {c : Consumer} (h : c.Early) : c.Fresh := by
  cases c with
  | memcpy n left m => exact h.elim
  | done p => exact h.elim
  | _ => trivial

theorem Consumer.Move.fresh {c c' : Consumer} (hm : c.Move stack object o c') (hinv : c.Inv object)
    (hset : Settled object) (h : c.Fresh) : c'.Fresh := by
  cases hm with
  | close => exact fun k hk hleft => absurd (List.mem_range.mpr hk) hleft
  | @copy n k left m ob hmem hobject hk =>
      subst hobject
      obtain ⟨-, -, hleft, -⟩ := hinv
      refine copied_next hleft.2 ?_ fun j hj hmem hjk => ?_
      · rw [Function.update_self]
        exact (written_some ..).mp (hset.2 k (hleft.1 k hmem))
      · rw [Function.update_of_ne hjk]
        exact h j hj hmem
  | print =>
      rw [printed_product fun k hk => h k hk List.not_mem_nil]
      rfl
  | _ => trivial

theorem Advances.settled (ha : Advances object object') (h : Settled object) : Settled object' :=
  ⟨ha.sized h.1, fun k hk => ha.written k h.1 hk (h.2 k hk)⟩

/-- What holds from the time on when a producer is through: `j` takes nothing but the product. -/
structure After (j : κ) (s : State ι κ) : Prop where
  inv     : Inv s
  settled : Settled s.object
  fresh   : (s.consumer j).Fresh

theorem After.step {j : κ} (h : After j s) (hs : step dumpcore stack s a = some s') :
    After j s' := by
  obtain ⟨hinv, ha⟩ := inv_step h.inv hs
  refine ⟨hinv, ha.settled h.settled, ?_⟩
  rcases step_cases hs with ⟨i, o, object, p, -, -, rfl⟩ | ⟨j', o, c, -, hm, rfl⟩
  · exact h.fresh
  · by_cases hj : j = j'
    · subst hj
      simpa using hm.fresh (h.inv.consumer j) h.settled h.fresh
    · simpa [hj] using h.fresh

theorem after_done (h : Reachable (ShareMemory.step dumpcore stack) opening s) {i : ι}
    (hi : s.producer i = .done) {j : κ} (hj : (s.consumer j).Early) : After j s := by
  have hinv := inv_reach h
  have hdone := hinv.producer i
  rw [hi] at hdone
  exact ⟨hinv, hdone, hj.fresh⟩

/-- **A LATE READER SEES THE PRODUCT.**  Once a producer is through, a consumer that has not yet
    begun to copy prints nothing but the product, whatever other producers do meanwhile and
    whatever call fails. -/
theorem reads_product (h₁ : Reachable (step dumpcore stack) opening s₁) {i : ι}
    (hi : s₁.producer i = .done) {j : κ} (hj : (s₁.consumer j).Early)
    (h₂ : Reachable (step dumpcore stack) s₁ s₂) {p : ProductInfo}
    (hp : s₂.consumer j = .done p) : p = product := by
  have hafter : After j s₂ :=
    h₂.invariant (after_done h₁ hi hj) fun _ _ _ ha _ hs => ha.step hs
  have hfresh := hafter.fresh
  rwa [hp] at hfresh

/-- The rest of the producer. -/
def writing : List (Act Unit Unit) :=
  (List.range 256).map (fun k => .producer () (.copies (8 + k))) ++ [.producer () .ok]

/-- The producer is through, the consumer at its start. -/
def State.ready (s : State Unit Unit) : Bool :=
  match s.producer (), s.consumer () with
  | .done, .shm_open => true
  | _, _             => false

theorem State.ready_eq {s : State Unit Unit} (h : s.ready = true) :
    s.producer () = .done ∧ s.consumer () = .shm_open := by
  unfold State.ready at h
  split at h
  next hp hc => exact ⟨hp, hc⟩
  next => cases h

/-- A producer and after it a consumer. -/
theorem reads_product_next : ∃ (s₁ s₂ : State Unit Unit) (p : ProductInfo),
    Reachable (step none fun _ => 7) opening s₁ ∧ s₁.producer () = .done ∧
    Reachable (step none fun _ => 7) s₁ s₂ ∧ s₂.consumer () = .done p ∧ p = product := by
  obtain ⟨s₁, hs₁, hf⟩ : ∃ s, Reachable (step none fun _ => 7) (opening : State Unit Unit) s ∧
      (s.ready, (run (step none fun _ => 7) s reading).map fun s' => (s'.consumer ()).shown.isSome)
        = (true, some true) :=
    reachable_of_run_map _ _ (halfWritten ++ writing) _ (by decide +kernel)
  obtain ⟨hready, hshown⟩ := Prod.mk.inj hf
  obtain ⟨hi, hj⟩ := State.ready_eq hready
  obtain ⟨s₂, hs₂, hshown⟩ := reachable_of_run_map _ _ reading _ hshown
  obtain ⟨p, hp⟩ := Option.isSome_iff_exists.mp hshown
  exact ⟨s₁, s₂, p, hs₁, hi, hs₂, Consumer.eq_done hp,
    reads_product hs₁ hi (hj ▸ trivial) hs₂ (Consumer.eq_done hp)⟩

/-! ## Every run can be completed -/

/-- No system call fails that could succeed: `shm_open` needs an object, `mmap` a size. -/
def Lawful (s : State ι κ) : Act ι κ → Prop
  | .producer _ .fails => False
  | .consumer j .fails => s.consumer j = .shm_open ∧ s.object = none ∨ s.consumer j = .mmap 0
  | _ => True

/-- How many steps a producer can still make. -/
def Producer.weight : Producer → Nat
  | .shm_open    => len + 5
  | .ftruncate   => len + 4
  | .mmap        => len + 3
  | .close       => len + 2
  | .memcpy left => left.length + 1
  | .failed _ _ | .done | .faulted => 0

/-- How many steps a consumer can still make. -/
def Consumer.weight : Consumer → Nat
  | .shm_open        => len + 5
  | .fstat           => len + 4
  | .mmap _          => len + 3
  | .close _         => len + 2
  | .memcpy _ left _ => left.length + 1
  | .failed _ _ | .done _ | .faulted => 0

theorem length_erase_lt {left : List Nat} {k : Nat} (h : k ∈ left) :
    (left.erase k).length + 1 < left.length + 1 := by
  rw [List.length_erase_of_mem h]
  have := List.length_pos_of_mem h
  omega

theorem Producer.Move.weight {p p' : Producer} (hm : p.Move object o object' p') :
    p'.weight < p.weight := by
  cases hm with
  | copy hmem hk => exact length_erase_lt hmem
  | fail hp he => cases p <;> first | exact Nat.succ_pos _ | exact hp.elim
  | close => simp [Producer.weight]
  | _ => simp [Producer.weight]

theorem Consumer.Move.weight {c c' : Consumer} (hm : c.Move stack object o c') :
    c'.weight < c.weight := by
  cases hm with
  | copy hmem hobject hk => exact length_erase_lt hmem
  | @print n m => cases printed m <;> exact Nat.succ_pos _
  | fail hc he => cases c <;> first | exact Nat.succ_pos _ | exact hc.elim
  | _ => simp [Consumer.weight]

/-- The consumer has found the whole object. -/
def Consumer.OnTrack : Consumer → Prop
  | .mmap n => n ≠ 0
  | .failed _ _ | .faulted => False
  | _ => True

/-- With the record in the object only a failing system call takes a consumer off its track. -/
theorem Consumer.Move.onTrack {c c' : Consumer} (hm : c.Move stack object o c')
    (ho : o ≠ .fails) (hinv : c.Inv object) (hset : Settled object) (h : c.Fresh) : c'.OnTrack := by
  cases hm with
  | fstat hobject =>
      subst hobject
      rw [Consumer.OnTrack, (sized_some _).mp hset.1]
      decide
  | fault hmem hobject hk =>
      subst hobject
      obtain ⟨rfl, hsized, hleft, -⟩ := hinv
      have hlt := hleft.1 _ hmem
      exact absurd ⟨hlt, (sized_some _).mp hsized ▸ hlt⟩ hk
  | print =>
      rw [printed_product fun k hk => h k hk List.not_mem_nil]
      trivial
  | fail hc he => exact absurd rfl ho
  | _ => trivial

/-- On its track a consumer can go on until it has printed. -/
theorem Consumer.OnTrack.done {c : Consumer} (dumpcore : Option String) (stack : Nat → UInt8)
    (h : c.OnTrack) (hset : Settled object)
    (hstuck : ∀ o, o ≠ .fails → consumerStep dumpcore stack object o c = none) :
    ∃ p, c = .done p := by
  obtain ⟨ob, rfl, -⟩ := hset.1
  cases c with
  | shm_open => exact nomatch hstuck .ok nofun
  | fstat => exact nomatch hstuck .ok nofun
  | mmap n =>
      have hnone := hstuck .ok nofun
      rw [consumerStep, attempt, if_neg h] at hnone
      cases hnone
  | close n => exact nomatch hstuck .ok nofun
  | memcpy n left m =>
      cases left with
      | nil => exact nomatch hstuck .ok nofun
      | cons k left =>
          have hnone := hstuck (.copies k) nofun
          rw [consumerStep, if_pos List.mem_cons_self] at hnone
          cases hnone
  | failed error e => exact h.elim
  | done p => exact ⟨p, rfl⟩
  | faulted => exact h.elim

/-- What holds of a consumer that starts when a producer is through. -/
structure Late (j : κ) (s : State ι κ) : Prop extends After j s where
  onTrack : (s.consumer j).OnTrack

theorem Late.step {j : κ} (h : Late j s) (hok : Lawful s a)
    (hs : step dumpcore stack s a = some s') : Late j s' := by
  refine ⟨h.toAfter.step hs, ?_⟩
  rcases step_cases hs with ⟨i, o, object, p, -, -, rfl⟩ | ⟨j', o, c, rfl, hm, rfl⟩
  · exact h.onTrack
  · by_cases hj : j = j'
    · subst hj
      have ho : o ≠ .fails := by
        rintro rfl
        rcases hok with ⟨-, hnone⟩ | hmmap
        · obtain ⟨ob, hob, -⟩ := h.settled.1
          cases hob.symm.trans hnone
        · have htrack := h.onTrack
          rw [hmmap] at htrack
          exact htrack rfl
      simpa using hm.onTrack ho (h.inv.consumer j) h.settled h.fresh
    · simpa [hj] using h.onTrack

/-- How many steps all processes together can still make. -/
def State.weight [Fintype ι] [Fintype κ] (s : State ι κ) : Nat :=
  (Finset.univ.sum fun i => (s.producer i).weight) + Finset.univ.sum fun j => (s.consumer j).weight

theorem step_weight [Fintype ι] [Fintype κ] (hs : step dumpcore stack s a = some s') :
    s'.weight < s.weight := by
  rcases step_cases hs with ⟨i, o, object, p, -, hm, rfl⟩ | ⟨j, o, c, -, hm, rfl⟩
  · have hsum := sum_replace (f := fun i' => (Function.update s.producer i p i').weight)
      (g := fun i' => (s.producer i').weight) i fun i' hi => by rw [Function.update_of_ne hi]
    have hless := hm.weight
    simp only [Function.update_self] at hsum
    simp only [State.weight]
    omega
  · have hsum := sum_replace (f := fun j' => (Function.update s.consumer j c j').weight)
      (g := fun j' => (s.consumer j').weight) j fun j' hj => by rw [Function.update_of_ne hj]
    have hless := hm.weight
    simp only [Function.update_self] at hsum
    simp only [State.weight]
    omega

/-- **A LATE READER GETS THERE.**  When a consumer starts after a producer is through and no system
    call fails, every run of the processes can be completed, and then the consumer has printed the
    product. -/
theorem late_consumer_completes [Fintype ι] [Fintype κ]
    (h₁ : Reachable (step dumpcore stack) opening s₁) {i : ι} (hi : s₁.producer i = .done) {j : κ}
    (hj : s₁.consumer j = .shm_open) (h₂ : Reach (step dumpcore stack) Lawful s₁ s₂) :
    ∃ s₃, Reach (step dumpcore stack) Lawful s₂ s₃ ∧ Stuck (step dumpcore stack) Lawful s₃ ∧
      s₃.consumer j = .done product := by
  have hstart : Late j s₁ := ⟨after_done h₁ hi (hj ▸ trivial), hj ▸ trivial⟩
  have hkeep : ∀ (s : State ι κ) a s',
      Late j s → Lawful s a → step dumpcore stack s a = some s' → Late j s' :=
    fun _ _ _ hl hok hs => hl.step hok hs
  obtain ⟨s₃, h₃, hstuck⟩ := Reach.exhausts (Late j) State.weight hkeep
    (fun _ _ _ _ _ hs => step_weight hs) (h₂.invariant hstart hkeep)
  have hlate : Late j s₃ := h₃.invariant (h₂.invariant hstart hkeep) hkeep
  refine ⟨s₃, h₃, hstuck, ?_⟩
  obtain ⟨p, hp⟩ := hlate.onTrack.done dumpcore stack hlate.settled
    fun o ho => Option.map_eq_none_iff.mp (hstuck (.consumer j o) (by
      cases o with
      | fails => exact absurd rfl ho
      | _ => trivial))
  have hfresh := hlate.fresh
  rw [hp] at hfresh
  rw [hp, show p = product from hfresh]

/-- One producer and one consumer. -/
theorem late_consumer_completes_one : ∃ s₁ s : State Unit Unit,
    Reachable (step none fun _ => 7) opening s₁ ∧ s₁.producer () = .done ∧
    s₁.consumer () = .shm_open ∧ Reach (step none fun _ => 7) Lawful s₁ s ∧
    Stuck (step none fun _ => 7) Lawful s ∧ s.consumer () = .done product := by
  obtain ⟨s₁, hs₁, hready⟩ : ∃ s, Reachable (step none fun _ => 7) (opening : State Unit Unit) s ∧
      s.ready = true :=
    reachable_of_run_map _ _ (halfWritten ++ writing) _ (by decide +kernel)
  obtain ⟨hi, hj⟩ := State.ready_eq hready
  obtain ⟨s, hs, hstuck, hdone⟩ := late_consumer_completes hs₁ hi hj .init
  exact ⟨s₁, s, hs₁, hi, hj, hs, hstuck, hdone⟩

end ShareMemory
